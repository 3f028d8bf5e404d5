import Ai00.Connector.ViewerMapping
import Ai00.Connector.ViewerVisibility

/-! # The results of a batch of viewer nodes

`ResolveViewerNodesAsync` maps a batch and then calibrates what is visible of each mapped node, over one
memo and two budgets. What is reported is sound (`Reported`), whatever has been read before and wherever
the budgets end: a node is visible, or hidden, only if everything below it has been read and is so.
-/

namespace Ai00.Connector.Viewer

variable {κ : Type} [DecidableEq κ]

/-! ## Calibration -/

/-- A registered node: its key and identity, and the native geometry that a cache environment has
registered for it. -/
structure Mapped (κ : Type) where
  key : κ
  cadId : Units
  geometry : Option (List (κ × Units))

def Session.mapped? (session : Session κ) (reference : Reference) : Option (Mapped κ) := do
  let key ← session.sessionNodeKeys.lookup reference
  let node ← session.viewerNodes.lookup reference
  pure ⟨key, node.cadId, session.viewerGeometry.lookup reference⟩

/-- What is found for several native nodes together. -/
def together (states : List Observed) : Observed :=
  let unknown := states.findSome? Observed.error
  let on := states.any Observed.on
  let off := states.any Observed.off
  if unknown ≠ none then ⟨none, .unknown, unknown⟩
  else if on && off then ⟨none, .mixed, none⟩
  else .all on

/-- An entry of the answer. -/
structure ViewerNodeResolution where
  sourceNodeId : Units
  nodeRef : Option Reference
  observed : Observed
  deriving DecidableEq

section

variable (c : Conditions) (document : NativeDocument κ) (fuel : ℕ)

def findNodeByKey (key : κ) : Call κ κ := do
  match (← native c (document.nodeOfKey key)) with
  | some node => pure node
  | none => Stateful.raise .other

/-- One of the native nodes of a geometry. -/
def observeTarget (target : κ × Units) : Call κ Observed := do
  let node ← findNodeByKey c document target.1
  let cadId ← native c (document.cadId node)
  if cadId = target.2 then readVisibility c document fuel node
  else pure (.unread .viewerMappingExpired)

def observe (mapped : Mapped κ) : Call κ Observed := do
  let node ← findNodeByKey c document mapped.key
  let key ← native c node
  if key ≠ mapped.key then pure (.unread .viewerMappingExpired)
  else do
    let cadId ← native c (document.cadId node)
    if cadId ≠ mapped.cadId then pure (.unread .viewerMappingExpired)
    else
      match mapped.geometry with
      | some targets => do
        let states ← readEach (observeTarget c document fuel) targets
        pure (together states)
      | none => readVisibility c document fuel node

def observeReference (session : Session κ) (reference : Reference) : Call κ Observed :=
  match session.mapped? reference with
  | some mapped => observe c document fuel mapped
  | none => Stateful.raise .other

def calibrate (session : Session κ) : Resolution → Call κ ViewerNodeResolution
  | .unmapped source error => pure ⟨source, none, .unread error⟩
  | .mapped source reference => do
    requireViewerAdmission c
    let observed ← caught (fun _ => .viewerVisibilityReadFailed)
      (observeReference c document fuel session reference)
    pure ⟨source, some reference, observed⟩

end

/-- **The whole batch.** -/
def resolveViewerNodes (c : Conditions) (tree : NativeTree κ) (hash : Wire Units → Units)
    (sourceNodes : Wire Units) : Call κ (List ViewerNodeResolution) := do
  requireViewerAdmission c
  match sourceNodes with
  | .arr descriptors =>
    if descriptors.length < 1 ∨ 256 < descriptors.length then Stateful.raise (.noEffect .viewerNodesInvalid)
    else do
      let results ← mapAll c tree hash descriptors
      let session ← Stateful.read Batch.session
      let budget ← Stateful.read Batch.visibilityRemaining
      let answer ← readEach (calibrate c tree.toNativeDocument (budget.toNat + 1) session) results
      requireViewerAdmission c
      pure answer
  | _ => Stateful.raise (.noEffect .viewerNodesInvalid)

/-! ## What is reported -/

/-- The native nodes that an answer is about. -/
def Mapped.places (document : NativeDocument κ) (mapped : Mapped κ) : List κ :=
  match mapped.geometry with
  | some targets => targets.filterMap fun target => document.nodeOfKey target.1
  | none => [mapped.key]

/-- An answer is sound for some nodes, and it is definite only if everything below them has been read. -/
structure Reported (document : NativeDocument κ) (memo : List (κ × Observed)) (places : List κ) (o : Observed) :
    Prop where
  shape : (∃ flag, o = .all flag) ∨ o = ⟨none, .mixed, none⟩ ∨ ∃ e, o = .unread e
  visible : o.state = .visible → places ≠ [] ∧ ∀ p ∈ places, ∀ d, Below document p d →
    document.isVisible d = true ∧ memo.lookup d = some (.all true)
  hidden : o.state = .hidden → ∀ p ∈ places, ∀ d, Below document p d →
    document.isVisible d = false ∧ memo.lookup d = some (.all false)
  mixed : o.state = .mixed → (∃ p ∈ places, ∃ d, Below document p d ∧ document.isVisible d = true)
    ∧ ∃ p ∈ places, ∃ d, Below document p d ∧ document.isVisible d = false

variable {document : NativeDocument κ} {memo : List (κ × Observed)} {places : List κ} {o : Observed}

theorem Reported.unread (places : List κ) (e : Code) : Reported document memo places (.unread e) :=
  ⟨.inr (.inr ⟨e, rfl⟩), fun h => (nomatch h), fun h => (nomatch h), fun h => (nomatch h)⟩

/-- **Everything below a definite answer** has been read and is the same. -/
theorem all_below (hmemo : ∀ k o, memo.lookup k = some o → Explained document memo k o) {flag : Bool} {k : κ}
    (hk : memo.lookup k = some (.all flag)) {d : κ} (hd : Below document k d) :
    document.isVisible d = flag ∧ memo.lookup d = some (.all flag) := by
  have hstep : ∀ {a : κ}, memo.lookup a = some (.all flag) → document.isVisible a = flag
      ∧ ∀ b ∈ document.children a, memo.lookup b = some (.all flag) := by
    intro a ha
    generalize ho : Observed.all flag = o at ha
    cases hmemo a o ha with
    | all flag' own below =>
      have hflag : flag = flag' := Option.some.inj (congrArg Observed.visible ho)
      exact ⟨own.trans hflag.symm, fun b hb => ho ▸ below b hb⟩
    | mixed ha hon hb hoff => cases congrArg Observed.visible ho
    | unread e => cases congrArg Observed.visible ho
  have hlookup : memo.lookup d = some (.all flag) := by
    induction hd with
    | refl => exact hk
    | tail _ hbc ih => exact (hstep ih).2 _ hbc
  exact ⟨(hstep hlookup).1, hlookup⟩

theorem reported_of_lookup (hmemo : ∀ k o, memo.lookup k = some o → Explained document memo k o) {k : κ}
    (hk : memo.lookup k = some o) : Reported document memo [k] o := by
  cases hmemo k o hk with
  | all flag own below =>
    refine ⟨.inl ⟨flag, rfl⟩, fun hstate => ⟨List.cons_ne_nil _ _, ?_⟩, fun hstate => ?_, fun hstate => ?_⟩
    · rw [List.forall_mem_singleton]
      intro d hd
      cases flag with
      | true => exact all_below hmemo hk hd
      | false => cases hstate
    · rw [List.forall_mem_singleton]
      intro d hd
      cases flag with
      | true => cases hstate
      | false => exact all_below hmemo hk hd
    · cases flag <;> cases hstate
  | mixed ha hon hb hoff =>
    refine ⟨.inr (.inl rfl), fun hstate => (nomatch hstate), fun hstate => (nomatch hstate), fun _ => ?_⟩
    exact ⟨⟨k, List.mem_singleton_self k, _, ha, hon⟩, k, List.mem_singleton_self k, _, hb, hoff⟩
  | unread e => exact .unread _ e

theorem reported_of_told (hmemo : ∀ k o, memo.lookup k = some o → Explained document memo k o) {k : κ}
    (hk : Told memo k o) : Reported document memo [k] o := by
  rcases hk with hk | ⟨e, rfl⟩
  · exact reported_of_lookup hmemo hk
  · exact .unread _ e

/-- What is found for a target: the answer for its native node, or it could not be read. -/
def TargetTold (document : NativeDocument κ) (memo : List (κ × Observed)) (target : κ × Units) (o : Observed) :
    Prop := (∃ node, document.nodeOfKey target.1 = some node ∧ Told memo node o) ∨ ∃ e, o = .unread e

theorem eq_all_of_explained {k : κ} (h : Explained document memo k o) (herror : o.error = none) (flag : Bool)
    (hother : (if flag then o.off else o.on) = false) : o = .all flag := by
  cases h with
  | all flag' own below => cases flag <;> cases flag' <;> first | rfl | cases hother
  | mixed ha hon hb hoff => cases flag <;> cases hother
  | unread e => cases herror

/-- Several nodes **together**. -/
theorem together_reported (hmemo : ∀ k o, memo.lookup k = some o → Explained document memo k o)
    {targets : List (κ × Units)} {states : List Observed}
    (htold : List.Forall₂ (TargetTold document memo) targets states) :
    Reported document memo (targets.filterMap fun target => document.nodeOfKey target.1) (together states) := by
  simp only [together]
  split_ifs with hunknown hmixed
  · obtain ⟨e, he⟩ := Option.ne_none_iff_exists'.mp hunknown
    rw [he]
    exact .unread _ e
  all_goals
    have herror : ∀ o ∈ states, o.error = none := List.findSome?_eq_none_iff.mp (not_not.mp hunknown)
    have hread : ∀ target o, TargetTold document memo target o → o ∈ states →
        ∃ node, document.nodeOfKey target.1 = some node ∧ memo.lookup node = some o := by
      rintro target o (⟨node, hnode, hknown | ⟨e, rfl⟩⟩ | ⟨e, rfl⟩) ho
      · exact ⟨node, hnode, hknown⟩
      · cases herror _ ho
      · cases herror _ ho
    have hdown : ∀ o ∈ states, ∃ p ∈ targets.filterMap (fun target => document.nodeOfKey target.1),
        memo.lookup p = some o := by
      intro o ho
      obtain ⟨target, htarget, htold⟩ := exists_of_forall₂ htold ho
      obtain ⟨node, hnode, hknown⟩ := hread target o htold ho
      exact ⟨node, List.mem_filterMap.mpr ⟨target, htarget, hnode⟩, hknown⟩
    have hup : ∀ p ∈ targets.filterMap (fun target => document.nodeOfKey target.1), ∃ o ∈ states,
        memo.lookup p = some o := by
      intro p hp
      obtain ⟨target, htarget, hp⟩ := List.mem_filterMap.mp hp
      obtain ⟨o, ho, htold⟩ := exists_of_forall₂ htold.flip htarget
      obtain ⟨node, hnode, hknown⟩ := hread target o htold ho
      rw [hnode] at hp
      cases hp
      exact ⟨o, ho, hknown⟩
  · rw [Bool.and_eq_true, List.any_eq_true, List.any_eq_true] at hmixed
    obtain ⟨⟨o, ho, hon⟩, o', ho', hoff⟩ := hmixed
    refine ⟨.inr (.inl rfl), fun hstate => (nomatch hstate), fun hstate => (nomatch hstate), fun _ => ?_⟩
    obtain ⟨p, hp, hknown⟩ := hdown o ho
    obtain ⟨p', hp', hknown'⟩ := hdown o' ho'
    exact ⟨⟨p, hp, (hmemo p o hknown).on hon⟩, p', hp', (hmemo p' o' hknown').off hoff⟩
  · have hsame : ∀ p ∈ targets.filterMap (fun target => document.nodeOfKey target.1),
        memo.lookup p = some (.all (states.any Observed.on)) := by
      intro p hp
      obtain ⟨o, ho, hknown⟩ := hup p hp
      rw [hknown, eq_all_of_explained (hmemo p o hknown) (herror o ho) (states.any Observed.on) ?_]
      cases hon : states.any Observed.on with
      | true =>
        rw [hon, Bool.true_and, Bool.not_eq_true] at hmixed
        exact Bool.eq_false_iff.mpr fun hoff => by
          rw [List.any_eq_true.mpr ⟨o, ho, hoff⟩] at hmixed
          cases hmixed
      | false =>
        exact Bool.eq_false_iff.mpr fun hoff => by
          rw [List.any_eq_true.mpr ⟨o, ho, hoff⟩] at hon
          cases hon
    refine ⟨.inl ⟨_, rfl⟩, fun hstate => ?_, fun hstate => ?_, fun hstate => ?_⟩
    · cases hon : states.any Observed.on with
      | true =>
        rw [hon] at hsame
        obtain ⟨o, ho, -⟩ := List.any_eq_true.mp hon
        obtain ⟨p, hp, -⟩ := hdown o ho
        exact ⟨List.ne_nil_of_mem hp, fun p hp d hd => all_below hmemo (hsame p hp) hd⟩
      | false =>
        rw [hon] at hstate
        cases hstate
    · cases hon : states.any Observed.on with
      | true =>
        rw [hon] at hstate
        cases hstate
      | false =>
        rw [hon] at hsame
        exact fun p hp d hd => all_below hmemo (hsame p hp) hd
    · cases hon : states.any Observed.on <;> rw [hon] at hstate <;> cases hstate

theorem Reported.kept {memo' : List (κ × Observed)}
    (hkept : ∀ k o, memo.lookup k = some o → memo'.lookup k = some o) (h : Reported document memo places o) :
    Reported document memo' places o where
  shape := h.shape
  visible hstate := by
    obtain ⟨hne, hall⟩ := h.visible hstate
    exact ⟨hne, fun p hp d hd => ⟨(hall p hp d hd).1, hkept d _ (hall p hp d hd).2⟩⟩
  hidden hstate p hp d hd :=
    ⟨(h.hidden hstate p hp d hd).1, hkept d _ (h.hidden hstate p hp d hd).2⟩
  mixed := h.mixed

/-- **Two definite answers** for the same nodes are the same, whatever has been read before each. -/
theorem Reported.agree {memo' : List (κ × Observed)} {o' : Observed} (h : Reported document memo places o)
    (h' : Reported document memo' places o') (ho : o.state ≠ .unknown) (ho' : o'.state ≠ .unknown) : o = o' := by
  have hmixed : ∀ {memo : List (κ × Observed)} {flag : Bool}, Reported document memo places (.all flag) →
      ¬ ((∃ p ∈ places, ∃ d, Below document p d ∧ document.isVisible d = true)
        ∧ ∃ p ∈ places, ∃ d, Below document p d ∧ document.isVisible d = false) := by
    rintro memo flag hall ⟨⟨p, hp, d, hd, hon⟩, p', hp', d', hd', hoff⟩
    cases flag with
    | true => exact nomatch hoff.symm.trans ((hall.visible rfl).2 p' hp' d' hd').1
    | false => exact nomatch hon.symm.trans (hall.hidden rfl p hp d hd).1
  rcases h.shape with ⟨flag, rfl⟩ | rfl | ⟨e, rfl⟩
  · rcases h'.shape with ⟨flag', rfl⟩ | rfl | ⟨e, rfl⟩
    · cases flag with
      | true =>
        cases flag' with
        | true => rfl
        | false =>
          obtain ⟨hne, hall⟩ := h.visible rfl
          obtain ⟨p, hp⟩ := List.exists_mem_of_ne_nil _ hne
          exact nomatch (hall p hp p .refl).1.symm.trans (h'.hidden rfl p hp p .refl).1
      | false =>
        cases flag' with
        | true =>
          obtain ⟨hne, hall⟩ := h'.visible rfl
          obtain ⟨p, hp⟩ := List.exists_mem_of_ne_nil _ hne
          exact nomatch (hall p hp p .refl).1.symm.trans (h.hidden rfl p hp p .refl).1
        | false => rfl
    · exact absurd (h'.mixed rfl) (hmixed h)
    · exact absurd rfl ho'
  · rcases h'.shape with ⟨flag', rfl⟩ | rfl | ⟨e, rfl⟩
    · exact absurd (h.mixed rfl) (hmixed h')
    · rfl
    · exact absurd rfl ho'
  · exact absurd rfl ho

/-! ## The second loop -/

section

variable {c : Conditions} {fuel : ℕ}

theorem findNodeByKey_still (key : κ) : Stateful.Leaves (Still document) (findNodeByKey c document key) := by
  refine Stateful.Leaves.bind Still.trans (native_still c document _) fun node => ?_
  cases node with
  | some node => exact Stateful.Leaves.pure (Still.refl document) node
  | none => exact fun s => Still.refl document s

omit [DecidableEq κ] in
theorem findNodeByKey_avoids (key : κ) : Stateful.Avoids .hangs (findNodeByKey c document key) := by
  refine Stateful.Avoids.bind (native_avoids c _ (by simp)) fun node => ?_
  cases node with
  | some node => exact Stateful.Avoids.pure node
  | none => exact Stateful.Avoids.raise (by simp)

omit [DecidableEq κ] in
theorem findNodeByKey_ok {key node : κ} {s s' : Batch κ} (h : findNodeByKey c document key s = (.ok node, s')) :
    document.nodeOfKey key = some node := by
  obtain ⟨found, t, hfound, h⟩ := Stateful.bind_returns.mp h
  rw [← native_ok hfound]
  cases found with
  | some other => rw [(Stateful.pure_eq_ok.mp h).1]
  | none => cases h

variable {s : Batch κ}

theorem observeTarget_reads (target : κ × Units) (hs : Sane document s) :
    Reads document fuel (fun memo => TargetTold document memo target) s
      (observeTarget c document fuel target s).2 (observeTarget c document fuel target s).1 := by
  refine Reads.bind (.asked hs (findNodeByKey_still target.1) (findNodeByKey_avoids target.1))
    fun node s₁ hnode hgoes₁ _ => ?_
  refine Reads.bind (.asked hgoes₁.sane (native_still c document _) (native_avoids c _ (by simp)))
    fun cadId s₂ _ hgoes₂ _ => ?_
  split_ifs
  · obtain ⟨hgoes, htold, hends⟩ := readVisibility_reads c fuel node hgoes₂.sane
    exact ⟨hgoes, fun o ho => .inl ⟨node, findNodeByKey_ok hnode, htold o ho⟩, hends⟩
  · exact Reads.pure hgoes₂.sane (.inr ⟨_, rfl⟩)

theorem observe_reads (mapped : Mapped κ) (hs : Sane document s) :
    Reads document fuel (fun memo => Reported document memo (mapped.places document)) s
      (observe c document fuel mapped s).2 (observe c document fuel mapped s).1 := by
  refine Reads.bind (.asked hs (findNodeByKey_still mapped.key) (findNodeByKey_avoids mapped.key))
    fun node s₁ _ hgoes₁ _ => ?_
  refine Reads.bind (.asked hgoes₁.sane (native_still c document node) (native_avoids c _ (by simp)))
    fun key s₂ hkey hgoes₂ _ => ?_
  obtain rfl := native_ok hkey
  split_ifs with hmoved
  · exact Reads.pure hgoes₂.sane (.unread _ _)
  · refine Reads.bind (.asked hgoes₂.sane (native_still c document _) (native_avoids c _ (by simp)))
      fun cadId s₃ _ hgoes₃ _ => ?_
    split_ifs
    · exact Reads.pure hgoes₃.sane (.unread _ _)
    · cases hgeometry : mapped.geometry with
      | none =>
        obtain ⟨hgoes, htold, hends⟩ := readVisibility_reads c fuel key hgoes₃.sane
        refine ⟨hgoes, fun o ho => ?_, hends⟩
        rw [Mapped.places, hgeometry, ← not_not.mp hmoved]
        exact reported_of_told hgoes.sane.explained (htold o ho)
      | some targets =>
        refine Reads.bind (readEach_reads (Q := TargetTold document) (fun memo memo' hkept target o htold => ?_)
          (fun target s hs => observeTarget_reads target hs) targets hgoes₃.sane)
          fun states s₄ _ hgoes₄ hstates => ?_
        · exact htold.imp_left fun h => h.imp fun _ h => h.imp_right fun h => h.kept hkept
        · refine Reads.pure hgoes₄.sane ?_
          rw [Mapped.places, hgeometry]
          exact together_reported hgoes₄.sane.explained hstates

def Session.nativeNodes (document : NativeDocument κ) (session : Session κ) (reference : Reference) : List κ :=
  ((session.mapped? reference).map (Mapped.places document)).getD []

def EntryReported (document : NativeDocument κ) (session : Session κ) (memo : List (κ × Observed))
    (entry : ViewerNodeResolution) : Prop :=
  ∀ reference, entry.nodeRef = some reference →
    Reported document memo (session.nativeNodes document reference) entry.observed

variable (c fuel) in
theorem calibrate_reads (session : Session κ) (result : Resolution) (hs : Sane document s) :
    Reads document fuel (EntryReported document session) s (calibrate c document fuel session result s).2
      (calibrate c document fuel session result s).1 := by
  cases result with
  | unmapped source error => exact Reads.pure hs fun reference h => nomatch h
  | mapped source reference =>
    refine Reads.bind (.asked hs (requireViewerAdmission_still c document)
      (requireViewerAdmission_avoids c (by simp))) fun _ s₁ _ hgoes₁ _ => ?_
    have hreference : Reads document fuel
        (fun memo => Reported document memo (session.nativeNodes document reference)) s₁
        (observeReference c document fuel session reference s₁).2
        (observeReference c document fuel session reference s₁).1 := by
      rw [observeReference, Session.nativeNodes]
      cases session.mapped? reference with
      | none => exact ⟨Goes.refl hgoes₁.sane, fun o ho => (nomatch ho), fun _ _ h => nomatch h⟩
      | some mapped => exact observe_reads mapped hgoes₁.sane
    refine Reads.bind (caught_reads _ hreference) fun o s₂ _ hgoes₂ ho => ?_
    refine Reads.pure hgoes₂.sane fun other hother => ?_
    cases hother
    rcases ho with ho | ⟨e, rfl⟩
    · exact ho
    · exact .unread _ e

variable (c fuel) in
/-- **The second loop**: it ends, and every entry is sound. -/
theorem calibrateAll_reads (session : Session κ) (results : List Resolution) (hs : Sane document s) :
    Reads document fuel (fun memo entries => ∀ entry ∈ entries, EntryReported document session memo entry) s
      (readEach (calibrate c document fuel session) results s).2
      (readEach (calibrate c document fuel session) results s).1 := by
  have hall := readEach_reads (Q := fun memo (_ : Resolution) entry => EntryReported document session memo entry)
    (fun memo memo' hkept _ entry h reference href => (h reference href).kept hkept)
    (fun result s hs => calibrate_reads c fuel session result hs) results hs
  refine ⟨hall.goes, fun entries hentries entry hentry => ?_, hall.ends⟩
  obtain ⟨_, -, h⟩ := exists_of_forall₂ (hall.told entries hentries) hentry
  exact h

end

/-! ## The first loop leaves visibility alone -/

/-- Nothing about visibility has changed, and what is known of children is right if it was. -/
structure Unseen (document : NativeDocument κ) (s s' : Batch κ) : Prop where
  visibilityByKey : s'.visibilityByKey = s.visibilityByKey
  visiting : s'.visiting = s.visiting
  visibilityRemaining : s'.visibilityRemaining = s.visibilityRemaining
  children : (∀ k known, s.childrenByKey.lookup k = some known → known = document.children k) →
    ∀ k known, s'.childrenByKey.lookup k = some known → known = document.children k

section

open Stateful

variable {α : Type} {c : Conditions} {element : Units}

theorem Unseen.refl (s : Batch κ) : Unseen document s s := ⟨rfl, rfl, rfl, id⟩

theorem Unseen.trans (s s' s'' : Batch κ) (h : Unseen document s s') (h' : Unseen document s' s'') :
    Unseen document s s'' :=
  ⟨h'.visibilityByKey.trans h.visibilityByKey, h'.visiting.trans h.visiting,
    h'.visibilityRemaining.trans h.visibilityRemaining, fun hright => h'.children (h.children hright)⟩

theorem unseen_of_still {x : Call κ α} (h : Leaves (Still document) x) : Leaves (Unseen document) x := fun s =>
  ⟨(h s).visibilityByKey, (h s).visiting, (h s).visibilityRemaining, (h s).children⟩

theorem unseen_bind {β : Type} {x : Call κ α} {f : α → Call κ β} (hx : Leaves (Unseen document) x)
    (hf : ∀ a, Leaves (Unseen document) (f a)) : Leaves (Unseen document) (x >>= f) :=
  Leaves.bind Unseen.trans hx hf

theorem unseen_pure (a : α) : Leaves (Unseen document) (pure a : Call κ α) := Leaves.pure Unseen.refl a

theorem unseen_raise (e : Raised) : Leaves (Unseen document) (raise e : Call κ α) := fun s => Unseen.refl s

theorem mappingAdmission_unseen : Leaves (Unseen document) (mappingAdmission c : Call κ Unit) :=
  unseen_of_still (mappingAdmission_still c document)

theorem native_unseen (a : α) : Leaves (Unseen document) (native c a : Call κ α) :=
  unseen_of_still (native_still c document a)

theorem children_unseen (node : κ) : Leaves (Unseen document) (children c document node) :=
  unseen_of_still (children_still node)

theorem primaryOccurrence_unseen (node : κ) : Leaves (Unseen document) (primaryOccurrence c document node) := by
  refine unseen_bind mappingAdmission_unseen fun _ => unseen_bind (native_unseen node) fun key => ?_
  refine unseen_bind (fun s => Unseen.refl s) fun known => ?_
  cases known with
  | some known => exact unseen_pure known
  | none =>
    refine unseen_bind mappingAdmission_unseen fun _ => unseen_bind (native_unseen _) fun primary => ?_
    exact unseen_bind (fun s => ⟨rfl, rfl, rfl, id⟩) fun _ => unseen_pure primary

theorem occurrences_unseen (node : κ) : Leaves (Unseen document) (occurrences c document node) := by
  refine unseen_bind mappingAdmission_unseen fun _ => unseen_bind (native_unseen node) fun key => ?_
  refine unseen_bind (fun s => Unseen.refl s) fun known => ?_
  cases known with
  | some known => exact unseen_pure known
  | none =>
    refine unseen_bind mappingAdmission_unseen fun _ => unseen_bind (native_unseen _) fun aliases => ?_
    exact unseen_bind (fun s => ⟨rfl, rfl, rfl, id⟩) fun _ => unseen_pure aliases

theorem take_unseen (level : Level κ) (child : κ) :
    Leaves (Unseen document) (level.take (asks c document) child) := by
  rw [Level.take]
  cases level.found with
  | some other => exact unseen_raise _
  | none => exact unseen_pure _

theorem scan_unseen (level : Level κ) (child : κ) :
    Leaves (Unseen document) (scan (asks c document) element level child) := by
  refine unseen_bind (primaryOccurrence_unseen child) fun primary => ?_
  split_ifs
  · exact take_unseen level child
  · refine unseen_bind (occurrences_unseen child) fun aliases => ?_
    split_ifs
    · exact take_unseen level child
    · exact unseen_pure _
    · exact unseen_pure _
  · exact unseen_pure _

theorem unwrap_unseen (wrappers : List κ) : Leaves (Unseen document) (unwrap (asks c document) wrappers) := by
  induction wrappers with
  | nil => exact unseen_pure []
  | cons wrapper rest ih => exact unseen_bind (children_unseen wrapper) fun _ => unseen_bind ih fun _ => unseen_pure _

theorem searchLevels_unseen (fuel : ℕ) (top fallback : List κ) :
    Leaves (Unseen document) (searchLevels (asks c document) element fuel top fallback) := by
  induction fuel generalizing top fallback with
  | zero =>
    cases top with
    | nil => exact unseen_pure _
    | cons child pending => exact unseen_raise _
  | succ fuel ih =>
    cases top with
    | nil => exact unseen_pure _
    | cons child pending =>
      refine unseen_bind (Leaves.foldlM Unseen.refl Unseen.trans scan_unseen _ _) fun level => ?_
      cases level.found with
      | some node => exact unseen_pure _
      | none => exact unseen_bind (unwrap_unseen level.wrappers) fun nested => ih nested _

theorem scanAlias_unseen (found : Option κ) (child : κ) :
    Leaves (Unseen document) (scanAlias (asks c document) element found child) := by
  refine unseen_bind (occurrences_unseen child) fun aliases => ?_
  split_ifs
  · cases found with
    | some other => exact unseen_raise _
    | none => exact unseen_pure _
  · exact unseen_pure _

theorem matchBelow_unseen (fuel : ℕ) (current : κ) :
    Leaves (Unseen document) (matchBelow (asks c document) fuel element current) := by
  refine unseen_bind (children_unseen current) fun top => ?_
  refine unseen_bind (searchLevels_unseen fuel top []) fun found => ?_
  obtain ⟨found, fallback⟩ := found
  cases found with
  | some node => exact unseen_pure node
  | none =>
    refine unseen_bind (Leaves.foldlM Unseen.refl Unseen.trans scanAlias_unseen _ _) fun found => ?_
    cases found with
    | some node => exact unseen_pure node
    | none => exact unseen_raise _

variable {tree : NativeTree κ}

theorem resolveFrom_unseen (path : List Units) (walked : Units) (current : κ) :
    Leaves (Unseen tree.toNativeDocument) (resolveFrom c tree path walked current) := by
  induction path generalizing walked current with
  | nil => exact unseen_pure current
  | cons element rest ih =>
    refine unseen_bind mappingAdmission_unseen fun _ => unseen_bind (fun s => Unseen.refl s) fun known => ?_
    cases known with
    | some known => exact ih _ known
    | none =>
      refine unseen_bind (matchBelow_unseen _ current) fun found => ?_
      exact unseen_bind (fun s => ⟨rfl, rfl, rfl, id⟩) fun _ => ih _ found

theorem resolvePath_unseen (path : List Units) :
    Leaves (Unseen tree.toNativeDocument) (resolvePath c tree path) := by
  have hbelow : Leaves (Unseen tree.toNativeDocument) (belowRoot (asks c tree.toNativeDocument) tree.root path) := by
    cases path with
    | nil => exact unseen_pure []
    | cons first rest =>
      refine unseen_bind (primaryOccurrence_unseen tree.root) fun primary => ?_
      split_ifs
      · exact unseen_pure _
      · exact unseen_pure _
      · refine unseen_bind (occurrences_unseen tree.root) fun aliases => ?_
        split_ifs
        · exact unseen_pure _
        · exact unseen_pure _
  exact unseen_bind hbelow fun rest => resolveFrom_unseen rest [] tree.root

theorem locate_unseen (kind : Units) (path : List Units) :
    Leaves (Unseen tree.toNativeDocument) (locate c tree kind path) := by
  unfold locate
  split_ifs
  · exact unseen_pure _
  · refine unseen_bind (children_unseen tree.root) fun below => ?_
    match below with
    | [] => exact unseen_pure _
    | [part] =>
      refine unseen_bind (children_unseen part) fun nested => ?_
      split_ifs
      · exact unseen_pure _
      · exact unseen_raise _
    | _ :: _ :: _ => exact unseen_raise _
  · exact resolvePath_unseen path
  · exact unseen_raise _

theorem register_unseen (source locator kind : Units) (node : κ) :
    Leaves (Unseen document) (register c document source locator kind node) := by
  refine unseen_bind mappingAdmission_unseen fun _ => unseen_bind (native_unseen _) fun cadId => ?_
  split_ifs
  · exact unseen_raise _
  · refine unseen_bind (fun s => Unseen.refl s) fun session => ?_
    split_ifs
    · exact unseen_raise _
    · refine unseen_bind (native_unseen node) fun key => ?_
      exact unseen_bind (fun s => ⟨rfl, rfl, rfl, id⟩) fun _ => unseen_pure _

variable (c : Conditions) (tree : NativeTree κ) (hash : Wire Units → Units)

theorem mapSource_unseen (source : Units) (descriptor : Wire Units) :
    Leaves (Unseen tree.toNativeDocument) (mapSource c tree hash source descriptor) := by
  unfold mapSource
  cases parseDescriptor descriptor with
  | error code => exact unseen_raise _
  | ok parsed =>
    refine unseen_bind (fun s => Unseen.refl s) fun session => ?_
    cases session.previous source (hash descriptor) with
    | some reference => exact unseen_pure _
    | none =>
      refine unseen_bind (locate_unseen parsed.1 parsed.2) fun node => ?_
      exact unseen_bind (register_unseen source _ parsed.1 node) fun reference => unseen_pure _

theorem mapNode_unseen (descriptor : Wire Units) :
    Leaves (Unseen tree.toNativeDocument) (mapNode c tree hash descriptor) := by
  refine unseen_bind mappingAdmission_unseen fun _ => ?_
  cases viewerDescriptorText descriptor "source_node_id" 256 .viewerNodeInvalid with
  | error code => exact unseen_pure _
  | ok source =>
    intro s
    have hsource := mapSource_unseen c tree hash source descriptor s
    simp only [unmappedBy]
    rcases hended : mapSource c tree hash source descriptor s with ⟨r, t⟩
    rw [hended] at hsource
    rcases r with (code | _ | _) | result
    · dsimp only
      split_ifs
      · exact hsource
      · exact hsource
    · exact hsource
    · exact hsource
    · exact hsource

/-- **The first loop**, whatever happens in it. -/
theorem mapAll_unseen (descriptors : List (Wire Units)) :
    Leaves (Unseen tree.toNativeDocument) (mapAll c tree hash descriptors) := by
  induction descriptors with
  | nil => exact unseen_pure []
  | cons descriptor rest ih =>
    exact unseen_bind (mapNode_unseen c tree hash descriptor) fun _ => unseen_bind ih fun _ => unseen_pure _

end

/-! ## The whole batch -/

section

variable {tree : NativeTree κ} {c : Conditions} {hash : Wire Units → Units}

theorem startWith_sane (session : Session κ) (remaining : ℕ) (visibilityRemaining : ℤ) :
    Sane tree.toNativeDocument (startWith tree session remaining visibilityRemaining) :=
  ⟨fun _ _ h => (nomatch h), fun _ _ h => (nomatch h), fun _ h => absurd h List.not_mem_nil⟩

variable (c hash) in
theorem mapped_sane (descriptors : List (Wire Units)) {s : Batch κ} (hs : Sane tree.toNativeDocument s) :
    Sane tree.toNativeDocument (mapAll c tree hash descriptors s).2 := by
  have h := mapAll_unseen c tree hash descriptors s
  refine ⟨h.children hs.children, ?_, ?_⟩
  · rw [h.visibilityByKey]
    exact hs.explained
  · rw [h.visibilityByKey, h.visiting]
    exact hs.visiting

/-- An answer of a whole batch comes from its two loops. -/
theorem resolveViewerNodes_ok {sourceNodes : Wire Units} {s s' : Batch κ} {entries : List ViewerNodeResolution}
    (h : resolveViewerNodes c tree hash sourceNodes s = (.ok entries, s')) (hs : Sane tree.toNativeDocument s) :
    ∀ entry ∈ entries, EntryReported tree.toNativeDocument s'.session s'.visibilityByKey entry := by
  obtain ⟨_, s₁, hadmitted, h⟩ := Stateful.bind_returns.mp h
  have hs₁ := (((requireViewerAdmission_still c tree.toNativeDocument).left hadmitted).goes hs).sane
  match sourceNodes with
  | .arr descriptors =>
    dsimp only at h
    split_ifs at h
    · cases h
    · obtain ⟨results, s₂, hmapped, h⟩ := Stateful.bind_returns.mp h
      have hs₂ := mapped_sane c hash descriptors hs₁
      rw [hmapped] at hs₂
      rw [Stateful.read_bind, Stateful.read_bind] at h
      obtain ⟨answer, s₃, hanswer, h⟩ := Stateful.bind_returns.mp h
      obtain ⟨_, s₄, hended, h⟩ := Stateful.bind_returns.mp h
      obtain ⟨rfl, rfl⟩ := Stateful.pure_eq_ok.mp h
      have hall := calibrateAll_reads c (s₂.visibilityRemaining.toNat + 1) s₂.session results hs₂
      rw [hanswer] at hall
      have hlast := (requireViewerAdmission_still c tree.toNativeDocument).left hended
      rw [hlast.session, hall.goes.session, hlast.visibilityByKey]
      exact hall.told entries rfl
  | .null => cases h
  | .bool _ => cases h
  | .int _ => cases h
  | .double _ => cases h
  | .str _ => cases h
  | .obj _ => cases h

/-- The second loop of a whole batch does not go on without an end. -/
theorem calibration_ends (descriptors : List (Wire Units)) {s : Batch κ} (hs : Sane tree.toNativeDocument s)
    {results : List Resolution} {t : Batch κ} (h : mapAll c tree hash descriptors s = (.ok results, t)) :
    (readEach (calibrate c tree.toNativeDocument (t.visibilityRemaining.toNat + 1) t.session) results t).1
      ≠ .error .hangs := by
  have hsane := mapped_sane c hash descriptors hs
  rw [h] at hsane
  refine (calibrateAll_reads _ _ t.session results hsane).ends (Nat.succ_pos _) ?_
  push_cast
  omega

end

/-- **What is reported to be visible.** The second loop ends, whatever fails and wherever the budgets end.
Visible and hidden are reported only of nodes below which everything has been read and is visible, or
hidden; mixed only where both occur. Answers of two batches for the same nodes are the same unless one of
them is unknown. -/
theorem visibility_reported (tree : NativeTree κ) (c : Conditions) (hash : Wire Units → Units)
    (session : Session κ) (remaining : ℕ) (visibilityRemaining : ℤ) (sourceNodes : Wire Units) :
    (∀ descriptors results s,
      mapAll c tree hash descriptors (startWith tree session remaining visibilityRemaining) = (.ok results, s) →
      (readEach (calibrate c tree.toNativeDocument (s.visibilityRemaining.toNat + 1) s.session) results s).1
        ≠ .error .hangs)
      ∧ ∀ entries s, resolveViewerNodes c tree hash sourceNodes
          (startWith tree session remaining visibilityRemaining) = (.ok entries, s) →
        ∀ entry ∈ entries, ∀ reference, entry.nodeRef = some reference →
          Reported tree.toNativeDocument s.visibilityByKey
              (s.session.nativeNodes tree.toNativeDocument reference) entry.observed
            ∧ ∀ c' hash' session' remaining' visibilityRemaining' sourceNodes' entries' s',
              resolveViewerNodes c' tree hash' sourceNodes'
                (startWith tree session' remaining' visibilityRemaining') = (.ok entries', s') →
              ∀ entry' ∈ entries', ∀ reference', entry'.nodeRef = some reference' →
                s'.session.nativeNodes tree.toNativeDocument reference'
                    = s.session.nativeNodes tree.toNativeDocument reference →
                entry.observed.state ≠ .unknown → entry'.observed.state ≠ .unknown →
                entry.observed = entry'.observed := by
  refine ⟨fun descriptors results s h => calibration_ends descriptors (startWith_sane _ _ _) h,
    fun entries s h entry hentry reference hreference => ?_⟩
  have hreported := resolveViewerNodes_ok h (startWith_sane _ _ _) entry hentry reference hreference
  refine ⟨hreported, ?_⟩
  intro c' hash' session' remaining' visibilityRemaining' sourceNodes' entries' s' h' entry' hentry' reference'
    hreference' hnodes hknown hknown'
  have hreported' := resolveViewerNodes_ok h' (startWith_sane _ _ _) entry' hentry' reference' hreference'
  rw [hnodes] at hreported'
  exact hreported.agree hreported' hknown hknown'

def shownAndHidden : NativeTree ℕ where
  root := 0
  nodeOfKey n := if n ≤ 2 then some n else none
  children n := if n = 0 then [1, 2] else []
  isVisible n := n != 2
  occurrenceId n := if n = 2 then literal "part" else literal "other"
  occurrenceIds _ := []
  cadId _ := literal "cad"
  height n := if n = 0 then 1 else 0
  lower a b hb := by
    split_ifs at hb with ha
    · have hne : b ≠ 0 := by
        rintro rfl
        simp at hb
      simp [ha, hne]
    · cases hb

def rootDescriptor : Wire Units :=
  .obj [(literal "source_node_id", .str (literal "root")), (literal "kind", .str (literal "document_root"))]

/-- The hidden part is cut off when the root is read alone; when it has been read before the root, the
unknown answer for the root becomes a definite one. -/
theorem unknown_becomes_mixed :
    (resolveViewerNodes (.calm false) shownAndHidden (fun _ => literal "hash") (.arr [rootDescriptor])
        (startWith shownAndHidden {} 511 2)).1
        = .ok [⟨literal "root", some (.viewer 0), .unread .viewerVisibilityBudgetExceeded⟩]
      ∧ (resolveViewerNodes (.calm false) shownAndHidden (fun _ => literal "hash")
          (.arr [partDescriptor "part", rootDescriptor]) (startWith shownAndHidden {} 511 2)).1
        = .ok [⟨literal "part", some (.viewer 0), .all false⟩,
          ⟨literal "root", some (.viewer 1), ⟨none, .mixed, none⟩⟩] := by
  decide +kernel

end Ai00.Connector.Viewer
