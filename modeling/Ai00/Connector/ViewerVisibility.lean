import Ai00.Connector.ViewerBatch

/-! # What is reported to be visible

`ReadVisibility` reads the flag of a native node and goes down to its children. What it reports for a
node is kept for the rest of the batch, an answer that a budget or a failed read has cut short as well.
The recursion takes one from `visibilityRemaining` at each new node, so it ends.
-/

namespace Ai00.Connector.Viewer

variable {κ : Type} [DecidableEq κ]

def Observed.unread (error : Code) : Observed := ⟨none, .unknown, some error⟩

def Observed.all (flag : Bool) : Observed := ⟨some flag, if flag then .visible else .hidden, none⟩

/-- `seenVisible |= …`. -/
def Observed.on (o : Observed) : Bool := o.state = .visible ∨ o.state = .mixed

/-- `seenHidden |= …`. -/
def Observed.off (o : Observed) : Bool := o.state = .hidden ∨ o.state = .mixed

/-- The result for a node from its own flag and what has been observed of its children. -/
def combine (visible : Bool) (observed : List Observed) : Observed :=
  let seenVisible := visible || observed.any Observed.on
  let seenHidden := !visible || observed.any Observed.off
  let unknown := observed.findSome? Observed.error
  if seenVisible && seenHidden then ⟨none, .mixed, none⟩
  else if unknown ≠ none then ⟨none, .unknown, unknown⟩
  else .all visible

def readEach {α β : Type} (read : α → Call κ β) : List α → Call κ (List β)
  | [] => pure []
  | first :: rest => do
    let observed ← read first
    let others ← readEach read rest
    pure (observed :: others)

/-- `visiting.Add(key)`. -/
def Batch.enter (key : κ) (s : Batch κ) : Batch κ := { s with visiting := key :: s.visiting }

/-- `visiting.Remove(key)`. -/
def Batch.leave (key : κ) (s : Batch κ) : Batch κ := { s with visiting := s.visiting.erase key }

/-- `visibilityByKey[key]=result`. -/
def Batch.keep (key : κ) (result : Observed) (s : Batch κ) : Batch κ :=
  { s with visibilityByKey := (key, result) :: s.visibilityByKey }

/-- `visibilityRemaining--`. -/
def Batch.spend (s : Batch κ) : Batch κ := { s with visibilityRemaining := s.visibilityRemaining - 1 }

def lookDown (c : Conditions) (document : NativeDocument κ) (read : κ → Call κ Observed) (node : κ) :
    Call κ Observed := do
  let visible ← native c (document.isVisible node)
  let below ← children c document node
  let observed ← readEach read below
  pure (combine visible observed)

/-- The `try` block. -/
def look (c : Conditions) (document : NativeDocument κ) (read : κ → Call κ Observed) (node : κ) :
    Call κ Observed := do
  let left ← Stateful.read Batch.visibilityRemaining
  Stateful.modify Batch.spend
  if left ≤ 0 then Stateful.raise (.noEffect .viewerMappingBudgetExceeded)
  else lookDown c document read node

/-- A `catch` block that reports what the read has failed for; a withdrawn admission passes. -/
def caught (report : Raised → Code) (x : Call κ Observed) : Call κ Observed := fun s =>
  match x s with
  | (.ok result, s') => (.ok result, s')
  | (.error e, s') =>
    if e = .hangs ∨ e = .noEffect .viewerAuthorizationRequired then (.error e, s')
    else (.ok (.unread (report e)), s')

def cutShort (e : Raised) : Code :=
  if e = .noEffect .viewerMappingBudgetExceeded then .viewerVisibilityBudgetExceeded
  else .viewerVisibilityReadFailed

/-- A node that is not in the memo and not being visited. -/
def visit (c : Conditions) (document : NativeDocument κ) (read : κ → Call κ Observed) (key : κ) :
    Call κ Observed := do
  Stateful.modify (Batch.enter key)
  let result ← Stateful.ensuring (caught cutShort (look c document read key)) (Batch.leave key)
  Stateful.modify (Batch.keep key result)
  pure result

def readVisibility (c : Conditions) (document : NativeDocument κ) : ℕ → κ → Call κ Observed
  | 0, _ => Stateful.raise .hangs
  | fuel + 1, node => do
    requireViewerAdmission c
    let key ← native c node
    match (← Stateful.read fun s => s.visibilityByKey.lookup key) with
    | some cached => pure cached
    | none => do
      let visiting ← Stateful.read Batch.visiting
      if key ∈ visiting then pure (.unread .viewerVisibilityCycle)
      else visit c document (readVisibility c document fuel) key

/-! ## What the memo says -/

/-- The node and everything below it. -/
def Below (document : NativeDocument κ) : κ → κ → Prop :=
  Relation.ReflTransGen fun a b => b ∈ document.children a

/-- Why an entry of the memo is as it is. -/
inductive Explained (document : NativeDocument κ) (memo : List (κ × Observed)) : κ → Observed → Prop where
  | all {k : κ} (flag : Bool) (own : document.isVisible k = flag)
      (below : ∀ d ∈ document.children k, memo.lookup d = some (.all flag)) :
      Explained document memo k (.all flag)
  | mixed {k a b : κ} (ha : Below document k a) (hon : document.isVisible a = true)
      (hb : Below document k b) (hoff : document.isVisible b = false) :
      Explained document memo k ⟨none, .mixed, none⟩
  | unread {k : κ} (e : Code) : Explained document memo k (.unread e)

structure Sane (document : NativeDocument κ) (s : Batch κ) : Prop where
  children : ∀ k known, s.childrenByKey.lookup k = some known → known = document.children k
  explained : ∀ k o, s.visibilityByKey.lookup k = some o → Explained document s.visibilityByKey k o
  visiting : ∀ k ∈ s.visiting, s.visibilityByKey.lookup k = none

/-- How a batch goes on. -/
structure Goes (document : NativeDocument κ) (s s' : Batch κ) : Prop where
  sane : Sane document s'
  kept : ∀ k o, s.visibilityByKey.lookup k = some o → s'.visibilityByKey.lookup k = some o
  visiting : s'.visiting = s.visiting
  fewer : s'.visibilityRemaining ≤ s.visibilityRemaining
  session : s'.session = s.session

/-- An answer comes from the memo, or a cycle has been met. -/
def Told (memo : List (κ × Observed)) (k : κ) (o : Observed) : Prop :=
  memo.lookup k = some o ∨ ∃ e, o = .unread e

/-- How a read of a batch ends; what it returns is `Q`. -/
structure Reads {α : Type} (document : NativeDocument κ) (fuel : ℕ) (Q : List (κ × Observed) → α → Prop)
    (s s' : Batch κ) (r : Except Raised α) : Prop where
  goes : Goes document s s'
  told : ∀ a, r = .ok a → Q s'.visibilityByKey a
  ends : 0 < fuel → s.visibilityRemaining < fuel → r ≠ .error .hangs

variable {c : Conditions} {document : NativeDocument κ}

theorem Goes.refl {s : Batch κ} (h : Sane document s) : Goes document s s :=
  ⟨h, fun _ _ hk => hk, rfl, le_refl _, rfl⟩

theorem Goes.trans {s s' s'' : Batch κ} (h : Goes document s s') (h' : Goes document s' s'') :
    Goes document s s'' :=
  ⟨h'.sane, fun k o hk => h'.kept k o (h.kept k o hk), h'.visiting.trans h.visiting, h'.fewer.trans h.fewer,
    h'.session.trans h.session⟩

theorem Still.goes {s s' : Batch κ} (h : Still document s s') (hs : Sane document s) :
    Goes document s s' := by
  have hmemo := h.visibilityByKey
  refine ⟨⟨h.children hs.children, ?_, ?_⟩, ?_, h.visiting, h.visibilityRemaining.le, h.session⟩
  · rw [hmemo]
    exact hs.explained
  · rw [hmemo, h.visiting]
    exact hs.visiting
  · rw [hmemo]
    exact fun _ _ hk => hk

variable {o : Observed} {k : κ}

theorem Told.kept {memo memo' : List (κ × Observed)}
    (hkept : ∀ k o, memo.lookup k = some o → memo'.lookup k = some o) (h : Told memo k o) :
    Told memo' k o := h.imp (hkept k o) id

theorem Explained.kept {memo memo' : List (κ × Observed)}
    (hkept : ∀ k o, memo.lookup k = some o → memo'.lookup k = some o) (h : Explained document memo k o) :
    Explained document memo' k o := by
  cases h with
  | all flag own below => exact .all flag own fun d hd => hkept d _ (below d hd)
  | mixed ha hon hb hoff => exact .mixed ha hon hb hoff
  | unread e => exact .unread e

theorem Reads.asked {α : Type} {fuel : ℕ} {x : Call κ α} {s : Batch κ} (hs : Sane document s)
    (hstill : Stateful.Leaves (Still document) x) (hends : Stateful.Avoids .hangs x) :
    Reads document fuel (fun _ _ => True) s (x s).2 (x s).1 :=
  ⟨(hstill s).goes hs, fun _ _ => trivial, fun _ _ => hends s⟩

theorem Reads.bind {α β : Type} {fuel : ℕ} {P : List (κ × Observed) → α → Prop}
    {Q : List (κ × Observed) → β → Prop} {x : Call κ α} {f : α → Call κ β} {s : Batch κ}
    (hx : Reads document fuel P s (x s).2 (x s).1)
    (hf : ∀ a s', x s = (.ok a, s') → Goes document s s' → P s'.visibilityByKey a →
      Reads document fuel Q s' (f a s').2 (f a s').1) :
    Reads document fuel Q s ((x >>= f) s).2 ((x >>= f) s).1 := by
  rcases Stateful.bind_cases x f s with ⟨a, t, heq, hrest⟩ | ⟨e, t, heq, hrest⟩
  · rw [heq] at hx
    obtain ⟨hgoes, htold, hends⟩ := hf a t heq hx.goes (hx.told a rfl)
    rw [hrest]
    exact ⟨hx.goes.trans hgoes, htold, fun hpos hlt => hends hpos (lt_of_le_of_lt hx.goes.fewer hlt)⟩
  · rw [heq] at hx
    rw [hrest]
    refine ⟨hx.goes, fun b hb => (nomatch hb), fun hpos hlt hhangs => ?_⟩
    cases hhangs
    exact hx.ends hpos hlt rfl

theorem Reads.pure {α : Type} {fuel : ℕ} {Q : List (κ × Observed) → α → Prop} {a : α} {s : Batch κ}
    (hs : Sane document s) (ha : Q s.visibilityByKey a) :
    Reads document fuel Q s ((Pure.pure a : Call κ α) s).2 ((Pure.pure a : Call κ α) s).1 := by
  refine ⟨Goes.refl hs, fun b hb => ?_, fun _ _ heq => nomatch heq⟩
  cases hb
  exact ha

theorem readEach_reads {α β : Type} {fuel : ℕ} {Q : List (κ × Observed) → α → β → Prop}
    (hkept : ∀ memo memo' : List (κ × Observed), (∀ k o, memo.lookup k = some o → memo'.lookup k = some o) →
      ∀ a o, Q memo a o → Q memo' a o)
    {read : α → Call κ β}
    (hread : ∀ a s, Sane document s → Reads document fuel (fun memo => Q memo a) s (read a s).2 (read a s).1)
    (as : List α) {s : Batch κ} (hs : Sane document s) :
    Reads document fuel (fun memo => List.Forall₂ (Q memo) as) s (readEach read as s).2
      (readEach read as s).1 := by
  induction as generalizing s with
  | nil => exact Reads.pure hs .nil
  | cons a as ih =>
    refine Reads.bind (hread a s hs) fun o s₁ _ hgoes ho => ?_
    refine Reads.bind (ih hgoes.sane) fun os s₂ _ hgoes' hos => ?_
    exact Reads.pure hgoes'.sane (.cons (hkept _ _ hgoes'.kept a o ho) hos)

/-! ## One node -/

@[simp] theorem Observed.on_all (flag : Bool) : (Observed.all flag).on = flag := by
  cases flag <;> rfl

@[simp] theorem Observed.off_all (flag : Bool) : (Observed.all flag).off = !flag := by
  cases flag <;> rfl

theorem Explained.on {memo : List (κ × Observed)} (h : Explained document memo k o)
    (hon : o.on = true) : ∃ d, Below document k d ∧ document.isVisible d = true := by
  cases h with
  | all flag own below =>
    rw [Observed.on_all] at hon
    exact ⟨k, .refl, own.trans hon⟩
  | mixed ha hvisible hb hhidden => exact ⟨_, ha, hvisible⟩
  | unread e => cases hon

theorem Explained.off {memo : List (κ × Observed)} (h : Explained document memo k o)
    (hoff : o.off = true) : ∃ d, Below document k d ∧ document.isVisible d = false := by
  cases h with
  | all flag own below =>
    rw [Observed.off_all, Bool.not_eq_true'] at hoff
    exact ⟨k, .refl, own.trans hoff⟩
  | mixed ha hvisible hb hhidden => exact ⟨_, hb, hhidden⟩
  | unread e => cases hoff

theorem below_of_told {memo : List (κ × Observed)} {observed : List Observed} {flag : Bool}
    {seen : Observed → Bool}
    (hseen : ∀ d o, Told memo d o → seen o = true → ∃ a, Below document d a ∧ document.isVisible a = flag)
    (htold : List.Forall₂ (Told memo) (document.children k) observed) (hany : observed.any seen = true) :
    ∃ a, Below document k a ∧ document.isVisible a = flag := by
  obtain ⟨o, ho, hon⟩ := List.any_eq_true.mp hany
  obtain ⟨d, hd, hchild⟩ := exists_of_forall₂ htold ho
  obtain ⟨a, hbelow, hflag⟩ := hseen d o hchild hon
  exact ⟨a, .head hd hbelow, hflag⟩

/-- **One node**: its result is explained by what the memo knows of its children. -/
theorem combine_explained {memo : List (κ × Observed)} {observed : List Observed}
    (hmemo : ∀ d o, memo.lookup d = some o → Explained document memo d o)
    (htold : List.Forall₂ (Told memo) (document.children k) observed) :
    Explained document memo k (combine (document.isVisible k) observed) := by
  have hexplained : ∀ d o, Told memo d o → Explained document memo d o := by
    rintro d o (hd | ⟨e, rfl⟩)
    · exact hmemo d o hd
    · exact .unread e
  simp only [combine]
  split_ifs with hmixed hunknown
  · rw [Bool.and_eq_true, Bool.or_eq_true, Bool.or_eq_true, Bool.not_eq_true'] at hmixed
    obtain ⟨hvisible, hhidden⟩ := hmixed
    have hon : ∃ a, Below document k a ∧ document.isVisible a = true := by
      rcases hvisible with hown | hany
      · exact ⟨k, .refl, hown⟩
      · exact below_of_told (fun d o ho hon => (hexplained d o ho).on hon) htold hany
    have hoff : ∃ a, Below document k a ∧ document.isVisible a = false := by
      rcases hhidden with hown | hany
      · exact ⟨k, .refl, hown⟩
      · exact below_of_told (fun d o ho hoff => (hexplained d o ho).off hoff) htold hany
    obtain ⟨a, ha, hon⟩ := hon
    obtain ⟨b, hb, hoff⟩ := hoff
    exact .mixed ha hon hb hoff
  · obtain ⟨e, he⟩ := Option.ne_none_iff_exists'.mp hunknown
    rw [he]
    exact .unread e
  · refine .all _ rfl fun d hd => ?_
    obtain ⟨o, ho, hchild⟩ := exists_of_forall₂ htold.flip hd
    have herror : o.error = none := List.findSome?_eq_none_iff.mp (not_not.mp hunknown) o ho
    have hon : o.on = true → document.isVisible k = true := by
      intro hon
      by_contra hown
      exact hmixed (by simp [hown, List.any_eq_true.mpr ⟨o, ho, hon⟩])
    have hoff : o.off = true → document.isVisible k = false := by
      intro hoff
      by_contra hown
      exact hmixed (by simp [hown, List.any_eq_true.mpr ⟨o, ho, hoff⟩])
    rcases hchild with hknown | ⟨e, rfl⟩
    · cases hmemo d o hknown with
      | all flag own below =>
        rw [hknown]
        cases flag with
        | true => rw [hon rfl]
        | false => rw [hoff rfl]
      | mixed ha hvisible hb hhidden => exact nomatch (hon rfl).symm.trans (hoff rfl)
      | unread e => cases herror
    · cases herror

section

variable {fuel : ℕ} {read : κ → Call κ Observed}
  (hread : ∀ a s, Sane document s → Reads document fuel (fun memo => Told memo a) s (read a s).2 (read a s).1)

include hread

variable (c) in
theorem lookDown_reads (node : κ) {s : Batch κ} (hs : Sane document s) :
    Reads document fuel (fun memo => Explained document memo node) s (lookDown c document read node s).2
      (lookDown c document read node s).1 := by
  refine Reads.bind (.asked hs (native_still c document (document.isVisible node))
    (native_avoids c _ (by simp))) fun visible s₁ hvisible hgoes₁ _ => ?_
  refine Reads.bind (.asked hgoes₁.sane (children_still node)
    (children_avoids c document node (by simp) (by simp) (by simp))) fun below s₂ hbelow hgoes₂ _ => ?_
  obtain rfl := children_ok hgoes₁.sane.children hbelow
  obtain rfl := native_ok hvisible
  refine Reads.bind (readEach_reads (Q := Told) (fun _ _ hkept _ _ => Told.kept hkept) hread _ hgoes₂.sane)
    fun observed s₃ _ hgoes₃ hobserved => ?_
  exact Reads.pure hgoes₃.sane (combine_explained hgoes₃.sane.explained hobserved)

variable (c) in
theorem look_reads (node : κ) {s : Batch κ} (hs : Sane document s) :
    Reads document (fuel + 1) (fun memo => Explained document memo node) s (look c document read node s).2
      (look c document read node s).1 := by
  have htaken : Sane document s.spend := ⟨hs.children, hs.explained, hs.visiting⟩
  have hgoes : Goes document s s.spend := ⟨htaken, fun _ _ hk => hk, rfl, by simp [Batch.spend], rfl⟩
  rw [look, Stateful.read_bind, Stateful.modify_bind]
  split_ifs with hleft
  · exact ⟨hgoes, fun a ha => (nomatch ha), fun _ _ heq => (nomatch heq)⟩
  · have hreads := lookDown_reads c hread node htaken
    refine ⟨hgoes.trans hreads.goes, hreads.told, fun _ hlt => hreads.ends ?_ ?_⟩
    · push_cast at hlt
      omega
    · push_cast at hlt
      show s.visibilityRemaining - 1 < fuel
      omega

end

theorem caught_reads {fuel : ℕ} (report : Raised → Code) {x : Call κ Observed}
    {Q : List (κ × Observed) → Observed → Prop} {s : Batch κ} (hx : Reads document fuel Q s (x s).2 (x s).1) :
    Reads document fuel (fun memo o => Q memo o ∨ ∃ e, o = .unread e) s (caught report x s).2
      (caught report x s).1 := by
  rcases h : x s with ⟨r, s'⟩
  rw [h] at hx
  cases r with
  | ok o =>
    simp only [caught, h]
    refine ⟨hx.goes, fun a ha => ?_, fun _ _ heq => (nomatch heq)⟩
    cases ha
    exact .inl (hx.told o rfl)
  | error e =>
    simp only [caught, h]
    split_ifs with hpasses
    · exact ⟨hx.goes, fun a ha => (nomatch ha), hx.ends⟩
    · refine ⟨hx.goes, fun a ha => ?_, fun _ _ heq => (nomatch heq)⟩
      cases ha
      exact .inr ⟨report e, rfl⟩

/-- A new node: it is visited, and its result is kept. -/
theorem visit_reads {fuel : ℕ} {read : κ → Call κ Observed}
    (hread : ∀ a s, Sane document s → Reads document fuel (fun memo => Told memo a) s (read a s).2 (read a s).1)
    {key : κ} {s : Batch κ} (hs : Sane document s) (hknown : s.visibilityByKey.lookup key = none)
    (hvisiting : key ∉ s.visiting) :
    Reads document (fuel + 1) (fun memo => Told memo key) s (visit c document read key s).2
      (visit c document read key s).1 := by
  have hpushed : Sane document (s.enter key) := by
    refine ⟨hs.children, hs.explained, fun k hk => ?_⟩
    rcases List.mem_cons.mp hk with rfl | hk
    · exact hknown
    · exact hs.visiting k hk
  have hlook := caught_reads cutShort (look_reads c hread key hpushed)
  rw [visit, Stateful.modify_bind]
  generalize caught cutShort (look c document read key) = x at hlook ⊢
  generalize hx : x (s.enter key) = ended at hlook
  obtain ⟨r, t⟩ := ended
  have hgoes : Goes document (s.enter key) t := hlook.goes
  have hin : t.visiting = key :: s.visiting := hgoes.visiting
  have hout : (t.leave key).visiting = s.visiting := by simp [Batch.leave, hin]
  have hensured : Stateful.ensuring x (Batch.leave key) (s.enter key) = (r, t.leave key) := by
    rw [Stateful.ensuring, hx]
  have hnone : ∀ k ∈ key :: s.visiting, t.visibilityByKey.lookup k = none := hin ▸ hgoes.sane.visiting
  cases r with
  | error e =>
    rw [Stateful.bind_error hensured]
    refine ⟨⟨⟨hgoes.sane.children, hgoes.sane.explained, fun k hk => ?_⟩, hgoes.kept, hout, hgoes.fewer,
      hgoes.session⟩,
      fun a ha => (nomatch ha), hlook.ends⟩
    exact hnone k (List.mem_cons_of_mem _ (hout ▸ hk))
  | ok o =>
    rw [Stateful.bind_ok hensured, Stateful.modify_bind, Stateful.pure_apply]
    have hother : ∀ k, k ≠ key →
        ((t.leave key).keep key o).visibilityByKey.lookup k = t.visibilityByKey.lookup k := by
      intro k hne
      simp [Batch.keep, Batch.leave, List.lookup_cons, beq_false_of_ne hne]
    have hself : ((t.leave key).keep key o).visibilityByKey.lookup key = some o := by
      simp [Batch.keep]
    have hkept : ∀ k o', t.visibilityByKey.lookup k = some o' →
        ((t.leave key).keep key o).visibilityByKey.lookup k = some o' := by
      intro k o' hk
      have hne : k ≠ key := by
        rintro rfl
        rw [hnone k List.mem_cons_self] at hk
        cases hk
      rw [hother k hne, hk]
    have hexplained : Explained document ((t.leave key).keep key o).visibilityByKey key o := by
      rcases hlook.told o rfl with h | ⟨e, rfl⟩
      · exact h.kept hkept
      · exact .unread e
    refine ⟨⟨⟨hgoes.sane.children, fun k o' hk => ?_, fun k hk => ?_⟩,
      fun k o' hk => hkept k o' (hgoes.kept k o' hk), hout, hgoes.fewer, hgoes.session⟩, fun a ha => ?_,
      fun _ _ heq => (nomatch heq)⟩
    · by_cases heq : k = key
      · subst heq
        rw [hself] at hk
        cases hk
        exact hexplained
      · rw [hother k heq] at hk
        exact (hgoes.sane.explained k o' hk).kept hkept
    · have hk : k ∈ s.visiting := hout ▸ hk
      rw [hother k (fun heq => hvisiting (heq ▸ hk))]
      exact hnone k (List.mem_cons_of_mem _ hk)
    · cases ha
      exact .inl hself

/-- **One node**, and what is kept of it. -/
theorem readVisibility_reads (c : Conditions) (fuel : ℕ) (node : κ) {s : Batch κ} (hs : Sane document s) :
    Reads document fuel (fun memo => Told memo node) s (readVisibility c document fuel node s).2
      (readVisibility c document fuel node s).1 := by
  induction fuel generalizing node s with
  | zero => exact ⟨Goes.refl hs, fun a ha => (nomatch ha), fun hpos => absurd hpos (lt_irrefl 0)⟩
  | succ fuel ih =>
    rw [readVisibility]
    refine Reads.bind (.asked hs (requireViewerAdmission_still c document)
      (requireViewerAdmission_avoids c (by simp))) fun _ s₁ _ hgoes₁ _ => ?_
    refine Reads.bind (.asked hgoes₁.sane (native_still c document node) (native_avoids c _ (by simp)))
      fun key s₂ hkey hgoes₂ _ => ?_
    obtain rfl := native_ok hkey
    have hs₂ := hgoes₂.sane
    rw [Stateful.read_bind]
    cases hknown : s₂.visibilityByKey.lookup key with
    | some cached => exact Reads.pure hs₂ (.inl hknown)
    | none =>
      dsimp only
      rw [Stateful.read_bind]
      split_ifs with hvisiting
      · exact Reads.pure hs₂ (.inr ⟨_, rfl⟩)
      · exact visit_reads (fun a s hs => ih a hs) hs₂ hknown hvisiting

end Ai00.Connector.Viewer
