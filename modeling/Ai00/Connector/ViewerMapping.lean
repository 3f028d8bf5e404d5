import Ai00.Connector.CanonicalAgreement
import Ai00.Connector.ViewerSearch

/-! # Mapping a batch of viewer nodes

The first loop of `ResolveViewerNodesAsync` maps each descriptor of a batch to a native node and
registers it. Children, occurrences and walked prefixes of paths are kept for the rest of the batch.

With the memos a search takes the same steps as the plain one (`Agrees`): it returns the same node or
raises the same error, unless the budget is too small for the nodes whose children either of them asks
for.
-/

namespace Ai00.Connector.Viewer

variable {κ : Type} [DecidableEq κ]

/-! ## Paths -/

def asks (c : Conditions) (document : NativeDocument κ) : Asks (Stateful (Batch κ) Raised) κ where
  children := children c document
  primaryOccurrence := primaryOccurrence c document
  occurrences := occurrences c document
  refuse code := Stateful.raise (.noEffect code)
  hangs := Stateful.raise .hangs

/-- `path[index].Length + ":" + path[index]`. -/
def elementCode (element : Units) : Units :=
  units (Json.intText element.length) ++ units [':'] ++ element

/-- `prefixes[prefix] = current`. -/
def Batch.addPrefix (walked : Units) (found : κ) (s : Batch κ) : Batch κ :=
  { s with prefixes := (walked, found) :: s.prefixes }

/-- The loop over the elements of a path, with the prefix that has been walked. -/
def resolveFrom (c : Conditions) (tree : NativeTree κ) : List Units → Units → κ → Call κ κ
  | [], _, current => pure current
  | element :: rest, walked, current => do
    mappingAdmission c
    match (← Stateful.read fun s => s.prefixes.lookup (walked ++ elementCode element)) with
    | some known => resolveFrom c tree rest (walked ++ elementCode element) known
    | none => do
      let found ← matchBelow (asks c tree.toNativeDocument) (tree.height current) element current
      Stateful.modify (Batch.addPrefix (walked ++ elementCode element) found)
      resolveFrom c tree rest (walked ++ elementCode element) found

def resolvePath (c : Conditions) (tree : NativeTree κ) (path : List Units) : Call κ κ := do
  let rest ← belowRoot (asks c tree.toNativeDocument) tree.root path
  resolveFrom c tree rest [] tree.root

/-! ## Descriptors -/

def viewerDescriptorText (value : Wire Units) (field : String) (maximum : ℕ) (error : Code) :
    Except Code Units :=
  match getProperty field value with
  | .ok (.str text) =>
    if isNullOrWhiteSpace (some text) ∨ maximum < text.length then .error error else .ok text
  | _ => .error error

/-- The names of the properties, in their order. -/
def fieldNames : Wire Units → List Units
  | .obj members => members.map Prod.fst
  | _ => []

def occurrenceUid (edge : Wire Units) : Except Code Units := do
  let uid ← viewerDescriptorText edge "occurrence_uid" 128 .viewerOccurrencePathInvalid
  let _ ← viewerDescriptorText edge "item_revision_uid" 128 .viewerOccurrencePathInvalid
  require ((fieldNames edge).length = 2) .viewerOccurrencePathInvalid
  pure uid

def occurrencePath (descriptor : Wire Units) : Except Code (List Units) :=
  match getProperty "occurrence_path" descriptor with
  | .ok (.arr edges) =>
    if edges.length < 1 ∨ 128 < edges.length then .error .viewerOccurrencePathInvalid
    else edges.mapM occurrenceUid
  | _ => .error .viewerOccurrencePathInvalid

def literal (text : String) : Units := units text.toList

/-- The kind of a descriptor, and its path. -/
def parseDescriptor (descriptor : Wire Units) : Except Code (Units × List Units) := do
  let fields := fieldNames descriptor
  require fields.Nodup .viewerNodeInvalid
  require (∀ field ∈ fields, field = literal "source_node_id" ∨ field = literal "kind" ∨ field = literal "occurrence_path")
    .viewerNodeInvalid
  let kind ← viewerDescriptorText descriptor "kind" 32 .viewerNodeInvalid
  if kind = literal "occurrence_path" then do
    let path ← occurrencePath descriptor
    pure (kind, path)
  else do
    require (¬ ((kind = literal "single_part_root" ∨ kind = literal "document_root") ∧ fields.length ≠ 2))
      .viewerNodeInvalid
    pure (kind, [])

/-! ## One node of a batch -/

/-- `single_part_root`: the only part, or the root of a document without parts. -/
def singlePart {m : Type → Type} [Monad m] (ask : Asks m κ) (root : κ) : m κ := do
  match (← ask.children root) with
  | [] => pure root
  | [part] => do
    let nested ← ask.children part
    if nested.isEmpty then pure part else ask.refuse .viewerSinglePartRequired
  | _ => ask.refuse .viewerSinglePartRequired

def locate (c : Conditions) (tree : NativeTree κ) (kind : Units) (path : List Units) : Call κ κ :=
  if kind = literal "document_root" then pure tree.root
  else if kind = literal "single_part_root" then singlePart (asks c tree.toNativeDocument) tree.root
  else if kind = literal "occurrence_path" then resolvePath c tree path
  else Stateful.raise (.noEffect .viewerNodeKindInvalid)

def Conditions.capacity (c : Conditions) : ℕ := if c.managed then 65536 else 4096

/-- A reference that has been registered for a source node and is still in use. -/
def Session.previous (session : Session κ) (source locator : Units) : Option Reference :=
  match session.viewerNodes.find? (fun p => p.2.sourceNode = source ∧ p.2.locator = locator) with
  | some (reference, _) =>
    if reference ∈ session.sessionNodeKeys.map Prod.fst then some reference else none
  | none => none

def Session.register (session : Session κ) (node : ViewerNode) (key : κ) : Session κ :=
  { session with
    viewerNodes := session.viewerNodes ++ [(.viewer session.guids, node)]
    sessionNodeKeys := session.sessionNodeKeys ++ [(.viewer session.guids, key)]
    guids := session.guids + 1 }

def Batch.setSession (session : Session κ) (s : Batch κ) : Batch κ := { s with session := session }

def register (c : Conditions) (document : NativeDocument κ) (source locator kind : Units) (node : κ) :
    Call κ Reference := do
  mappingAdmission c
  let cadId ← native c (document.cadId node)
  if isNullOrWhiteSpace (some cadId) then Stateful.raise (.noEffect .viewerInstanceIdentityUnavailable)
  else do
    let session ← Stateful.read Batch.session
    if c.capacity ≤ session.viewerNodes.length ∨ c.capacity ≤ session.sessionNodeKeys.length then
      Stateful.raise (.noEffect .viewerMappingCapacity)
    else do
      let key ← native c node
      Stateful.modify (Batch.setSession (session.register ⟨source, locator, cadId, kind⟩ key))
      pure (.viewer session.guids)

/-- An entry of the results. -/
inductive Resolution where
  | mapped (source : Units) (reference : Reference)
  | unmapped (source : Units) (error : Code)
  deriving DecidableEq

def Resolution.error : Resolution → Option Code
  | .mapped _ _ => none
  | .unmapped _ error => some error

/-- The `catch` block of a descriptor; a withdrawn admission and other exceptions pass. -/
def unmappedBy (source : Units) (x : Call κ Resolution) : Call κ Resolution := fun s =>
  match x s with
  | (.error (.noEffect code), s') =>
    if code = .viewerAuthorizationRequired then (.error (.noEffect code), s')
    else (.ok (.unmapped source code), s')
  | ended => ended

section

variable (c : Conditions) (tree : NativeTree κ) (hash : Wire Units → Units)

def mapSource (source : Units) (descriptor : Wire Units) : Call κ Resolution :=
  match parseDescriptor descriptor with
  | .error code => Stateful.raise (.noEffect code)
  | .ok (kind, path) => do
    let session ← Stateful.read Batch.session
    match session.previous source (hash descriptor) with
    | some reference => pure (.mapped source reference)
    | none => do
      let node ← locate c tree kind path
      let reference ← register c tree.toNativeDocument source (hash descriptor) kind node
      pure (.mapped source reference)

def mapNode (descriptor : Wire Units) : Call κ Resolution := do
  mappingAdmission c
  match viewerDescriptorText descriptor "source_node_id" 256 .viewerNodeInvalid with
  | .error code => pure (.unmapped [] code)
  | .ok source => unmappedBy source (mapSource c tree hash source descriptor)

/-- The first loop, over the descriptors of a batch. -/
def mapAll : List (Wire Units) → Call κ (List Resolution)
  | [] => pure []
  | descriptor :: rest => do
    let result ← mapNode c tree hash descriptor
    let others ← mapAll rest
    pure (result :: others)

def startWith (session : Session κ) (remaining : ℕ) (visibilityRemaining : ℤ) : Batch κ where
  session := session
  prefixes := [([], tree.root)]
  remaining := remaining
  visibilityRemaining := visibilityRemaining

def start (session : Session κ) : Batch κ := startWith tree session (if c.managed then 32768 else 511) 512

end

/-! ## The search in a batch -/

/-- Nothing fails, and the clock does not run out. -/
def Conditions.calm (managed : Bool) : Conditions where
  managed := managed
  admitted _ := true
  expired _ := false
  answered _ := true

def Batch.later (n : ℕ) (s : Batch κ) : Batch κ := { s with tick := s.tick + n }

/-- The nodes whose children have been read. -/
def Batch.asked (s : Batch κ) : Finset κ := (s.childrenByKey.map Prod.fst).toFinset

/-- What is taken from the budget for the children of some nodes. -/
def NativeDocument.cost (document : NativeDocument κ) (nodes : Finset κ) : ℕ :=
  ∑ node ∈ nodes, (document.children node).length

/-- What is kept is what the document answers, and the budget has been taken from for it. -/
structure Remembers (document : NativeDocument κ) (budget : ℕ) (s : Batch κ) : Prop where
  children : ∀ k known, s.childrenByKey.lookup k = some known → known = document.children k
  nodup : (s.childrenByKey.map Prod.fst).Nodup
  spent : s.remaining + document.cost s.asked = budget
  primary : ∀ k known, s.primaryOccurrenceByKey.lookup k = some known → known = document.occurrenceId k
  occurrences : ∀ k known, s.occurrencesByKey.lookup k = some known → known = document.occurrenceIds k

/-- How a call ends that takes the steps of a plain one and keeps `I`. -/
structure Follows {α : Type} (document : NativeDocument κ) (budget : ℕ) (I : Batch κ → Prop) (s : Batch κ)
    (r : Except Raised α × Batch κ) (y : Traced κ α) : Prop where
  kept : I r.2
  session : r.2.session = s.session
  grown : s.asked ⊆ r.2.asked
  within : r.2.asked ⊆ s.asked ∪ y.asked.toFinset
  ends : r.1 = y.result ∧ y.asked.toFinset ⊆ r.2.asked
    ∨ r.1 = .error (.noEffect .viewerMappingBudgetExceeded)
      ∧ budget < document.cost (s.asked ∪ y.asked.toFinset)

/-- A call that the prefixes have no part in. -/
def Agrees {α : Type} (document : NativeDocument κ) (budget : ℕ) (x : Call κ α) (y : Traced κ α) : Prop :=
  ∀ s, Remembers document budget s →
    Follows document budget (fun t => Remembers document budget t ∧ t.prefixes = s.prefixes) s (x s) y

variable {document : NativeDocument κ} {budget : ℕ} {managed : Bool}

variable (document) in
omit [DecidableEq κ] in
theorem cost_mono {nodes nodes' : Finset κ} (h : nodes ⊆ nodes') :
    document.cost nodes ≤ document.cost nodes' :=
  Finset.sum_le_sum_of_subset h

section

variable {α β : Type}

variable {I : Batch κ → Prop} {y : Traced κ α}

/-- A state that the call may as well start from. -/
theorem Follows.from {s s' : Batch κ} {r : Except Raised α × Batch κ}
    (h : Follows document budget I s' r y) (hsession : s'.session = s.session) (hasked : s'.asked = s.asked) :
    Follows document budget I s r y := by
  obtain ⟨hkept, hsame, hgrown, hwithin, hends⟩ := h
  rw [hasked] at hgrown hwithin hends
  exact ⟨hkept, hsame.trans hsession, hgrown, hwithin, hends⟩

theorem Follows.pure {s : Batch κ} (hs : I s) (a : α) :
    Follows document budget I s ((Pure.pure a : Call κ α) s) (Pure.pure a) :=
  ⟨hs, rfl, subset_rfl, Finset.subset_union_left, .inl ⟨rfl, by simp⟩⟩

theorem Follows.raise {s : Batch κ} (hs : I s) (e : Raised) :
    Follows document budget I s ((Stateful.raise e : Call κ α) s) ⟨.error e, []⟩ :=
  ⟨hs, rfl, subset_rfl, Finset.subset_union_left, .inl ⟨rfl, by simp⟩⟩

/-- **A sequence** follows the plain sequence. -/
theorem Follows.bind {I J : Batch κ → Prop} {s : Batch κ} {x : Call κ α} {f : α → Call κ β}
    {g : α → Traced κ β} (hx : Follows document budget I s (x s) y) (hIJ : ∀ t, I t → J t)
    (hf : ∀ a t, x s = (.ok a, t) → I t → y.result = .ok a → s.asked ∪ y.asked.toFinset ⊆ t.asked →
      Follows document budget J t (f a t) (g a)) :
    Follows document budget J s ((x >>= f) s) (y >>= g) := by
  rcases Stateful.bind_cases x f s with ⟨a, t, heq, hrest⟩ | ⟨e, t, heq, hrest⟩
  · rw [heq] at hx
    obtain ⟨hresult, hasked⟩ | ⟨hbudget, -⟩ := hx.ends
    · have hsecond := hf a t heq hx.kept hresult.symm (Finset.union_subset hx.grown hasked)
      have hunion : t.asked ∪ (g a).asked.toFinset ⊆ s.asked ∪ (y.asked ++ (g a).asked).toFinset := by
        rw [List.toFinset_append, ← Finset.union_assoc]
        exact Finset.union_subset_union_left hx.within
      rw [hrest, Traced.bind_ok hresult.symm]
      refine ⟨hsecond.kept, hsecond.session.trans hx.session, hx.grown.trans hsecond.grown,
        hsecond.within.trans hunion, ?_⟩
      rcases hsecond.ends with ⟨hresult', hasked'⟩ | ⟨hbudget, hcost⟩
      · refine .inl ⟨hresult', ?_⟩
        rw [List.toFinset_append]
        exact Finset.union_subset (hasked.trans hsecond.grown) hasked'
      · exact .inr ⟨hbudget, lt_of_lt_of_le hcost (cost_mono document hunion)⟩
    · cases hbudget
  · rw [heq] at hx
    have hended : ∀ {u : Finset κ}, u ⊆ s.asked ∪ y.asked.toFinset → u ⊆ s.asked ∪ (y >>= g).asked.toFinset := by
      intro u hu
      refine hu.trans (Finset.union_subset_union_right ?_)
      cases hresult : y.result with
      | ok a =>
        rw [Traced.bind_ok hresult, List.toFinset_append]
        exact Finset.subset_union_left
      | error e' =>
        rw [Traced.bind_error hresult]
    rw [hrest]
    refine ⟨hIJ t hx.kept, hx.session, hx.grown, hended hx.within, ?_⟩
    rcases hx.ends with ⟨hresult, hasked⟩ | ⟨hbudget, hcost⟩
    · refine .inl ?_
      rw [Traced.bind_error hresult.symm]
      exact ⟨rfl, hasked⟩
    · cases hbudget
      exact .inr ⟨rfl, lt_of_lt_of_le hcost (cost_mono document (hended subset_rfl))⟩

theorem Agrees.pure (a : α) : Agrees document budget (Pure.pure a) (Pure.pure a) :=
  fun _ hs => Follows.pure ⟨hs, rfl⟩ a

theorem Agrees.raise (e : Raised) : Agrees document budget (Stateful.raise e : Call κ α) ⟨.error e, []⟩ :=
  fun _ hs => Follows.raise ⟨hs, rfl⟩ e

theorem Agrees.bind {x : Call κ α} {f : α → Call κ β} {g : α → Traced κ β}
    (hx : Agrees document budget x y) (hf : ∀ a, y.result = .ok a → Agrees document budget (f a) (g a)) :
    Agrees document budget (x >>= f) (y >>= g) := by
  intro s hs
  refine Follows.bind (hx s hs) (fun _ => id) fun a t _ ht hresult _ => ?_
  have hrest := hf a hresult t ht.1
  rw [ht.2] at hrest
  exact hrest

theorem Agrees.foldlM {f : α → β → Call κ α} {g : α → β → Traced κ α}
    (h : ∀ a b, Agrees document budget (f a b) (g a b)) (bs : List β) (a : α) :
    Agrees document budget (bs.foldlM f a) (bs.foldlM g a) := by
  induction bs generalizing a with
  | nil => exact Agrees.pure a
  | cons b bs ih => exact Agrees.bind (h a b) fun a' _ => ih a'

end

/-! ## What the search asks -/

variable {s : Batch κ}

theorem Remembers.later (hs : Remembers document budget s) (n : ℕ) : Remembers document budget (s.later n) :=
  ⟨hs.children, hs.nodup, hs.spent, hs.primary, hs.occurrences⟩

variable {element : Units}

/-- The key of a walked prefix. -/
def pathCode (path : List Units) : Units := path.flatMap elementCode

variable {tree : NativeTree κ}

/-- Every prefix that is kept has been walked plainly. -/
structure Walked (tree : NativeTree κ) (budget : ℕ) (s : Batch κ) : Prop where
  remembers : Remembers tree.toNativeDocument budget s
  prefixes : ∀ walked node, s.prefixes.lookup walked = some node → ∃ path, pathCode path = walked
    ∧ (walk tree path tree.root).result = .ok node ∧ (walk tree path tree.root).asked.toFinset ⊆ s.asked

theorem Walked.kept {s s' : Batch κ} (hs : Walked tree budget s)
    (hremembers : Remembers tree.toNativeDocument budget s') (hprefixes : s'.prefixes = s.prefixes)
    (hgrown : s.asked ⊆ s'.asked) : Walked tree budget s' := by
  refine ⟨hremembers, fun walked node hlookup => ?_⟩
  rw [hprefixes] at hlookup
  obtain ⟨path, hcode, hresult, hasked⟩ := hs.prefixes walked node hlookup
  exact ⟨path, hcode, hresult, hasked.trans hgrown⟩

/-- A call that the prefixes have no part in keeps them. -/
theorem Agrees.walked {α : Type} {x : Call κ α} {y : Traced κ α}
    (h : Agrees tree.toNativeDocument budget x y) (hs : Walked tree budget s) :
    Follows tree.toNativeDocument budget (Walked tree budget) s (x s) y := by
  have hfollows := h s hs.remembers
  exact ⟨hs.kept hfollows.kept.1 hfollows.kept.2 hfollows.grown, hfollows.session, hfollows.grown,
    hfollows.within, hfollows.ends⟩

/-- Two calls that end alike, from states with one session. -/
structure Alike {α : Type} (tree : NativeTree κ) (budget : ℕ) (r r' : Except Raised α × Batch κ) : Prop where
  result : r'.1 = r.1
  session : r'.2.session = r.2.session
  walked : Walked tree budget r.2
  walked' : Walked tree budget r'.2
  ends : ∀ e, r.1 = .error e → ∃ code, e = .noEffect code ∧ code ≠ .viewerAuthorizationRequired

theorem Alike.raise {α : Type} {code : Code} (h : code ≠ .viewerAuthorizationRequired) {s f : Batch κ}
    (hsession : f.session = s.session) (hs : Walked tree budget s) (hf : Walked tree budget f) :
    Alike tree budget ((Stateful.raise (.noEffect code) : Call κ α) s) (Stateful.raise (.noEffect code) f) := by
  refine ⟨rfl, hsession, hs, hf, fun e he => ?_⟩
  cases he
  exact ⟨code, rfl, h⟩

theorem Alike.pure {α : Type} (a : α) {s f : Batch κ} (hsession : f.session = s.session)
    (hs : Walked tree budget s) (hf : Walked tree budget f) :
    Alike tree budget ((Pure.pure a : Call κ α) s) ((Pure.pure a : Call κ α) f) :=
  ⟨rfl, hsession, hs, hf, fun _ h => nomatch h⟩

theorem Alike.map {α β : Type} {x : Call κ α} {s f : Batch κ} (h : Alike tree budget (x s) (x f)) (g : α → β) :
    Alike tree budget ((x >>= fun a => Pure.pure (g a)) s) ((x >>= fun a => Pure.pure (g a)) f) := by
  rcases hs : x s with ⟨r, t⟩
  rcases hf : x f with ⟨r', t'⟩
  rw [hs, hf] at h
  obtain ⟨hresult, hsession, hwalked, hwalked', hends⟩ := h
  obtain rfl : r' = r := hresult
  cases r' with
  | error e =>
    rw [Stateful.bind_error hs, Stateful.bind_error hf]
    refine ⟨rfl, hsession, hwalked, hwalked', fun e' he => ?_⟩
    cases he
    exact hends e rfl
  | ok a =>
    rw [Stateful.bind_ok hs, Stateful.bind_ok hf]
    exact .pure (g a) hsession hwalked hwalked'

theorem Walked.later (hs : Walked tree budget s) (n : ℕ) : Walked tree budget (s.later n) :=
  hs.kept (hs.remembers.later n) rfl subset_rfl

/-- Parsing does not raise what would end the whole batch. -/
def Spares {α : Type} (x : Except Code α) : Prop := x ≠ .error .viewerAuthorizationRequired

theorem Spares.bind {α β : Type} {x : Except Code α} {f : α → Except Code β} (hx : Spares x)
    (hf : ∀ a, Spares (f a)) : Spares (x >>= f) := by
  cases x with
  | error code => exact fun h => hx (congrArg Except.error (Except.error.inj h))
  | ok a => exact hf a

theorem Spares.require {p : Prop} [Decidable p] {code : Code} (h : code ≠ .viewerAuthorizationRequired) :
    Spares (require p code) := by
  unfold Ai00.require
  split_ifs
  · exact fun h => nomatch h
  · exact fun heq => h (Except.error.inj heq)

theorem Spares.text (value : Wire Units) (field : String) (maximum : ℕ) {code : Code}
    (h : code ≠ .viewerAuthorizationRequired) : Spares (viewerDescriptorText value field maximum code) := by
  unfold viewerDescriptorText
  split
  · split_ifs
    · exact fun heq => h (Except.error.inj heq)
    · exact fun h => nomatch h
  · exact fun heq => h (Except.error.inj heq)

theorem Spares.mapM {α β : Type} {f : α → Except Code β} (h : ∀ a, Spares (f a)) (as : List α) :
    Spares (as.mapM f) := by
  induction as with
  | nil => exact fun h => nomatch h
  | cons a as ih =>
    rw [List.mapM_cons]
    exact Spares.bind (h a) fun b => Spares.bind ih fun bs => fun h => nomatch h

/-- A path that leads from one node to another, with one match for each element. -/
inductive Leads (document : NativeDocument κ) : List Units → κ → κ → Prop where
  | here (node : κ) : Leads document [] node node
  | step {element : Units} {rest : List Units} {current next node : κ}
      (found : document.FoundAt element (document.children current) next)
      (leads : Leads document rest next node) : Leads document (element :: rest) current node

def partDescriptor (source : String) : Wire Units :=
  .obj [(literal "source_node_id", .str (literal source)), (literal "kind", .str (literal "occurrence_path")),
    (literal "occurrence_path", .arr [.obj [(literal "occurrence_uid", .str (literal "part")),
      (literal "item_revision_uid", .str (literal "revision"))]])]

end Ai00.Connector.Viewer
