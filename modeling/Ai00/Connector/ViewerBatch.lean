import Ai00.Basic.Checks
import Ai00.Basic.Stateful
import Ai00.Basic.Utf16

/-! # A batch of viewer nodes over the native node tree

`ResolveViewerNodesAsync` reads the tree of the active document, node by node, while it maps a batch of
descriptors and then calibrates what is visible. A native node is known by its key. What has been read
is kept for the rest of the batch, and the children that are read are taken from a budget that the
whole batch shares.

Any question to the document may fail, the admission of the viewer may be withdrawn at any time, and
the clock of a managed package may run out: `Conditions` says which of it happens at which question.
-/

namespace Ai00.Connector.Viewer

variable {κ : Type} [DecidableEq κ]

/-- What the active document answers for each native node. -/
structure NativeDocument (κ : Type) where
  root : κ
  nodeOfKey : κ → Option κ
  children : κ → List κ
  isVisible : κ → Bool
  occurrenceId : κ → Units
  occurrenceIds : κ → List Units
  cadId : κ → Units

/-- Whether the document is a managed package, and what happens at each question, in the order in which
they are asked. -/
structure Conditions where
  managed : Bool
  admitted : ℕ → Bool
  expired : ℕ → Bool
  answered : ℕ → Bool

inductive Code where
  | viewerAuthorizationRequired
  | viewerMappingBudgetExceeded
  | viewerMappingCapacity
  | viewerMappingExpired
  | viewerNodesInvalid
  | viewerNodeInvalid
  | viewerNodeKindInvalid
  | viewerOccurrencePathInvalid
  | viewerSinglePartRequired
  | viewerInstanceIdentityUnavailable
  | onlineOccurrenceAmbiguous
  | onlineOccurrenceUnmapped
  | viewerVisibilityCycle
  | viewerVisibilityBudgetExceeded
  | viewerVisibilityReadFailed
  deriving DecidableEq

/-- A `ConnectorNoEffectException`, any other exception, and a recursion without an end. -/
inductive Raised where
  | noEffect (code : Code)
  | other
  | hangs
  deriving DecidableEq

inductive VisibilityState where
  | visible
  | hidden
  | mixed
  | unknown
  deriving DecidableEq

/-- What `ReadVisibility` returns. -/
structure Observed where
  visible : Option Bool
  state : VisibilityState
  error : Option Code
  deriving DecidableEq

/-- The key of a registered node: `"viewer:"` and a new GUID, which stands for a number here, or a key
that the session has for something else. -/
inductive Reference where
  | viewer (guid : ℕ)
  | other (key : Units)
  deriving DecidableEq

/-- An entry of `_viewerNodes`. -/
structure ViewerNode where
  sourceNode : Units
  locator : Units
  cadId : Units
  kind : Units

/-- What the adapter keeps from one batch to the next. -/
structure Session (κ : Type) where
  viewerNodes : List (Reference × ViewerNode) := []
  sessionNodeKeys : List (Reference × κ) := []
  viewerGeometry : List (Reference × List (κ × Units)) := []
  guids : ℕ := 0

/-- The session, and the variables that the closures of a batch share. -/
structure Batch (κ : Type) where
  session : Session κ
  tick : ℕ := 0
  childrenByKey : List (κ × List κ) := []
  primaryOccurrenceByKey : List (κ × Units) := []
  occurrencesByKey : List (κ × List Units) := []
  prefixes : List (Units × κ)
  remaining : ℕ
  visibilityByKey : List (κ × Observed) := []
  visiting : List κ := []
  visibilityRemaining : ℤ

abbrev Call (κ α : Type) : Type := Stateful (Batch κ) Raised α

/-! ## Questions -/

def ask : Call κ ℕ := fun s => (.ok s.tick, { s with tick := s.tick + 1 })

def requireViewerAdmission (c : Conditions) : Call κ Unit := do
  let t ← ask
  if c.admitted t then pure () else Stateful.raise (.noEffect .viewerAuthorizationRequired)

def mappingAdmission (c : Conditions) : Call κ Unit := do
  requireViewerAdmission c
  let t ← ask
  if c.managed && c.expired t then Stateful.raise (.noEffect .viewerMappingBudgetExceeded) else pure ()

def native {α : Type} (c : Conditions) (value : α) : Call κ α := do
  let t ← ask
  if c.answered t then pure value else Stateful.raise .other

/-- What is kept of the children that have been read. -/
def Batch.addChildren (node : κ) (children : List κ) (s : Batch κ) : Batch κ :=
  { s with remaining := s.remaining - children.length, childrenByKey := (node, children) :: s.childrenByKey }

/-- `GetChildren(remaining)`, and what is taken from the budget for it. -/
def getChildren (c : Conditions) (document : NativeDocument κ) (node : κ) : Call κ (List κ) := do
  let count ← native c (document.children node).length
  let remaining ← Stateful.read Batch.remaining
  if remaining < count then Stateful.raise (.noEffect .viewerMappingBudgetExceeded)
  else do
    let children ← native c (document.children node)
    Stateful.modify (Batch.addChildren node children)
    pure children

/-- What is known of children, or what is read. -/
def childrenOf (c : Conditions) (document : NativeDocument κ) (key : κ) : Call κ (List κ) := do
  match (← Stateful.read fun s => s.childrenByKey.lookup key) with
  | some known => pure known
  | none => do
    mappingAdmission c
    getChildren c document key

def children (c : Conditions) (document : NativeDocument κ) (node : κ) : Call κ (List κ) := do
  mappingAdmission c
  let key ← native c node
  childrenOf c document key

def primaryOccurrence (c : Conditions) (document : NativeDocument κ) (node : κ) : Call κ Units := do
  mappingAdmission c
  let key ← native c node
  match (← Stateful.read fun s => s.primaryOccurrenceByKey.lookup key) with
  | some known => pure known
  | none => do
    mappingAdmission c
    let primary ← native c (document.occurrenceId key)
    Stateful.modify fun s => { s with
      primaryOccurrenceByKey := (key, primary) :: s.primaryOccurrenceByKey }
    pure primary

def occurrences (c : Conditions) (document : NativeDocument κ) (node : κ) : Call κ (List Units) := do
  mappingAdmission c
  let key ← native c node
  match (← Stateful.read fun s => s.occurrencesByKey.lookup key) with
  | some known => pure known
  | none => do
    mappingAdmission c
    let aliases ← native c (document.occurrenceIds key)
    Stateful.modify fun s => { s with occurrencesByKey := (key, aliases) :: s.occurrencesByKey }
    pure aliases

/-! ## What they leave -/

/-- Only what is known of children has grown, and it is right if it was. -/
structure Still (document : NativeDocument κ) (s s' : Batch κ) : Prop where
  session : s'.session = s.session
  primaryOccurrenceByKey : s'.primaryOccurrenceByKey = s.primaryOccurrenceByKey
  occurrencesByKey : s'.occurrencesByKey = s.occurrencesByKey
  prefixes : s'.prefixes = s.prefixes
  visibilityByKey : s'.visibilityByKey = s.visibilityByKey
  visiting : s'.visiting = s.visiting
  visibilityRemaining : s'.visibilityRemaining = s.visibilityRemaining
  children : (∀ k known, s.childrenByKey.lookup k = some known → known = document.children k) →
    ∀ k known, s'.childrenByKey.lookup k = some known → known = document.children k

theorem Still.refl (document : NativeDocument κ) (s : Batch κ) : Still document s s :=
  ⟨rfl, rfl, rfl, rfl, rfl, rfl, rfl, id⟩

theorem Still.trans {document : NativeDocument κ} (s s' s'' : Batch κ) (h : Still document s s')
    (h' : Still document s' s'') : Still document s s'' where
  session := h'.session.trans h.session
  primaryOccurrenceByKey := h'.primaryOccurrenceByKey.trans h.primaryOccurrenceByKey
  occurrencesByKey := h'.occurrencesByKey.trans h.occurrencesByKey
  prefixes := h'.prefixes.trans h.prefixes
  visibilityByKey := h'.visibilityByKey.trans h.visibilityByKey
  visiting := h'.visiting.trans h.visiting
  visibilityRemaining := h'.visibilityRemaining.trans h.visibilityRemaining
  children hright := h'.children (h.children hright)

variable (c : Conditions) (document : NativeDocument κ)

theorem ask_still : Stateful.Leaves (Still document) (ask : Call κ ℕ) :=
  fun _ => ⟨rfl, rfl, rfl, rfl, rfl, rfl, rfl, id⟩

theorem requireViewerAdmission_still :
    Stateful.Leaves (Still document) (requireViewerAdmission c : Call κ Unit) := by
  refine Stateful.Leaves.bind Still.trans (ask_still document) fun t => ?_
  split_ifs
  · exact Stateful.Leaves.pure (Still.refl document) ()
  · exact fun s => Still.refl document s

theorem mappingAdmission_still : Stateful.Leaves (Still document) (mappingAdmission c : Call κ Unit) := by
  refine Stateful.Leaves.bind Still.trans (requireViewerAdmission_still c document) fun _ => ?_
  refine Stateful.Leaves.bind Still.trans (ask_still document) fun t => ?_
  split_ifs
  · exact fun s => Still.refl document s
  · exact Stateful.Leaves.pure (Still.refl document) ()

theorem native_still {α : Type} (value : α) : Stateful.Leaves (Still document) (native c value : Call κ α) := by
  refine Stateful.Leaves.bind Still.trans (ask_still document) fun t => ?_
  split_ifs
  · exact Stateful.Leaves.pure (Still.refl document) value
  · exact fun s => Still.refl document s

variable {c document}

variable {s s' : Batch κ}

omit [DecidableEq κ] in
theorem native_ok {α : Type} {value a : α} (h : native c value s = (.ok a, s')) :
    a = value := by
  obtain ⟨t, s₁, -, h⟩ := Stateful.bind_returns.mp h
  split_ifs at h with hanswered
  · exact (Stateful.pure_eq_ok.mp h).1
  · cases h

theorem lookup_cons_of {β : Type} {f : κ → β} {memo : List (κ × β)}
    (h : ∀ k known, memo.lookup k = some known → known = f k) (key : κ) :
    ∀ k known, ((key, f key) :: memo).lookup k = some known → known = f k := by
  intro k known hk
  rw [List.lookup_cons] at hk
  split at hk
  · rename_i hkey
    cases hk
    rw [beq_iff_eq.mp hkey]
  · exact h k known hk

theorem getChildren_still (node : κ) : Stateful.Leaves (Still document) (getChildren c document node) := by
  intro s
  rcases Stateful.bind_cases (native c (document.children node).length) _ s with
    ⟨count, s₁, hcount, heq⟩ | ⟨e, s₁, hcount, heq⟩
  · have hfirst : Still document s s₁ := by
      exact (native_still c document _).left hcount
    rw [getChildren, heq, Stateful.read_bind]
    split_ifs
    · exact hfirst
    · rcases Stateful.bind_cases (native c (document.children node)) _ s₁ with
        ⟨below, s₂, hbelow, heq⟩ | ⟨e, s₂, hbelow, heq⟩
      · have hsecond := (native_still c document _).left hbelow
        have hsame := native_ok hbelow
        rw [heq, Stateful.modify_bind]
        refine Still.trans _ _ _ (Still.trans _ _ _ hfirst hsecond)
          ⟨rfl, rfl, rfl, rfl, rfl, rfl, rfl, fun hright k known hk => ?_⟩
        rw [hsame] at hk
        exact lookup_cons_of hright node k known hk
      · rw [heq]
        exact Still.trans _ _ _ hfirst ((native_still c document _).left hbelow)
  · rw [getChildren, heq]
    exact (native_still c document _).left hcount

omit [DecidableEq κ] in
theorem getChildren_ok {node : κ} {below : List κ}
    (h : getChildren c document node s = (.ok below, s')) : below = document.children node := by
  obtain ⟨count, s₁, -, h⟩ := Stateful.bind_returns.mp h
  rw [Stateful.read_bind] at h
  split_ifs at h with hmore
  · cases h
  · obtain ⟨found, s₂, hfound, h⟩ := Stateful.bind_returns.mp h
    rw [Stateful.modify_bind] at h
    rw [(Stateful.pure_eq_ok.mp h).1]
    exact native_ok hfound

theorem childrenOf_still (key : κ) : Stateful.Leaves (Still document) (childrenOf c document key) := by
  intro s
  rw [childrenOf, Stateful.read_bind]
  cases hknown : s.childrenByKey.lookup key with
  | some known => exact Still.refl document s
  | none =>
    exact Stateful.Leaves.bind Still.trans (mappingAdmission_still c document)
      (fun _ => getChildren_still key) s

theorem children_still (node : κ) : Stateful.Leaves (Still document) (children c document node) := by
  refine Stateful.Leaves.bind Still.trans (mappingAdmission_still c document) fun _ => ?_
  exact Stateful.Leaves.bind Still.trans (native_still c document node) fun key => childrenOf_still key

/-- **The children of a node** are those of the document, also when they come from the memo. -/
theorem children_ok {node : κ} {below : List κ}
    (hright : ∀ k known, s.childrenByKey.lookup k = some known → known = document.children k)
    (h : children c document node s = (.ok below, s')) : below = document.children node := by
  obtain ⟨_, s₁, hadmitted, h⟩ := Stateful.bind_returns.mp h
  obtain ⟨key, s₂, hkey, h⟩ := Stateful.bind_returns.mp h
  have hfirst := (mappingAdmission_still c document).left hadmitted
  have hsecond := (native_still c document node).left hkey
  have hright := hsecond.children (hfirst.children hright)
  rw [native_ok hkey, childrenOf, Stateful.read_bind] at h
  cases hknown : s₂.childrenByKey.lookup node with
  | some known =>
    rw [hknown] at h
    rw [(Stateful.pure_eq_ok.mp h).1]
    exact hright node known hknown
  | none =>
    rw [hknown] at h
    obtain ⟨_, s₃, -, h⟩ := Stateful.bind_returns.mp h
    exact getChildren_ok h

/-! ## What they do not raise -/

open Stateful

variable (c document) {bad : Raised}

omit [DecidableEq κ] in
theorem ask_avoids : Avoids bad (ask : Call κ ℕ) := fun _ heq => nomatch heq

omit [DecidableEq κ] in
theorem requireViewerAdmission_avoids (hauthorization : .noEffect .viewerAuthorizationRequired ≠ bad) :
    Avoids bad (requireViewerAdmission c : Call κ Unit) := by
  refine Avoids.bind ask_avoids fun t => ?_
  split_ifs
  · exact Avoids.pure ()
  · exact Avoids.raise hauthorization

omit [DecidableEq κ] in
theorem mappingAdmission_avoids (hauthorization : .noEffect .viewerAuthorizationRequired ≠ bad)
    (hbudget : .noEffect .viewerMappingBudgetExceeded ≠ bad) :
    Avoids bad (mappingAdmission c : Call κ Unit) := by
  refine Avoids.bind (requireViewerAdmission_avoids c hauthorization) fun _ => ?_
  refine Avoids.bind ask_avoids fun t => ?_
  split_ifs
  · exact Avoids.raise hbudget
  · exact Avoids.pure ()

omit [DecidableEq κ] in
theorem native_avoids {α : Type} (value : α) (hother : .other ≠ bad) :
    Avoids bad (native c value : Call κ α) := by
  refine Avoids.bind ask_avoids fun t => ?_
  split_ifs
  · exact Avoids.pure value
  · exact Avoids.raise hother

theorem children_avoids (node : κ) (hauthorization : .noEffect .viewerAuthorizationRequired ≠ bad)
    (hbudget : .noEffect .viewerMappingBudgetExceeded ≠ bad) (hother : .other ≠ bad) :
    Avoids bad (children c document node) := by
  refine Avoids.bind (mappingAdmission_avoids c hauthorization hbudget) fun _ => ?_
  refine Avoids.bind (native_avoids c node hother) fun key => ?_
  refine Avoids.bind (Avoids.read _) fun known => ?_
  cases known with
  | some known => exact Avoids.pure known
  | none =>
    refine Avoids.bind (mappingAdmission_avoids c hauthorization hbudget) fun _ => ?_
    refine Avoids.bind (native_avoids c _ hother) fun count => ?_
    refine Avoids.bind (Avoids.read _) fun remaining => ?_
    split_ifs
    · exact Avoids.raise hbudget
    · refine Avoids.bind (native_avoids c _ hother) fun below => ?_
      exact Avoids.bind (Avoids.modify _) fun _ => Avoids.pure below

end Ai00.Connector.Viewer
