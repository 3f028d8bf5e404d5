import Ai00.Connector.CaptureQueue
import Ai00.Connector.ViewerBatch

/-! # The search for an occurrence path

`ResolvePath` goes down the native tree, one element of the path after another. The node for an element
is searched level by level: a level is left by its unnamed wrapper nodes, as long as no node of it is
named by the element. The aliases of nodes with a name of their own are looked at in the end, when no
level has a match.

The search is written once, over what it asks of the tree (`Asks`). It runs on the batch, with the memos
and the budget, and it runs plainly on the tree (`plain`), where only the nodes are recorded whose
children have been asked for.
-/

namespace Ai00.Connector.Viewer

variable {κ : Type}

/-- What the search asks of the tree, in the monad it runs in. -/
structure Asks (m : Type → Type) (κ : Type) where
  children : κ → m (List κ)
  primaryOccurrence : κ → m Units
  occurrences : κ → m (List Units)
  refuse : {α : Type} → Code → m α
  hangs : {α : Type} → m α

section

variable {m : Type → Type} [Monad m] (ask : Asks m κ)

/-- What is known of a level when some of its nodes have been looked at; `aliasFallback` is of all
levels. -/
structure Level (κ : Type) where
  found : Option κ
  wrappers : List κ
  aliasFallback : List κ

def Level.take (level : Level κ) (child : κ) : m (Level κ) :=
  match level.found with
  | some _ => ask.refuse .onlineOccurrenceAmbiguous
  | none => pure { level with found := some child }

def scan (element : Units) (level : Level κ) (child : κ) : m (Level κ) := do
  let primary ← ask.primaryOccurrence child
  if primary = element then level.take ask child
  else if isNullOrWhiteSpace (some primary) then do
    let aliases ← ask.occurrences child
    if element ∈ aliases then level.take ask child
    else if aliases = [] then pure { level with wrappers := level.wrappers ++ [child] }
    else pure level
  else pure { level with aliasFallback := level.aliasFallback ++ [child] }

/-- The children of the wrappers of a level, in their order. -/
def unwrap : List κ → m (List κ)
  | [] => pure []
  | wrapper :: rest => do
    let nested ← ask.children wrapper
    let others ← unwrap rest
    pure (nested ++ others)

/-- The `while` loop over the levels; the fuel is for the levels. -/
def searchLevels (element : Units) : ℕ → List κ → List κ → m (Option κ × List κ)
  | _, [], fallback => pure (none, fallback)
  | 0, _ :: _, _ => ask.hangs
  | fuel + 1, child :: pending, fallback => do
    let level ← (child :: pending).foldlM (scan ask element) ⟨none, [], fallback⟩
    match level.found with
    | some node => pure (some node, level.aliasFallback)
    | none => do
      let nested ← unwrap ask level.wrappers
      searchLevels element fuel nested level.aliasFallback

def scanAlias (element : Units) (found : Option κ) (child : κ) : m (Option κ) := do
  let aliases ← ask.occurrences child
  if element ∉ aliases then pure found
  else
    match found with
    | some _ => ask.refuse .onlineOccurrenceAmbiguous
    | none => pure (some child)

/-- The node for one element of a path. -/
def matchBelow (fuel : ℕ) (element : Units) (current : κ) : m κ := do
  let top ← ask.children current
  let (found, fallback) ← searchLevels ask element fuel top []
  match found with
  | some node => pure node
  | none => do
    match (← fallback.foldlM (scanAlias ask element) none) with
    | some node => pure node
    | none => ask.refuse .onlineOccurrenceUnmapped

/-- The elements of a path below the root, which may take the first one itself. -/
def belowRoot (root : κ) : List Units → m (List Units)
  | [] => pure []
  | first :: rest => do
    let rootPrimary ← ask.primaryOccurrence root
    if rootPrimary = first then pure rest
    else if isNullOrWhiteSpace (some first) then pure (first :: rest)
    else do
      let aliases ← ask.occurrences root
      if first ∈ aliases then pure rest else pure (first :: rest)

end

/-! ## On the tree -/

/-- A finite tree: `height` bounds how far down it goes below a node. -/
structure NativeTree (κ : Type) extends NativeDocument κ where
  height : κ → ℕ
  lower : ∀ a, ∀ b ∈ children a, height b < height a

/-- What a plain search returns, and the nodes whose children it has asked for. -/
structure Traced (κ α : Type) where
  result : Except Raised α
  asked : List κ

instance : Monad (Traced κ) where
  pure a := ⟨.ok a, []⟩
  bind x f :=
    match x.result with
    | .ok a => ⟨(f a).result, x.asked ++ (f a).asked⟩
    | .error e => ⟨.error e, x.asked⟩

def plain (document : NativeDocument κ) : Asks (Traced κ) κ where
  children node := ⟨.ok (document.children node), [node]⟩
  primaryOccurrence node := pure (document.occurrenceId node)
  occurrences node := pure (document.occurrenceIds node)
  refuse code := ⟨.error (.noEffect code), []⟩
  hangs := ⟨.error .hangs, []⟩

/-- The walk along a path, from a node. -/
def walk (tree : NativeTree κ) : List Units → κ → Traced κ κ
  | [], current => pure current
  | element :: rest, current => do
    let found ← matchBelow (plain tree.toNativeDocument) (tree.height current) element current
    walk tree rest found

namespace Traced

variable {α β : Type} {x : Traced κ α} {f : α → Traced κ β}

@[simp] theorem pure_result (a : α) : (pure a : Traced κ α).result = .ok a := rfl

@[simp] theorem pure_asked (a : α) : (pure a : Traced κ α).asked = [] := rfl

theorem bind_ok {a : α} (h : x.result = .ok a) : x >>= f = ⟨(f a).result, x.asked ++ (f a).asked⟩ := by
  show (match x.result with | .ok a => _ | .error e => _) = _
  rw [h]

theorem bind_error {e : Raised} (h : x.result = .error e) : x >>= f = ⟨.error e, x.asked⟩ := by
  show (match x.result with | .ok a => _ | .error e => _) = _
  rw [h]

theorem bind_returns {b : β} :
    (x >>= f).result = .ok b ↔ ∃ a, x.result = .ok a ∧ (f a).result = .ok b := by
  cases h : x.result with
  | ok a => simp [bind_ok h]
  | error e => simp [bind_error h]

end Traced

variable {document : NativeDocument κ} {element : Units}

/-- A node that a level is searched for. -/
def NativeDocument.named (document : NativeDocument κ) (element : Units) (node : κ) : Bool :=
  document.occurrenceId node = element
    ∨ isNullOrWhiteSpace (some (document.occurrenceId node)) ∧ element ∈ document.occurrenceIds node

/-- A node that is passed through. -/
def NativeDocument.wraps (document : NativeDocument κ) (element : Units) (node : κ) : Bool :=
  document.occurrenceId node ≠ element ∧ isNullOrWhiteSpace (some (document.occurrenceId node))
    ∧ document.occurrenceIds node = []

/-- A node with another name. -/
def NativeDocument.renamed (document : NativeDocument κ) (element : Units) (node : κ) : Bool :=
  document.occurrenceId node ≠ element ∧ ¬ isNullOrWhiteSpace (some (document.occurrenceId node))

def NativeDocument.levels (document : NativeDocument κ) (element : Units) : ℕ → List κ → List κ
  | 0, top => top
  | i + 1, top =>
    document.levels element i ((top.filter (document.wraps element)).flatMap document.children)

variable {level level' : Level κ}

def Level.more (document : NativeDocument κ) (element : Units) (level : Level κ) (nodes : List κ)
    (level' : Level κ) : Prop :=
  level'.found.toList = level.found.toList ++ nodes.filter (document.named element)
    ∧ level'.wrappers = level.wrappers ++ nodes.filter (document.wraps element)
    ∧ level'.aliasFallback = level.aliasFallback ++ nodes.filter (document.renamed element)

@[simp] theorem levels_nil (i : ℕ) : document.levels element i [] = [] := by
  induction i with
  | zero => rfl
  | succ i ih => exact ih

/-- Where the node for an element is: at the first level that has a match, or, if no level has one, among
the aliases of the nodes with other names. There is no other candidate there. -/
def NativeDocument.FoundAt (document : NativeDocument κ) (element : Units) (top : List κ) (node : κ) : Prop :=
  (∃ i, (document.levels element i top).filter (document.named element) = [node]
      ∧ ∀ j < i, (document.levels element j top).filter (document.named element) = [])
    ∨ ∃ depth, (∀ i, (document.levels element i top).filter (document.named element) = [])
      ∧ (∀ i, depth ≤ i → document.levels element i top = [])
      ∧ ((List.range depth).flatMap fun i =>
          (document.levels element i top).filter (document.renamed element)).filter
            (fun other => element ∈ document.occurrenceIds other) = [node]

section

variable {tree : NativeTree κ}

/-- It comes to an end, and what it raises is reported for the descriptor. -/
def Traced.Ends {α : Type} (x : Traced κ α) : Prop :=
  ∀ e, x.result = .error e → ∃ code, e = .noEffect code ∧ code ≠ .viewerAuthorizationRequired

theorem Traced.Ends.pure {α : Type} (a : α) : (Pure.pure a : Traced κ α).Ends := fun _ h => nomatch h

theorem Traced.Ends.refuse {α : Type} (document : NativeDocument κ) {code : Code} (h : code ≠ .viewerAuthorizationRequired) :
    ((plain document).refuse code : Traced κ α).Ends := by
  intro e he
  cases he
  exact ⟨code, rfl, h⟩

theorem Traced.Ends.bind {α β : Type} {x : Traced κ α} {f : α → Traced κ β} (hx : x.Ends)
    (hf : ∀ a, x.result = .ok a → (f a).Ends) : (x >>= f).Ends := by
  intro e he
  cases h : x.result with
  | ok a =>
    rw [Traced.bind_ok h] at he
    exact hf a h e he
  | error e' =>
    rw [Traced.bind_error h] at he
    cases he
    exact hx e h

theorem Traced.Ends.foldlM {α β : Type} {g : α → β → Traced κ α} (hg : ∀ a b, (g a b).Ends) (bs : List β)
    (a : α) : (bs.foldlM g a).Ends := by
  induction bs generalizing a with
  | nil => exact .pure a
  | cons b bs ih => exact Traced.Ends.bind (hg a b) fun a' _ => ih a'

end

end Ai00.Connector.Viewer
