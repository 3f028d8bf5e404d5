import Ai00.Basic.Parents
import Ai00.Basic.KeyedRows
import Ai00.Basic.Stateful
import Ai00.Basic.Checks

/-! # Private workspaces

`domain/workspace.py` of the simulation plugin. A `SimulationWorkspace` holds a tree of structure
nodes and the bindings of occurrences to them; four calls edit it. A call names the row version it
has seen and an idempotency key, and a ledger keeps what each key came to.

Each call is a computation that raises with whatever it wrote before, so that a refused call which
had written something would show it. What Python raises besides the two errors of the module (a
missing dictionary key, a text that is no number, a walk over parents that does not end) is an error
of its own.
-/

namespace Ai00.Simulation

open KeyedRows Parents

/-! ## Data -/

structure WorkspaceNode where
  gid : Str
  parentGid : Option Str
  nodeType : Str
  name : Str
  position : ℕ
  removed : Bool
deriving DecidableEq

structure WorkspaceBinding where
  gid : Str
  nodeGid : Str
  occurrenceGid : Str
  role : Str
  removed : Bool
deriving DecidableEq

/-- The `patch` of a change. -/
inductive WorkspacePatch where
  | create (nodeGid : Str) (parentGid : Option Str) (position : ℕ)
  | move (nodeGid : Str) (parentGid : Option Str)
  | remove (removedNodeGids : List Str)
  | bind (bindingGid nodeGid occurrenceGid role : Str)
deriving DecidableEq

structure WorkspaceChange where
  entityGid : Str
  rowVersion : ℕ
  patch : WorkspacePatch
deriving DecidableEq

/-- The payload of a call, which is what a repeated call must repeat. -/
inductive WorkspacePayload where
  | create (parentGid : Option Str) (nodeType name : Str)
  | move (nodeGid : Str) (parentGid : Option Str)
  | remove (nodeGid : Str)
  | bind (nodeGid occurrenceGid role : Str)

/-- An entry of `_idempotency`. -/
structure WorkspaceEntry where
  key : Str
  digest : Str
  result : WorkspaceChange
deriving DecidableEq

structure SimulationWorkspace where
  gid : Str
  tenantGid : Str
  ownerGid : Str
  name : Str
  rowVersion : ℕ
  nodes : List WorkspaceNode
  bindings : List WorkspaceBinding
  idempotency : List WorkspaceEntry
  /-- How many ids the factory was asked for. -/
  drawn : ℕ
deriving DecidableEq

inductive WorkspaceFailure where
  | ruleError (code : String)
  | conflict (code : String)
  | keyError
  | valueError
  /-- The call does not return. -/
  | hangs
deriving DecidableEq

/-- The two errors of the module. -/
def WorkspaceFailure.IsWorkspaceError : WorkspaceFailure → Prop
  | ruleError _ | conflict _ => True
  | keyError | valueError | hangs => False

/-- What a workspace is given: the decimal value of a character, `_fingerprint`, and the ids that
the factory yields one after another. -/
structure WorkspaceAmbient where
  digit : Char → Option ℕ
  fingerprint : WorkspacePayload → Str
  gidFactory : ℕ → Str

/-! ## Reading -/

namespace WorkspaceAmbient

variable (ambient : WorkspaceAmbient)

/-- `int(value)` for a text that `isdecimal()`; none for other texts. -/
def int (value : Str) : Option ℕ :=
  if value = [] then none
  else (value.mapM ambient.digit).map fun digits => digits.foldl (fun n d => 10 * n + d) 0

end WorkspaceAmbient

namespace SimulationWorkspace

variable (s : SimulationWorkspace)

def node? (gid : Str) : Option WorkspaceNode := lookup WorkspaceNode.gid gid s.nodes

/-- `gid in self.nodes` and the node is not removed. -/
def HasLive (gid : Str) : Prop := ∃ n ∈ s.node? gid, n.removed = false

instance (gid : Str) : Decidable (s.HasLive gid) := by
  unfold HasLive
  infer_instance

/-- How many live nodes have the parent. -/
def siblings (parentGid : Option Str) : ℕ :=
  s.nodes.countP fun item => item.parentGid = parentGid && !item.removed

/-- The check `any(...)` of `create_binding`. -/
def HasLoad (occurrenceGid : Str) : Prop :=
  ∃ item ∈ s.bindings, item.occurrenceGid = occurrenceGid ∧ item.role = "load".toList
    ∧ item.removed = false

instance (occurrenceGid : Str) : Decidable (s.HasLoad occurrenceGid) := by
  unfold HasLoad
  infer_instance

/-- `while current is not None`: the walk of `move_node` from the new parent to its ancestors. -/
def walk (nodeGid : Str) : ℕ → Option Str → Except WorkspaceFailure Unit
  | _, none => .ok ()
  | 0, some _ => .error .hangs
  | fuel + 1, some current =>
    if current = nodeGid then .error (.ruleError "structure_cycle")
    else match s.node? current with
      | none => .error .keyError
      | some node => walk nodeGid fuel node.parentGid

/-- The parent by which `remove_node` collects: that of a node which is not removed. -/
def collectedBy (item : WorkspaceNode) : Option Str := if item.removed then none else item.parentGid

/-- `while changed`: the node and everything live below it. -/
def subtree (nodeGid : Str) : Option (List Str) :=
  closure WorkspaceNode.gid collectedBy s.nodes (s.nodes.length + 1) [nodeGid]

end SimulationWorkspace

/-! ## Calls -/

abbrev WorkspaceCall (α : Type) : Type := Stateful SimulationWorkspace WorkspaceFailure α

namespace SimulationWorkspace

open Stateful

def create (gid tenantGid ownerGid name : Str) : Except WorkspaceFailure SimulationWorkspace := do
  require (strip name ≠ []) (.ruleError "workspace_name_required")
  return {
    gid, tenantGid, ownerGid
    name := strip name
    rowVersion := 1
    nodes := []
    bindings := []
    idempotency := []
    drawn := 0 }

variable (ambient : WorkspaceAmbient)

/-- `_begin`: the recorded change where the key is known. -/
def begin (key : Str) (payload : WorkspacePayload) (expected : ℤ) :
    WorkspaceCall (Option WorkspaceChange) := do
  let s ← read id
  match lookup WorkspaceEntry.key key s.idempotency with
  | some replay =>
    lift (require (replay.digest = ambient.fingerprint payload) (.conflict "idempotency_conflict"))
    return some replay.result
  | none =>
    lift (require (expected = s.rowVersion) (.conflict "version_conflict"))
    return none

def finish (key : Str) (payload : WorkspacePayload) (result : WorkspaceChange) :
    WorkspaceCall WorkspaceChange := do
  modify fun s =>
    { s with idempotency :=
        upsert WorkspaceEntry.key ⟨key, ambient.fingerprint payload, result⟩ s.idempotency }
  return result

/-- What the four calls share: a replay returns what was recorded, anything else is done and
recorded. -/
def mutation (key : Str) (payload : WorkspacePayload) (expected : ℤ)
    (body : WorkspaceCall WorkspaceChange) : WorkspaceCall WorkspaceChange := do
  match ← begin ambient key payload expected with
  | some replay => return replay
  | none =>
    let result ← body
    finish ambient key payload result

def nextGid : WorkspaceCall Str := do
  let value ← read fun s => ambient.gidFactory s.drawn
  modify fun s => { s with drawn := s.drawn + 1 }
  lift (require (∃ v ∈ ambient.int value, 0 < v) (.ruleError "invalid_gid"))
  return value

/-- `self.row_version += 1` and the version that a change carries. -/
def nextVersion : WorkspaceCall ℕ := do
  modify fun s => { s with rowVersion := s.rowVersion + 1 }
  read rowVersion

def setNode (node : WorkspaceNode) : WorkspaceCall Unit :=
  modify fun s => { s with nodes := upsert WorkspaceNode.gid node s.nodes }

def setBinding (binding : WorkspaceBinding) : WorkspaceCall Unit :=
  modify fun s => { s with bindings := upsert WorkspaceBinding.gid binding s.bindings }

def structureTypes : List Str :=
  ["line".toList, "station".toList, "process".toList, "operation".toList]

def createNode (parentGid : Option Str) (nodeType name : Str) (expectedRowVersion : ℤ)
    (idempotencyKey : Str) : WorkspaceCall WorkspaceChange :=
  mutation ambient idempotencyKey (.create parentGid nodeType (strip name)) expectedRowVersion do
    let s ← read id
    lift (require (∀ p ∈ parentGid, s.HasLive p) (.ruleError "parent_not_found"))
    lift (require (strip name ≠ [] ∧ nodeType ∈ structureTypes) (.ruleError "invalid_structure_node"))
    let siblings := s.siblings parentGid
    let nodeGid ← nextGid ambient
    setNode ⟨nodeGid, parentGid, nodeType, strip name, siblings, false⟩
    let rowVersion ← nextVersion
    return ⟨nodeGid, rowVersion, .create nodeGid parentGid siblings⟩

def moveNode (nodeGid : Str) (newParentGid : Option Str) (expectedRowVersion : ℤ)
    (idempotencyKey : Str) : WorkspaceCall WorkspaceChange :=
  mutation ambient idempotencyKey (.move nodeGid newParentGid) expectedRowVersion do
    let s ← read id
    let node ← lift (found ((s.node? nodeGid).filter fun node => !node.removed)
      (.ruleError "structure_node_not_found"))
    lift (require (∀ p ∈ newParentGid, s.HasLive p) (.ruleError "parent_not_found"))
    lift (s.walk nodeGid s.nodes.length newParentGid)
    setNode ⟨node.gid, newParentGid, node.nodeType, node.name, s.siblings newParentGid, false⟩
    let rowVersion ← nextVersion
    return ⟨nodeGid, rowVersion, .move nodeGid newParentGid⟩

/-- One round of `for gid in removed`. -/
def removeOne (gid : Str) : WorkspaceCall Unit := do
  let s ← read id
  let node ← lift (found (s.node? gid) .keyError)
  setNode ⟨node.gid, node.parentGid, node.nodeType, node.name, node.position, true⟩

/-- The loop over `self.bindings.items()`: live bindings of removed nodes go with them. -/
def removeBindings (removed : List Str) : WorkspaceCall Unit :=
  modify fun s =>
    { s with bindings := s.bindings.map fun binding =>
        if binding.nodeGid ∈ removed ∧ binding.removed = false then { binding with removed := true }
        else binding }

/-- `tuple(sorted(removed, key=int))`; gids of one value stay in the order in which they were
collected. -/
def sortedByInt (removed : List Str) : Except WorkspaceFailure (List Str) := do
  let keyed ← removed.mapM fun gid => found ((ambient.int gid).map fun v => (v, gid)) .valueError
  return (keyed.mergeSort fun a b => decide (a.1 ≤ b.1)).map Prod.snd

def removeNode (nodeGid : Str) (expectedRowVersion : ℤ) (idempotencyKey : Str) :
    WorkspaceCall WorkspaceChange :=
  mutation ambient idempotencyKey (.remove nodeGid) expectedRowVersion do
    let s ← read id
    lift (require (s.HasLive nodeGid) (.ruleError "structure_node_not_found"))
    let removed ← lift (found (s.subtree nodeGid) .hangs)
    removed.forM removeOne
    removeBindings removed
    let rowVersion ← nextVersion
    let removedNodeGids ← lift (sortedByInt ambient removed)
    return ⟨nodeGid, rowVersion, .remove removedNodeGids⟩

def createBinding (nodeGid occurrenceGid role : Str) (expectedRowVersion : ℤ)
    (idempotencyKey : Str) : WorkspaceCall WorkspaceChange :=
  mutation ambient idempotencyKey (.bind nodeGid occurrenceGid role) expectedRowVersion do
    let s ← read id
    lift (require (s.HasLive nodeGid) (.ruleError "structure_node_not_found"))
    lift (require (role ∈ ["load".toList, "operate".toList]) (.ruleError "invalid_binding_role"))
    lift (require (¬(role = "load".toList ∧ s.HasLoad occurrenceGid))
      (.ruleError "load_binding_exists"))
    let bindingGid ← nextGid ambient
    setBinding ⟨bindingGid, nodeGid, occurrenceGid, role, false⟩
    let rowVersion ← nextVersion
    return ⟨bindingGid, rowVersion, .bind bindingGid nodeGid occurrenceGid role⟩

end SimulationWorkspace

/-! ## Runs -/

/-- A call with its arguments. -/
inductive WorkspaceMutation where
  | createNode (parentGid : Option Str) (nodeType name : Str) (expected : ℤ) (key : Str)
  | moveNode (nodeGid : Str) (newParentGid : Option Str) (expected : ℤ) (key : Str)
  | removeNode (nodeGid : Str) (expected : ℤ) (key : Str)
  | createBinding (nodeGid occurrenceGid role : Str) (expected : ℤ) (key : Str)

namespace WorkspaceMutation

def key : WorkspaceMutation → Str
  | createNode _ _ _ _ key | moveNode _ _ _ key | removeNode _ _ key | createBinding _ _ _ _ key =>
    key

def payload : WorkspaceMutation → WorkspacePayload
  | createNode parentGid nodeType name _ _ => .create parentGid nodeType (strip name)
  | moveNode nodeGid newParentGid _ _ => .move nodeGid newParentGid
  | removeNode nodeGid _ _ => .remove nodeGid
  | createBinding nodeGid occurrenceGid role _ _ => .bind nodeGid occurrenceGid role

def call (ambient : WorkspaceAmbient) : WorkspaceMutation → WorkspaceCall WorkspaceChange
  | createNode parentGid nodeType name expected key =>
    SimulationWorkspace.createNode ambient parentGid nodeType name expected key
  | moveNode nodeGid newParentGid expected key =>
    SimulationWorkspace.moveNode ambient nodeGid newParentGid expected key
  | removeNode nodeGid expected key => SimulationWorkspace.removeNode ambient nodeGid expected key
  | createBinding nodeGid occurrenceGid role expected key =>
    SimulationWorkspace.createBinding ambient nodeGid occurrenceGid role expected key

end WorkspaceMutation

def SimulationWorkspace.next (ambient : WorkspaceAmbient) (s : SimulationWorkspace)
    (m : WorkspaceMutation) : SimulationWorkspace := (m.call ambient s).2

end Ai00.Simulation
