import Ai00.Basic.Parents
import Ai00.Basic.KeyedRows
import Ai00.Basic.Checks
import Ai00.Basic.Dict

/-! # Reconciling a live hierarchy

`domain/live_hierarchy_sync.py`: three snapshots of one hierarchy, as it was, as it is desired and as
it is observed, are merged node by node, and the merge is returned where no node was changed in two
ways and the result is a forest.

A dictionary from ids to nodes is the list of its nodes, each kept under its own id, in the order in
which the ids came.
-/

namespace Ai00.Simulation

open KeyedRows Parents

/-! ## Data -/

structure HierarchyNode where
  nodeId : Str
  parentId : Option Str
  name : Str
  sourceIdentity : Option Str
  position : ℤ
  insertionInstanceId : Option Str
  occurrenceId : Option Str
deriving DecidableEq

structure HierarchySnapshot where
  environmentId : Str
  documentSession : Str
  complete : Bool
  nodes : List HierarchyNode

structure SyncConflict where
  nodeId : Str
  reason : String
  base : Option HierarchyNode
  desired : Option HierarchyNode
  observed : Option HierarchyNode
deriving DecidableEq

structure Reconciliation where
  nodes : Option (List HierarchyNode)
  conflicts : List SyncConflict
deriving DecidableEq

/-- A `SyncValidationError`, or a search that does not end. -/
inductive SyncError where
  | validation (code : String)
  | hangs
deriving DecidableEq

def nodeOf (nodes : List HierarchyNode) (id : Str) : Option HierarchyNode :=
  lookup HierarchyNode.nodeId id nodes

/-! ## Validation -/

/-- `_graph_errors`: nodes whose parent is missing, or else nodes that no root leads to. -/
def graphErrors (nodes : List HierarchyNode) : Except SyncError (List (Str × String)) :=
  let errors := nodes.filter fun node => ∃ p ∈ node.parentId, nodeOf nodes p = none
  if errors ≠ [] then .ok (errors.map fun node => (node.nodeId, "parent_deleted"))
  else do
    let visited ← found (search (children HierarchyNode.nodeId HierarchyNode.parentId nodes)
      nodes.length (roots HierarchyNode.nodeId HierarchyNode.parentId nodes) []) .hangs
    return (nodes.filter (·.nodeId ∉ visited)).map fun node => (node.nodeId, "merged_cycle")

/-- One round of the loop over the nodes of a snapshot. -/
def indexNode (result : List HierarchyNode) (node : HierarchyNode) :
    Except SyncError (List HierarchyNode) := do
  let reference := [node.sourceIdentity, node.insertionInstanceId, node.occurrenceId]
  require (node.nodeId ≠ [] ∧ node.nodeId.length ≤ 1024) (.validation "hierarchy_identity_invalid")
  require (node.parentId ≠ some []) (.validation "hierarchy_parent_invalid")
  require (node.name.length ≤ 16384) (.validation "hierarchy_name_invalid")
  require ((∀ value ∈ reference, value = none) ∨ ∀ value ∈ reference, value ≠ none)
    (.validation "hierarchy_reference_incomplete")
  require (∀ value ∈ reference, ∀ text ∈ value, strip text ≠ [] ∧ text.length ≤ 4096)
    (.validation "hierarchy_reference_invalid")
  require (0 ≤ node.position) (.validation "hierarchy_position_invalid")
  require (nodeOf result node.nodeId = none) (.validation "hierarchy_identity_duplicate")
  return result ++ [node]

def validateHierarchyNodes (nodes : List HierarchyNode) :
    Except SyncError (List HierarchyNode) := do
  require (nodes.length ≤ 1000000) (.validation "hierarchy_nodes_invalid")
  let result ← nodes.foldlM indexNode []
  let errors ← graphErrors result
  require (errors = []) (.validation "hierarchy_graph_invalid")
  return result

/-- `_index`. -/
def indexSnapshot (snapshot : HierarchySnapshot) : Except SyncError (List HierarchyNode) := do
  require (snapshot.complete = true) (.validation "hierarchy_observation_incomplete")
  validateHierarchyNodes snapshot.nodes

/-! ## Merging -/

/-- What is chosen for an id: the conflict, or the node that the merge has for it. -/
def chooseNode (key : Str) (before localNode remote : Option HierarchyNode) :
    Except SyncConflict (Option HierarchyNode) :=
  if localNode = remote then .ok localNode
  else if localNode = before then .ok remote
  else if remote = before then .ok localNode
  else .error ⟨key, "concurrent_change", before, localNode, remote⟩

/-- One round of the loop over the ids. -/
def mergeKey (b a v : List HierarchyNode) :
    List HierarchyNode × List SyncConflict → Str → List HierarchyNode × List SyncConflict
  | (merged, conflicts), key =>
    match chooseNode key (nodeOf b key) (nodeOf a key) (nodeOf v key) with
    | .error conflict => (merged, conflicts ++ [conflict])
    | .ok none => (merged, conflicts)
    | .ok (some chosen) => (upsert HierarchyNode.nodeId chosen merged, conflicts)

def nodeIds (nodes : List HierarchyNode) : List Str := nodes.map HierarchyNode.nodeId

def mergeAll (b a v : List HierarchyNode) : List HierarchyNode × List SyncConflict :=
  (Dict.sortedUnion (nodeIds b ++ nodeIds a) (nodeIds v)).foldl (mergeKey b a v) ([], [])

def reconcile (base desired observed : HierarchySnapshot) : Except SyncError Reconciliation := do
  require (base.environmentId ≠ [] ∧ base.documentSession ≠ []) (.validation "hierarchy_scope_invalid")
  require (∀ s ∈ [desired, observed], s.environmentId = base.environmentId
    ∧ s.documentSession = base.documentSession) (.validation "hierarchy_scope_changed")
  let b ← indexSnapshot base
  let a ← indexSnapshot desired
  let v ← indexSnapshot observed
  let (merged, conflicts) := mergeAll b a v
  if conflicts ≠ [] then return ⟨none, conflicts⟩
  let errors ← graphErrors merged
  let conflicts := (errors.insertionSort fun e e' => e.1 ≤ e'.1).map fun error =>
    ⟨error.1, error.2, nodeOf b error.1, nodeOf a error.1, nodeOf v error.1⟩
  return ⟨if conflicts = [] then some merged else none, conflicts⟩

end Ai00.Simulation
