import Ai00.Agent.WorkspaceModel
import Ai00.Basic.Kahn

/-! # Graph drafts

`GraphDraft` of `orchestration/models.py` with what it validates: that nodes, flow edges, items, their
edges and the bindings refer to each other, that both kinds of edges form bounded acyclic graphs, and
`validate_workspace` of `orchestration/workspace_model.py`, for the graph and for each variant of a
task. The size of the serialized graph is the last check.
-/

namespace Ai00.Agent

open KeyedRows

/-! ## Data -/

inductive GraphMode where
  | exploration | fixed

inductive EdgeType where
  | business | data | command | semantic

inductive ItemType where
  | largeFlow | mediumFlow | standardWorkflow | skill | workflowNode | taskTool | humanTask
  | humanApproval
deriving DecidableEq

inductive ItemRelation where
  | contains | realizedBy | guides | sequence | implements

inductive RefType where
  | data | rule | knowledge | ontology | code

structure Point where
  x : PyFloat
  y : PyFloat

structure AxisView where
  xItems : List Str
  yItems : List Str

/-- The governance status of a node that no evidence is known of. -/
def unknownStatus : List (Str × Option Bool) :=
  ["machine_passed", "human_approved", "runtime_verified"].map fun key => (key.toList, none)

structure BusinessNode where
  gid : Str
  nodeKey : Str
  title : Str
  homeScopeGid : Option Str
  level : ℤ
  semanticType : SemanticType
  implementation : Implementation
  xItemKey : Str
  yItemKey : Str
  objective : Str
  ownerRef : Str
  inputs : Ports
  outputs : Ports
  acceptanceCriteria : List Str
  governanceStatus : List (Str × Option Bool)
  position : Point

structure FlowEdge where
  gid : Str
  edgeType : EdgeType
  sourceNodeGid : Str
  targetNodeGid : Str
  label : Str
  relationSemantics : Option RelationType
  sourcePortKey : Option Str
  targetPortKey : Option Str
  routePoints : List Point

structure DecompositionItem where
  gid : Str
  itemType : ItemType
  title : Str
  businessNodeGid : Option Str
  sequenceNo : ℤ
  config : List (Str × Json)

structure DecompositionEdge where
  gid : Str
  sourceItemGid : Str
  targetItemGid : Str
  relationType : ItemRelation
  sequenceNo : ℤ

structure CapabilityBinding where
  gid : Str
  sourceItemGid : Str
  capabilityVersionGid : Str
  purpose : Str
  inputMapping : List (Str × Json)
  outputMapping : List (Str × Json)
  authorizationScope : List (Str × Json)
  timeoutSeconds : ℤ
  retryPolicy : List (Str × Json)
  fallbackPolicy : List (Str × Json)
  evidencePolicy : List (Str × Json)

structure ContextBinding where
  gid : Str
  sourceItemGid : Str
  refType : RefType
  refGid : Str
  refVersion : Option Str
  snapshotGid : Option Str
  purpose : Str

structure GraphDraft where
  workspace : Option WorkspaceDefinition
  mode : GraphMode
  axis : AxisView
  nodes : List BusinessNode
  edges : List FlowEdge
  items : List DecompositionItem
  itemEdges : List DecompositionEdge
  capabilityBindings : List CapabilityBinding
  contextBindings : List ContextBinding

/-! ## Fields -/

/-- A text that is not empty. -/
def given (s : Str) : Prop := s ≠ []

instance (s : Str) : Decidable (given s) := inferInstanceAs (Decidable (_ ≠ _))

def BusinessNode.check (node : BusinessNode) : Except String Unit := do
  require (given node.gid) "gid"
  require (given node.nodeKey) "node_key"
  require (given node.title) "title"
  require (within 1 9 node.level) "level"
  node.implementation.check

/-- The number that two floats are compared by; an infinity is beyond every number. -/
def PyFloat.same : PyFloat → PyFloat → Bool
  | .finite x, .finite y => x.toRat = y.toRat
  | .inf a, .inf b => a = b
  | _, _ => false

/-- `route_is_orthogonal`. -/
def orthogonal : List Point → Bool
  | a :: b :: points => (PyFloat.same a.x b.x || PyFloat.same a.y b.y) && orthogonal (b :: points)
  | _ => true

def FlowEdge.check (edge : FlowEdge) : Except String Unit := do
  require (given edge.gid) "gid"
  require (given edge.sourceNodeGid) "source_node_gid"
  require (given edge.targetNodeGid) "target_node_gid"
  require (orthogonal edge.routePoints = true) "route segments must be orthogonal"

def DecompositionItem.check (item : DecompositionItem) : Except String Unit := do
  require (given item.gid) "gid"
  require (given item.title) "title"
  require (0 ≤ item.sequenceNo) "sequence_no"

def DecompositionEdge.check (edge : DecompositionEdge) : Except String Unit := do
  require (given edge.gid) "gid"
  require (given edge.sourceItemGid) "source_item_gid"
  require (given edge.targetItemGid) "target_item_gid"
  require (0 ≤ edge.sequenceNo) "sequence_no"
  require (edge.sourceItemGid ≠ edge.targetItemGid) "decomposition edge cannot reference itself"

def CapabilityBinding.check (binding : CapabilityBinding) : Except String Unit := do
  require (given binding.gid) "gid"
  require (given binding.sourceItemGid) "source_item_gid"
  require (given binding.capabilityVersionGid) "capability_version_gid"
  require (given binding.purpose) "purpose"
  require (within 1 300 binding.timeoutSeconds) "timeout_seconds"

def ContextBinding.check (binding : ContextBinding) : Except String Unit := do
  require (given binding.gid) "gid"
  require (given binding.sourceItemGid) "source_item_gid"
  require (given binding.refGid) "ref_gid"
  require (given binding.purpose) "purpose"

def GraphDraft.checkFields (graph : GraphDraft) : Except String Unit := do
  graph.workspace.toList.forM WorkspaceDefinition.check
  require (1 ≤ graph.axis.xItems.length ∧ 1 ≤ graph.axis.yItems.length) "axis"
  require (graph.nodes.length ≤ 500) "nodes"
  graph.nodes.forM BusinessNode.check
  require (graph.edges.length ≤ 2000) "edges"
  graph.edges.forM FlowEdge.check
  require (graph.items.length ≤ 2000) "items"
  graph.items.forM DecompositionItem.check
  require (graph.itemEdges.length ≤ 2000) "item_edges"
  graph.itemEdges.forM DecompositionEdge.check
  require (graph.capabilityBindings.length ≤ 4000) "capability_bindings"
  graph.capabilityBindings.forM CapabilityBinding.check
  require (graph.contextBindings.length ≤ 4000) "context_bindings"
  graph.contextBindings.forM ContextBinding.check

/-! ## Bounded acyclic graphs -/

/-- What `_validate_business_dag` and `_validate_decomposition_dag` share: a graph of elements and
edges between them is acyclic, and no chain of it is longer than `MAX_GRAPH_DEPTH`. -/
def checkDag (elements : List Str) (edges : List (Str × Str)) (tooDeep cycle : String) :
    Except String Unit := do
  let visited ← found (Kahn.layers 32 elements edges) tooDeep
  require (visited = elements.length) cycle

/-- `_validate_business_dag`; typed observations are no dependencies. -/
def GraphDraft.checkBusinessDag (graph : GraphDraft) : Except String Unit := do
  require (∀ edge ∈ graph.edges, edge.sourceNodeGid ≠ edge.targetNodeGid)
    "business flow edge cannot reference itself"
  let dependencies := graph.edges.filter fun edge =>
    edge.relationSemantics ∈ [none, some .sequence]
  checkDag (graph.nodes.map BusinessNode.gid)
    (dependencies.map fun edge => (edge.sourceNodeGid, edge.targetNodeGid))
    "business flow depth exceeds limit" "business flow graph contains a cycle"

/-- `_validate_decomposition_dag`. -/
def GraphDraft.checkDecompositionDag (graph : GraphDraft) : Except String Unit :=
  checkDag (graph.items.map DecompositionItem.gid)
    (graph.itemEdges.map fun edge => (edge.sourceItemGid, edge.targetItemGid))
    "decomposition depth exceeds limit" "decomposition graph contains a cycle"

/-- A graph has no cycle, and no path in it has more nodes than `MAX_GRAPH_DEPTH`. -/
structure BoundedDag (edges : List (Str × Str)) : Prop where
  acyclic : Kahn.Acyclic edges
  shallow : ∀ path, Kahn.Chain edges path → path.length ≤ 32

theorem boundedDag_iff {edges : List (Str × Str)} : BoundedDag edges ↔ Kahn.Bounded 32 edges := by
  constructor
  · intro h
    exact h.shallow
  · intro h
    exact ⟨h.acyclic, h⟩

theorem checkDag_eq_ok {elements : List Str} {edges : List (Str × Str)} {tooDeep cycle : String}
    (hnodup : elements.Nodup) (hedges : ∀ e ∈ edges, e.1 ∈ elements ∧ e.2 ∈ elements) :
    checkDag elements edges tooDeep cycle = .ok () ↔ BoundedDag edges := by
  rw [boundedDag_iff, ← Kahn.layers_eq_length_iff hnodup (by norm_num) hedges, checkDag]
  cases hlayers : Kahn.layers 32 elements edges with
  | none => simp [found, bind, Except.bind]
  | some visited => simp [found, bind, Except.bind]

/-- The flow edges that say what comes before what: those without semantics and the sequences. -/
def GraphDraft.dependencies (graph : GraphDraft) : List (Str × Str) :=
  (graph.edges.filter fun edge => edge.relationSemantics ∈ [none, some .sequence]).map fun edge =>
    (edge.sourceNodeGid, edge.targetNodeGid)

/-- The edges between decomposition items. -/
def GraphDraft.itemLinks (graph : GraphDraft) : List (Str × Str) :=
  graph.itemEdges.map fun edge => (edge.sourceItemGid, edge.targetItemGid)

theorem GraphDraft.checkBusinessDag_eq_ok {graph : GraphDraft}
    (hnodes : (graph.nodes.map BusinessNode.gid).Nodup)
    (hedges : ∀ edge ∈ graph.edges, edge.sourceNodeGid ∈ graph.nodes.map BusinessNode.gid
      ∧ edge.targetNodeGid ∈ graph.nodes.map BusinessNode.gid) :
    graph.checkBusinessDag = .ok () ↔ (∀ edge ∈ graph.edges, edge.sourceNodeGid ≠ edge.targetNodeGid)
        ∧ BoundedDag graph.dependencies := by
  have hends : ∀ e ∈ graph.dependencies, e.1 ∈ graph.nodes.map BusinessNode.gid
      ∧ e.2 ∈ graph.nodes.map BusinessNode.gid := by
    intro e he
    obtain ⟨edge, hedge, rfl⟩ := List.mem_map.mp he
    exact hedges edge (List.mem_filter.mp hedge).1
  rw [← @checkDag_eq_ok _ _ "business flow depth exceeds limit"
    "business flow graph contains a cycle" hnodes hends]
  by_cases hself : ∀ edge ∈ graph.edges, edge.sourceNodeGid ≠ edge.targetNodeGid
  · rw [checkBusinessDag, require_bind hself]
    exact ⟨fun h => ⟨hself, h⟩, fun h => h.2⟩
  · refine iff_of_false ?_ fun h => hself h.1
    rw [checkBusinessDag, require, if_neg hself]
    exact fun h => nomatch h

theorem GraphDraft.checkDecompositionDag_eq_ok {graph : GraphDraft}
    (hitems : (graph.items.map DecompositionItem.gid).Nodup)
    (hedges : ∀ edge ∈ graph.itemEdges, edge.sourceItemGid ∈ graph.items.map DecompositionItem.gid
      ∧ edge.targetItemGid ∈ graph.items.map DecompositionItem.gid) :
    graph.checkDecompositionDag = .ok () ↔ BoundedDag graph.itemLinks := by
  refine checkDag_eq_ok hitems fun e he => ?_
  obtain ⟨edge, hedge, rfl⟩ := List.mem_map.mp he
  exact hedges edge hedge

/-- **The validators accept the bounded acyclic graphs**, in whatever order nodes and edges come
and however often an edge is there. -/
theorem GraphDraft.dags_accepted_iff (graph : GraphDraft)
    (hnodes : (graph.nodes.map BusinessNode.gid).Nodup)
    (hedges : ∀ edge ∈ graph.edges, edge.sourceNodeGid ∈ graph.nodes.map BusinessNode.gid
      ∧ edge.targetNodeGid ∈ graph.nodes.map BusinessNode.gid)
    (hitems : (graph.items.map DecompositionItem.gid).Nodup)
    (hlinks : ∀ edge ∈ graph.itemEdges, edge.sourceItemGid ∈ graph.items.map DecompositionItem.gid
      ∧ edge.targetItemGid ∈ graph.items.map DecompositionItem.gid) :
    (graph.checkBusinessDag = .ok ()
      ↔ (∀ edge ∈ graph.edges, edge.sourceNodeGid ≠ edge.targetNodeGid)
        ∧ BoundedDag graph.dependencies)
    ∧ (graph.checkDecompositionDag = .ok ()
      ↔ (∀ edge ∈ graph.itemEdges, edge.sourceItemGid ≠ edge.targetItemGid)
        ∧ BoundedDag graph.itemLinks) := by
  refine ⟨checkBusinessDag_eq_ok hnodes hedges, (checkDecompositionDag_eq_ok hitems hlinks).trans ?_⟩
  constructor
  · intro hdag
    refine ⟨fun edge hedge hself => ?_, hdag⟩
    -- an edge from an item to itself is a cycle
    have hlink : (edge.sourceItemGid, edge.targetItemGid) ∈ graph.itemLinks :=
      List.mem_map_of_mem hedge
    rw [← hself] at hlink
    exact hdag.acyclic _ (.single hlink)
  · intro h
    exact h.2

/-- Where a card is put at first. -/
def origin : Binary64 := .zero

def BusinessNode.card (gid : Str) : BusinessNode where
  gid := gid
  nodeKey := gid
  title := gid
  homeScopeGid := none
  level := 1
  semanticType := .action
  implementation := {}
  xItemKey := ['x']
  yItemKey := ['y']
  objective := []
  ownerRef := []
  inputs := []
  outputs := []
  acceptanceCriteria := []
  governanceStatus := unknownStatus
  position := ⟨.finite origin, .finite origin⟩

/-- An edge from one card to another. -/
def FlowEdge.between (gid source target : Str) : FlowEdge where
  gid := gid
  edgeType := .business
  sourceNodeGid := source
  targetNodeGid := target
  label := []
  relationSemantics := none
  sourcePortKey := none
  targetPortKey := none
  routePoints := []

/-- Two cards with two edges from the first to the second. -/
def GraphDraft.twoCards : GraphDraft where
  workspace := none
  mode := .exploration
  axis := ⟨[['x']], [['y']]⟩
  nodes := [.card ['a'], .card ['b']]
  edges := [.between ['e'] ['a'] ['b'], .between ['f'] ['a'] ['b']]
  items := []
  itemEdges := []
  capabilityBindings := []
  contextBindings := []

theorem GraphDraft.dags_accepted_iff_twoCards :
    BoundedDag twoCards.dependencies ∧ BoundedDag twoCards.itemLinks :=
  have haccepted := dags_accepted_iff twoCards (by decide) (by decide) (by decide) (by decide)
  ⟨(haccepted.1.mp (by rfl)).2, (haccepted.2.mp (by rfl)).2⟩

/-! ## Workspaces of a graph -/

/-- Whether a value can be in a `set`. -/
def hashable : Json → Bool
  | .arr _ | .obj _ => false
  | _ => true

/-- The port keys of some ports are distinct; a key that cannot be hashed is a `TypeError`. -/
def checkPorts (ports : Ports) : Except String Unit := do
  let keys := (ports.map fun port => Json.getD port "key").filter fun key => key.truthy
  require (∀ key ∈ keys, hashable key = true) "TypeError"
  require (keys.Pairwise fun a b => Json.pyEq a b = false) "duplicate port key"

/-- `[implementation, *implementation.alternatives]`. -/
def Implementation.options (implementation : Implementation) : List ImplementationOption :=
  implementation.toImplementationOption :: implementation.alternatives

/-- What `validate_workspace` checks of a node. -/
def checkNode (items : List Str) (node : BusinessNode) : Except String Unit := do
  require (∀ option ∈ node.implementation.options, ∀ gid ∈ option.sourceItemGids, gid ∈ items)
    "implementation item missing"
  checkPorts node.inputs
  checkPorts node.outputs

def portOf (ports : Ports) (key : Str) : Option (List (Str × Json)) :=
  ports.find? fun port => Json.getD port "key" = .str key

/-- What `validate_workspace` checks of a flow edge. -/
def checkEdgePorts (nodes : List BusinessNode) (edge : FlowEdge) : Except String Unit := do
  let source := edge.sourcePortKey.getD []
  let target := edge.targetPortKey.getD []
  require (source = [] ↔ target = []) "both port endpoints required"
  if source = [] then return
  let sourceNode ← found (lookup BusinessNode.gid edge.sourceNodeGid nodes) "KeyError"
  let targetNode ← found (lookup BusinessNode.gid edge.targetNodeGid nodes) "KeyError"
  let sourcePort ← found (portOf sourceNode.outputs source) "port endpoint missing or wrong direction"
  let targetPort ← found (portOf targetNode.inputs target) "port endpoint missing or wrong direction"
  require (∀ key ∈ ["data_type", "unit"],
    Json.pyEq (Json.getD sourcePort key) (Json.getD targetPort key) = true) "port type or unit mismatch"

/-- `validate_workspace` of a graph without a workspace. -/
def checkPlain (items : List Str) (nodes : List BusinessNode) (edges : List FlowEdge) :
    Except String Unit := do
  nodes.forM (checkNode items)
  edges.forM (checkEdgePorts nodes)

/-- `data.update(override.model_dump(exclude_none=True))`. -/
def BusinessNode.overridden (node : BusinessNode) (override : NodeOverride) : BusinessNode :=
  { node with
    title := override.title.getD node.title
    semanticType := override.semanticType.getD node.semanticType
    implementation := override.implementation.getD node.implementation
    objective := override.objective.getD node.objective
    inputs := override.inputs.getD node.inputs
    outputs := override.outputs.getD node.outputs }

/-- What `validate_workspace` checks of a variant: the graph that is left of it. -/
def checkVariant (graph : GraphDraft) (views : List View) (variant : Variant) : Except String Unit := do
  let available := (views.filter fun view => view.taskGid = some variant.taskGid).flatMap
    fun view => view.placements.map Placement.nodeGid
  require ((∀ entry ∈ variant.nodeOverrides, entry.1 ∈ available)
    ∧ ∀ gids ∈ variant.activeNodeGids, ∀ gid ∈ gids, gid ∈ available) "variant node outside task"
  let active := graph.nodes.filter fun node =>
    ¬ (node.gid ∈ available ∧ ∃ gids ∈ variant.activeNodeGids, node.gid ∉ gids)
  let nodes := active.map fun node =>
    match lookup Prod.fst node.gid variant.nodeOverrides with
    | some entry => node.overridden entry.2
    | none => node
  nodes.forM BusinessNode.check
  let gids := nodes.map BusinessNode.gid
  let edges := graph.edges.filter fun edge => edge.sourceNodeGid ∈ gids ∧ edge.targetNodeGid ∈ gids
  checkPlain (graph.items.map DecompositionItem.gid) nodes edges

def checkPlacement (graph : GraphDraft) (view : View) (placement : Placement) : Except String Unit := do
  let node ← found (graph.nodes.find? fun node => node.gid = placement.nodeGid) "placement node missing"
  require (view.viewType = .org → node.homeScopeGid = view.scopeGid) "org placement outside home scope"

/-- What `validate_workspace` checks of a workspace. -/
def checkWorkspace (graph : GraphDraft) (definition : WorkspaceDefinition) : Except String Unit := do
  definition.scopes.forM fun scope =>
    match scope.businessNodeGid.getD [] with
    | [] => .ok ()
    | gid => require (∃ node ∈ lookup BusinessNode.gid gid graph.nodes, node.level = 1)
        "business scope must link to an L1 card"
  require (∀ node ∈ graph.nodes, ∀ gid ∈ node.homeScopeGid, gid ∈ definition.scopes.map Scope.gid)
    "node scope missing"
  definition.views.forM fun view => view.placements.forM (checkPlacement graph view)
  definition.variants.forM (checkVariant graph definition.views)

def GraphDraft.validateWorkspace (graph : GraphDraft) : Except String Unit := do
  let items := graph.items.map DecompositionItem.gid
  graph.nodes.forM (checkNode items)
  graph.workspace.toList.forM (checkWorkspace graph)
  graph.edges.forM (checkEdgePorts graph.nodes)

/-! ## References -/

/-- The checks of `validate_graph_references` before the one of the size. -/
def GraphDraft.checkReferences (graph : GraphDraft) : Except String Unit := do
  let nodes := graph.nodes.map BusinessNode.gid
  require nodes.Nodup "duplicate node gid"
  require (graph.nodes.map BusinessNode.nodeKey).Nodup "duplicate node key"
  require (∀ node ∈ graph.nodes, node.xItemKey ∈ graph.axis.xItems ∧ node.yItemKey ∈ graph.axis.yItems)
    "business node coordinate is outside axis"
  require (∀ edge ∈ graph.edges, edge.sourceNodeGid ∈ nodes ∧ edge.targetNodeGid ∈ nodes)
    "flow edge points to missing node"
  graph.validateWorkspace
  graph.checkBusinessDag
  let items := graph.items.map DecompositionItem.gid
  require items.Nodup "duplicate item gid"
  require (∀ item ∈ graph.items, ∀ gid ∈ item.businessNodeGid, gid ∈ nodes)
    "decomposition item points to missing business node"
  require (∀ edge ∈ graph.itemEdges, edge.sourceItemGid ∈ items ∧ edge.targetItemGid ∈ items)
    "decomposition edge points to missing item"
  graph.checkDecompositionDag
  require (∀ binding ∈ graph.capabilityBindings, ∃ item ∈ graph.items,
    item.gid = binding.sourceItemGid ∧ item.itemType = .taskTool)
    "Capability bindings must originate from a Task Tool"
  require (∀ binding ∈ graph.contextBindings, binding.sourceItemGid ∈ items)
    "context binding points to missing item"
  require (graph.edges.map FlowEdge.gid).Nodup "duplicate flow edge gid"
  require (graph.itemEdges.map DecompositionEdge.gid).Nodup "duplicate decomposition edge gid"
  require (graph.capabilityBindings.map CapabilityBinding.gid).Nodup "duplicate Capability binding gid"
  require (graph.contextBindings.map ContextBinding.gid).Nodup "duplicate context binding gid"

end Ai00.Agent
