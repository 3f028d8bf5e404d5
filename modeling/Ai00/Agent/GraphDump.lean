import Ai00.Agent.GraphDraft
import Ai00.Json.Text

/-! # The size of a graph

`model_dump(mode="json")` of a graph, and with it the last check of `GraphDraft`: the text of the graph
has at most `MAX_GRAPH_JSON_BYTES` bytes. `validate` is everything that `GraphDraft` validates. How a
float is printed is a parameter.
-/

namespace Ai00.Agent

/-! ## Dumps -/

/-- `null` for `None`. -/
def dumpOption {α : Type} (dump : α → Json) : Option α → Json
  | none => .null
  | some a => dump a

def dumpList {α : Type} (dump : α → Json) (as : List α) : Json := .arr (as.map dump)

/-- A dictionary whose values are dumped. -/
def dumpDict {α : Type} (dump : α → Json) (entries : List (Str × α)) : Json :=
  .obj (entries.map fun entry => (entry.1, dump entry.2))

/-- An object of named fields. -/
def fields (entries : List (String × Json)) : Json :=
  .obj (entries.map fun entry => (entry.1.toList, entry.2))

def literal (s : String) : Json := .str s.toList

def ImplementationKind.text : ImplementationKind → String
  | .unset => "unset" | .human => "human" | .program => "program" | .agent => "agent"

def ImplementationStatus.text : ImplementationStatus → String
  | .notStarted => "not_started" | .developing => "developing" | .active => "active"
  | .retired => "retired"

def Coordination.text : Coordination → String
  | .single => "single" | .parallel => "parallel" | .transition => "transition"
  | .humanReview => "human_review"

def SemanticType.text : SemanticType → String
  | .target => "target" | .decision => "decision" | .action => "action" | .object => "object"
  | .measurement => "measurement" | .compare => "compare" | .disturbance => "disturbance"
  | .uncertainty => "uncertainty"

def RelationType.text : RelationType → String
  | .sequence => "sequence" | .data => "data" | .control => "control" | .measurement => "measurement"
  | .feedback => "feedback" | .feedforward => "feedforward" | .disturbance => "disturbance"
  | .association => "association"

def ViewType.text : ViewType → String
  | .org => "org" | .task => "task"

def AxisMode.text : AxisMode → String
  | .inherited => "inherited" | .independent => "independent" | .overview => "overview"

def GraphMode.text : GraphMode → String
  | .exploration => "exploration" | .fixed => "fixed"

def EdgeType.text : EdgeType → String
  | .business => "business" | .data => "data" | .command => "command" | .semantic => "semantic"

def ItemType.text : ItemType → String
  | .largeFlow => "large_flow" | .mediumFlow => "medium_flow"
  | .standardWorkflow => "standard_workflow" | .skill => "skill" | .workflowNode => "workflow_node"
  | .taskTool => "task_tool" | .humanTask => "human_task" | .humanApproval => "human_approval"

def ItemRelation.text : ItemRelation → String
  | .contains => "contains" | .realizedBy => "realized_by" | .guides => "guides"
  | .sequence => "sequence" | .implements => "implements"

def RefType.text : RefType → String
  | .data => "data" | .rule => "rule" | .knowledge => "knowledge" | .ontology => "ontology"
  | .code => "code"

/-- The fields of an implementation that an alternative has too. -/
def ImplementationOption.entries (option : ImplementationOption) : List (String × Json) :=
  [("kind", literal option.kind.text), ("label", .str option.label),
    ("status", literal option.status.text), ("llm", .bool option.llm),
    ("skill_gid", dumpOption .str option.skillGid),
    ("skill_version", dumpOption .str option.skillVersion),
    ("source_item_gids", dumpList .str option.sourceItemGids)]

def ImplementationOption.dump (option : ImplementationOption) : Json := fields option.entries

def Implementation.dump (implementation : Implementation) : Json :=
  fields (implementation.toImplementationOption.entries ++
    [("alternatives", dumpList ImplementationOption.dump implementation.alternatives),
      ("coordination", literal implementation.coordination.text)])

def Scope.dump (scope : Scope) : Json :=
  fields [("gid", .str scope.gid), ("title", .str scope.title),
    ("parent_gid", dumpOption .str scope.parentGid),
    ("business_node_gid", dumpOption .str scope.businessNodeGid)]

def Axis.dump (axis : Axis) : Json :=
  fields [("x_items", dumpList .str axis.xItems), ("y_items", dumpList .str axis.yItems),
    ("column_width", .int axis.columnWidth), ("row_height", .int axis.rowHeight)]

def Placement.dump (placement : Placement) : Json :=
  fields [("node_gid", .str placement.nodeGid), ("x_item_key", .str placement.xItemKey),
    ("y_item_key", .str placement.yItemKey), ("slot_x", dumpOption .int placement.slotX),
    ("slot_y", dumpOption .int placement.slotY)]

def View.dump (view : View) : Json :=
  fields [("gid", .str view.gid), ("view_type", literal view.viewType.text),
    ("axis_mode", literal view.axisMode.text), ("scope_gid", dumpOption .str view.scopeGid),
    ("task_gid", dumpOption .str view.taskGid), ("axis", view.axis.dump),
    ("placements", dumpList Placement.dump view.placements)]

def dumpPorts (ports : Ports) : Json := dumpList .obj ports

def NodeOverride.dump (override : NodeOverride) : Json :=
  fields [("title", dumpOption .str override.title),
    ("semantic_type", dumpOption (fun t => literal t.text) override.semanticType),
    ("implementation", dumpOption Implementation.dump override.implementation),
    ("objective", dumpOption .str override.objective),
    ("inputs", dumpOption dumpPorts override.inputs),
    ("outputs", dumpOption dumpPorts override.outputs)]

def Variant.dump (variant : Variant) : Json :=
  fields [("gid", .str variant.gid), ("task_gid", .str variant.taskGid),
    ("stage_ref", .str variant.stageRef), ("vehicle_ref", dumpOption .str variant.vehicleRef),
    ("version", .str variant.version), ("base_version", dumpOption .str variant.baseVersion),
    ("data_snapshot_ref", dumpOption .str variant.dataSnapshotRef),
    ("active_node_gids", dumpOption (dumpList .str) variant.activeNodeGids),
    ("node_overrides", dumpDict NodeOverride.dump variant.nodeOverrides)]

def WorkspaceDefinition.dump (definition : WorkspaceDefinition) : Json :=
  fields [("schema_version", .int 1), ("scopes", dumpList Scope.dump definition.scopes),
    ("tasks", dumpList Scope.dump definition.tasks), ("views", dumpList View.dump definition.views),
    ("variants", dumpList Variant.dump definition.variants),
    ("stages", dumpList .str definition.stages)]

def Point.dump (point : Point) : Json := fields [("x", .float point.x), ("y", .float point.y)]

def BusinessNode.dump (node : BusinessNode) : Json :=
  fields [("gid", .str node.gid), ("node_key", .str node.nodeKey), ("title", .str node.title),
    ("home_scope_gid", dumpOption .str node.homeScopeGid), ("level", .int node.level),
    ("semantic_type", literal node.semanticType.text), ("implementation", node.implementation.dump),
    ("x_item_key", .str node.xItemKey), ("y_item_key", .str node.yItemKey),
    ("objective", .str node.objective), ("owner_ref", .str node.ownerRef),
    ("inputs", dumpPorts node.inputs), ("outputs", dumpPorts node.outputs),
    ("acceptance_criteria", dumpList .str node.acceptanceCriteria),
    ("governance_status", dumpDict (dumpOption .bool) node.governanceStatus),
    ("position", node.position.dump)]

def FlowEdge.dump (edge : FlowEdge) : Json :=
  fields [("gid", .str edge.gid), ("edge_type", literal edge.edgeType.text),
    ("source_node_gid", .str edge.sourceNodeGid), ("target_node_gid", .str edge.targetNodeGid),
    ("label", .str edge.label),
    ("relation_semantics", dumpOption (fun t => literal t.text) edge.relationSemantics),
    ("source_port_key", dumpOption .str edge.sourcePortKey),
    ("target_port_key", dumpOption .str edge.targetPortKey),
    ("route_points", dumpList Point.dump edge.routePoints)]

def DecompositionItem.dump (item : DecompositionItem) : Json :=
  fields [("gid", .str item.gid), ("item_type", literal item.itemType.text),
    ("title", .str item.title), ("business_node_gid", dumpOption .str item.businessNodeGid),
    ("sequence_no", .int item.sequenceNo), ("config", .obj item.config)]

def DecompositionEdge.dump (edge : DecompositionEdge) : Json :=
  fields [("gid", .str edge.gid), ("source_item_gid", .str edge.sourceItemGid),
    ("target_item_gid", .str edge.targetItemGid), ("relation_type", literal edge.relationType.text),
    ("sequence_no", .int edge.sequenceNo)]

def CapabilityBinding.dump (binding : CapabilityBinding) : Json :=
  fields [("gid", .str binding.gid), ("source_item_gid", .str binding.sourceItemGid),
    ("capability_version_gid", .str binding.capabilityVersionGid), ("purpose", .str binding.purpose),
    ("input_mapping", .obj binding.inputMapping), ("output_mapping", .obj binding.outputMapping),
    ("authorization_scope", .obj binding.authorizationScope),
    ("timeout_seconds", .int binding.timeoutSeconds), ("retry_policy", .obj binding.retryPolicy),
    ("fallback_policy", .obj binding.fallbackPolicy), ("evidence_policy", .obj binding.evidencePolicy)]

def ContextBinding.dump (binding : ContextBinding) : Json :=
  fields [("gid", .str binding.gid), ("source_item_gid", .str binding.sourceItemGid),
    ("ref_type", literal binding.refType.text), ("ref_gid", .str binding.refGid),
    ("ref_version", dumpOption .str binding.refVersion),
    ("snapshot_gid", dumpOption .str binding.snapshotGid), ("purpose", .str binding.purpose)]

def AxisView.dump (axis : AxisView) : Json :=
  fields [("x_items", dumpList .str axis.xItems), ("y_items", dumpList .str axis.yItems)]

/-- `model_dump(mode="json")`. -/
def GraphDraft.dump (graph : GraphDraft) : Json :=
  fields [("workspace", dumpOption WorkspaceDefinition.dump graph.workspace),
    ("mode", literal graph.mode.text), ("axis", graph.axis.dump),
    ("nodes", dumpList BusinessNode.dump graph.nodes), ("edges", dumpList FlowEdge.dump graph.edges),
    ("items", dumpList DecompositionItem.dump graph.items),
    ("item_edges", dumpList DecompositionEdge.dump graph.itemEdges),
    ("capability_bindings", dumpList CapabilityBinding.dump graph.capabilityBindings),
    ("context_bindings", dumpList ContextBinding.dump graph.contextBindings)]

/-! ## Validation -/

section

variable (repr : Binary64 → Str)

def textSize (value : Json) : ℕ := (utf8 (Json.dumps repr value)).length

def maxGraphJsonBytes : ℕ := 2000000

/-- What `GraphDraft` validates. -/
def GraphDraft.validate (graph : GraphDraft) : Except String Unit := do
  graph.checkFields
  graph.checkReferences
  require (textSize repr graph.dump ≤ maxGraphJsonBytes) "graph serialized payload exceeds limit"

end

end Ai00.Agent
