import Ai00.Agent.GraphDump

/-! # Revisions of published graphs

`create_organization_revision` reads a published graph, gives its rows new ids (`clone_revision_graph`)
and saves it as the draft of a new version.

`uuid4` is a stream of ids; each call says how far it has been read.
-/

namespace Ai00.Agent

open KeyedRows

/-! ## References -/

/-- What the transactions on graphs raise. -/
inductive GraphError where
  | revisionConflict (message : String)
  | resourceNotAccessible (message : String)
  | untrustedBindingEvidence (message : String)
  | publishBlocked (message : Str)
  | untrustedCapabilityReference
  | valueError (message : String)
  | keyError
  | integrityError

/-- The implementations of a graph, those of its variants too, each with its alternatives. -/
def GraphDraft.implementationOptions (graph : GraphDraft) : List ImplementationOption :=
  let overrides := graph.workspace.toList.flatMap fun definition => definition.variants.flatMap
    fun variant => variant.nodeOverrides.filterMap fun entry => entry.2.implementation
  (graph.nodes.map BusinessNode.implementation ++ overrides).flatMap Implementation.options

/-! ## Revisions of a published graph -/

/-- The id for a key of a dictionary of ids; a key that is not there is a `KeyError`. -/
def idFor (ids : List (Str × Str)) (gid : Str) : Except GraphError Str :=
  found ((lookup Prod.fst gid ids).map Prod.snd) .keyError

section

variable (nodeIds itemIds : List (Str × Str))

def cloneOption (option : ImplementationOption) : Except GraphError ImplementationOption := do
  let sourceItemGids ← option.sourceItemGids.mapM (idFor itemIds)
  return { option with sourceItemGids }

def cloneImplementation (implementation : Implementation) : Except GraphError Implementation := do
  let option ← cloneOption itemIds implementation.toImplementationOption
  let alternatives ← implementation.alternatives.mapM (cloneOption itemIds)
  return { implementation with toImplementationOption := option, alternatives }

def cloneNode (node : BusinessNode) : Except GraphError BusinessNode := do
  let gid ← idFor nodeIds node.gid
  let implementation ← cloneImplementation itemIds node.implementation
  return { node with gid, implementation }

def cloneEdge (edge : FlowEdge × Str) : Except GraphError FlowEdge := do
  let sourceNodeGid ← idFor nodeIds edge.1.sourceNodeGid
  let targetNodeGid ← idFor nodeIds edge.1.targetNodeGid
  return { edge.1 with gid := edge.2, sourceNodeGid, targetNodeGid }

def cloneItem (item : DecompositionItem) : Except GraphError DecompositionItem := do
  let gid ← idFor itemIds item.gid
  let businessNodeGid ←
    match item.businessNodeGid with
    | none | some [] => pure item.businessNodeGid
    | some node => do
      let node ← idFor nodeIds node
      pure (some node)
  return { item with gid, businessNodeGid }

def cloneItemEdge (edge : DecompositionEdge × Str) : Except GraphError DecompositionEdge := do
  let sourceItemGid ← idFor itemIds edge.1.sourceItemGid
  let targetItemGid ← idFor itemIds edge.1.targetItemGid
  return { edge.1 with gid := edge.2, sourceItemGid, targetItemGid }

def cloneCapability (binding : CapabilityBinding × Str) : Except GraphError CapabilityBinding := do
  let sourceItemGid ← idFor itemIds binding.1.sourceItemGid
  return { binding.1 with gid := binding.2, sourceItemGid }

def cloneContext (binding : ContextBinding × Str) : Except GraphError ContextBinding := do
  let sourceItemGid ← idFor itemIds binding.1.sourceItemGid
  return { binding.1 with gid := binding.2, sourceItemGid }

def cloneScope (scope : Scope) : Except GraphError Scope := do
  let businessNodeGid ←
    match scope.businessNodeGid with
    | none | some [] => pure scope.businessNodeGid
    | some node => do
      let node ← idFor nodeIds node
      pure (some node)
  return { scope with businessNodeGid }

def clonePlacement (placement : Placement) : Except GraphError Placement := do
  let nodeGid ← idFor nodeIds placement.nodeGid
  return { placement with nodeGid }

def cloneView (view : View) : Except GraphError View := do
  let placements ← view.placements.mapM (clonePlacement nodeIds)
  return { view with placements }

def cloneOverride (entry : Str × NodeOverride) : Except GraphError (Str × NodeOverride) := do
  let gid ← idFor nodeIds entry.1
  let implementation ← entry.2.implementation.mapM (cloneImplementation itemIds)
  return (gid, { entry.2 with implementation })

def cloneVariant (variant : Variant) : Except GraphError Variant := do
  let activeNodeGids ← variant.activeNodeGids.mapM fun gids => gids.mapM (idFor nodeIds)
  let nodeOverrides ← variant.nodeOverrides.mapM (cloneOverride nodeIds itemIds)
  return { variant with activeNodeGids, nodeOverrides }

def cloneWorkspace (definition : WorkspaceDefinition) : Except GraphError WorkspaceDefinition := do
  let scopes ← definition.scopes.mapM (cloneScope nodeIds)
  let views ← definition.views.mapM (cloneView nodeIds)
  let variants ← definition.variants.mapM (cloneVariant nodeIds itemIds)
  return { definition with scopes, views, variants }

end

section

variable (repr : Binary64 → Str) (uuid : ℕ → Str)

def withIds {α : Type} (drawn : ℕ) (values : List α) : List (α × Str) :=
  values.zipIdx.map fun (a, i) => (a, uuid (drawn + i))

/-- `clone_revision_graph`, which reads the stream from `drawn` on. -/
def cloneRevisionGraph (drawn : ℕ) (graph : GraphDraft) : Except GraphError GraphDraft := do
  let nodeIds := withIds uuid drawn (graph.nodes.map BusinessNode.gid)
  let drawn := drawn + graph.nodes.length
  let itemIds := withIds uuid drawn (graph.items.map DecompositionItem.gid)
  let drawn := drawn + graph.items.length
  let nodes ← graph.nodes.mapM (cloneNode nodeIds itemIds)
  let edges ← (withIds uuid drawn graph.edges).mapM (cloneEdge nodeIds)
  let drawn := drawn + graph.edges.length
  let items ← graph.items.mapM (cloneItem nodeIds itemIds)
  let itemEdges ← (withIds uuid drawn graph.itemEdges).mapM (cloneItemEdge itemIds)
  let drawn := drawn + graph.itemEdges.length
  let capabilityBindings ← (withIds uuid drawn graph.capabilityBindings).mapM (cloneCapability itemIds)
  let drawn := drawn + graph.capabilityBindings.length
  let contextBindings ← (withIds uuid drawn graph.contextBindings).mapM (cloneContext itemIds)
  let workspace ← graph.workspace.mapM (cloneWorkspace nodeIds itemIds)
  let clone : GraphDraft := { graph with
    workspace, nodes, edges, items, itemEdges, capabilityBindings, contextBindings }
  translate GraphError.valueError (clone.validate repr)
  return clone

end

end Ai00.Agent
