import Ai00.Basic.KeyedRows
import Ai00.Basic.Checks
import Ai00.Json.Builtins

/-! # Business workspaces

The contracts of `orchestration/workspace_model.py`: scopes and tasks in hierarchies, views that place
nodes on axes, and variants of a task. `check` is what the models validate, one error for the first
thing that is wrong; the bound that a field fails is named by the field.
-/

namespace Ai00.Agent

open KeyedRows

/-! ## Data -/

inductive ImplementationKind where
  | unset | human | program | agent

inductive ImplementationStatus where
  | notStarted | developing | active | retired

inductive Coordination where
  | single | parallel | transition | humanReview

inductive SemanticType where
  | target | decision | action | object | measurement | compare | disturbance | uncertainty

inductive RelationType where
  | sequence | data | control | measurement | feedback | feedforward | disturbance | association
deriving DecidableEq

inductive ViewType where
  | org | task
deriving DecidableEq

inductive AxisMode where
  | inherited | independent | overview
deriving DecidableEq

structure ImplementationOption where
  kind : ImplementationKind := .unset
  label : Str := []
  status : ImplementationStatus := .notStarted
  llm : Bool := false
  skillGid : Option Str := none
  skillVersion : Option Str := none
  sourceItemGids : List Str := []

structure Implementation extends ImplementationOption where
  alternatives : List ImplementationOption := []
  coordination : Coordination := .single

structure Scope where
  gid : Str
  title : Str
  parentGid : Option Str := none
  businessNodeGid : Option Str := none

structure Axis where
  xItems : List Str
  yItems : List Str
  columnWidth : ℤ := 230
  rowHeight : ℤ := 150

structure Placement where
  nodeGid : Str
  xItemKey : Str
  yItemKey : Str
  slotX : Option ℤ := none
  slotY : Option ℤ := none

structure View where
  gid : Str
  viewType : ViewType
  axisMode : AxisMode := .inherited
  scopeGid : Option Str := none
  taskGid : Option Str := none
  axis : Axis
  placements : List Placement := []

/-- The ports of a node, `list[dict[str, Any]]`. -/
abbrev Ports := List (List (Str × Json))

structure NodeOverride where
  title : Option Str := none
  semanticType : Option SemanticType := none
  implementation : Option Implementation := none
  objective : Option Str := none
  inputs : Option Ports := none
  outputs : Option Ports := none

structure Variant where
  gid : Str
  taskGid : Str
  stageRef : Str
  vehicleRef : Option Str := none
  version : Str := "1".toList
  baseVersion : Option Str := none
  dataSnapshotRef : Option Str := none
  activeNodeGids : Option (List Str) := none
  nodeOverrides : List (Str × NodeOverride) := []

structure WorkspaceDefinition where
  scopes : List Scope := []
  tasks : List Scope := []
  views : List View := []
  variants : List Variant := []
  stages : List Str := []

/-! ## Fields -/

/-- A text of `lo` to `hi` code points. -/
def sized (lo hi : ℕ) (s : Str) : Prop := lo ≤ s.length ∧ s.length ≤ hi

instance (lo hi : ℕ) (s : Str) : Decidable (sized lo hi s) := inferInstanceAs (Decidable (_ ∧ _))

/-- A number within bounds. -/
def within (lo hi n : ℤ) : Prop := lo ≤ n ∧ n ≤ hi

instance (lo hi n : ℤ) : Decidable (within lo hi n) := inferInstanceAs (Decidable (_ ∧ _))

def ImplementationOption.check (option : ImplementationOption) : Except String Unit := do
  require (option.label.length ≤ 128) "label"
  require (option.sourceItemGids.length ≤ 100) "source_item_gids"

def Implementation.check (implementation : Implementation) : Except String Unit := do
  implementation.toImplementationOption.check
  require (implementation.alternatives.length ≤ 16) "alternatives"
  implementation.alternatives.forM ImplementationOption.check

def Scope.check (scope : Scope) : Except String Unit := do
  require (sized 1 128 scope.gid) "gid"
  require (sized 1 255 scope.title) "title"

/-- `unique_labels` on one axis. -/
def uniqueLabels (values : List Str) : Prop :=
  values.Nodup ∧ ∀ value ∈ values, strip value ≠ [] ∧ value.length ≤ 128

instance (values : List Str) : Decidable (uniqueLabels values) := inferInstanceAs (Decidable (_ ∧ _))

def Axis.check (axis : Axis) : Except String Unit := do
  require (axis.xItems.length ≤ 64) "x_items"
  require (1 ≤ axis.yItems.length ∧ axis.yItems.length ≤ 64) "y_items"
  require (within 180 600 axis.columnWidth) "column_width"
  require (within 120 600 axis.rowHeight) "row_height"
  require (uniqueLabels axis.xItems ∧ uniqueLabels axis.yItems) "axis labels must be unique and nonempty"

def Placement.check (placement : Placement) : Except String Unit := do
  require (∀ slot ∈ placement.slotX, within (-1000) 1000 slot) "slot_x"
  require (∀ slot ∈ placement.slotY, within (-1000) 1000 slot) "slot_y"
  -- `paired_slots`
  require (placement.slotX.isNone = placement.slotY.isNone) "both local slot coordinates required"

def View.checkPlacements (view : View) : Except String Unit := do
  require (view.placements.length ≤ 500) "placements"
  view.placements.forM Placement.check

def NodeOverride.check (override : NodeOverride) : Except String Unit :=
  (override.implementation.toList).forM Implementation.check

def Variant.check (variant : Variant) : Except String Unit := do
  require (sized 1 128 variant.stageRef) "stage_ref"
  require (∀ gids ∈ variant.activeNodeGids, gids.length ≤ 500) "active_node_gids"
  variant.nodeOverrides.forM fun entry => entry.2.check

/-! ## Hierarchies -/

/-- The walk from a scope to its root; `steps` is how many more scopes may be seen. -/
def walkHierarchy (entries : List Scope) : ℕ → List Str → Option Scope → Except String Unit
  | _, _, none => .ok ()
  | 0, _, some _ => .error "hierarchy cycle or excessive depth"
  | steps + 1, seen, some current => do
    require (current.gid ∉ seen) "hierarchy cycle or excessive depth"
    let parent := current.parentGid.bind fun gid => lookup Scope.gid gid entries
    require (current.parentGid.getD [] = [] ∨ parent ≠ none) "missing hierarchy parent"
    walkHierarchy entries steps (current.gid :: seen) parent

def checkHierarchy (entries : List Scope) : Except String Unit := do
  require (entries.map Scope.gid).Nodup "duplicate hierarchy gid"
  entries.forM fun item => walkHierarchy entries 32 [] (some item)

/-! ## Views and variants -/

/-- `['总览']`, the axis of an overview. -/
def overviewItems : List Str := ["总览".toList]

/-- What a view must be besides its axis, given the identities of the views before it. -/
def checkIdentity (definition : WorkspaceDefinition)
    (identities : List (ViewType × Option Str × Option Str)) (view : View) :
    Except String (List (ViewType × Option Str × Option Str)) := do
  let key := (view.viewType, view.scopeGid, view.taskGid)
  require (key ∉ identities) "duplicate view identity"
  require (¬ (view.viewType = .org ∧ (view.scopeGid ∉ definition.scopes.map (some ·.gid)
    ∨ view.taskGid.getD [] ≠ []))) "invalid org view"
  require (¬ (view.viewType = .task ∧ (view.taskGid ∉ definition.tasks.map (some ·.gid)
    ∨ view.scopeGid.getD [] ≠ []))) "invalid task view"
  require (view.placements.map Placement.nodeGid).Nodup "duplicate placement"
  require ((view.placements.filter fun p => p.slotX ≠ none).map fun p =>
    (p.xItemKey, p.yItemKey, p.slotX, p.slotY)).Nodup "duplicate local slot"
  return identities ++ [key]

def checkViewAxis (view : View) : Except String Unit := do
  if view.axisMode = .overview then
    require (view.viewType = .org ∧ view.axis.xItems = [])
      "overview must be an org view without horizontal stages"
  else require (view.axis.xItems ≠ []) "horizontal axis required"
  let xs := if view.axisMode = .overview then overviewItems else view.axis.xItems
  require (∀ p ∈ view.placements, p.xItemKey ∈ xs ∧ p.yItemKey ∈ view.axis.yItems)
    "placement outside axis"

/-- The loop of `relationships` over the views. -/
def checkView (definition : WorkspaceDefinition)
    (identities : List (ViewType × Option Str × Option Str)) (view : View) :
    Except String (List (ViewType × Option Str × Option Str)) := do
  let identities ← checkIdentity definition identities view
  checkViewAxis view
  return identities

/-- `WorkspaceDefinition`, with `relationships`. -/
def WorkspaceDefinition.check (definition : WorkspaceDefinition) : Except String Unit := do
  require (definition.scopes.length ≤ 500) "scopes"
  require (definition.tasks.length ≤ 500) "tasks"
  require (definition.views.length ≤ 1000) "views"
  require (definition.variants.length ≤ 1000) "variants"
  require (definition.stages.length ≤ 64) "stages"
  (definition.scopes ++ definition.tasks).forM Scope.check
  definition.views.forM View.checkPlacements
  definition.views.forM fun view => view.axis.check
  definition.variants.forM Variant.check
  checkHierarchy definition.scopes
  checkHierarchy definition.tasks
  require (definition.views.map View.gid).Nodup "duplicate view gid"
  let _ ← definition.views.foldlM (checkView definition) []
  require (definition.variants.map Variant.gid).Nodup "duplicate variant"
  require (∀ variant ∈ definition.variants, variant.taskGid ∈ definition.tasks.map Scope.gid)
    "variant task missing"

end Ai00.Agent
