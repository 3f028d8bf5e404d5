import Ai00.Simulation.PlmxmlDocument

/-! # Projecting a PLMXML document

The rest of `parse_plmxml` in `domain/plmxml_projection.py`: the parents of the instances, the paths
that occurrences supply, one projected instance for each instance that was read, and one for each
occurrence that the viewer names by a path of labels. `projectDocument` takes the steps in the order
of the source, so that the first check that fails is the one reported.
-/

namespace Ai00.Simulation

open KeyedRows

/-! ## Data -/

structure PlmxmlInstance where
  instanceId : Str
  name : Str
  bomLine : Str
  itemId : Str
  revision : Str
  partRef : Str
  parentInstanceId : Option Str
  parentPath : List Str
  applicationLabel : Str
  catiaOccurrenceName : Str
  transformRaw : List Str
  normalizedTransform : List Str
  representationLocations : List Str
  pdmOccurrenceUid : Str := []
  absoluteOccurrenceUid : Str := []
  cloneStableChain : List Str := []
  occurrencePath : List Str := []

structure PlmxmlParseStats where
  totalBytes : ℕ
  elementCount : ℕ
  referenceCount : ℕ
  maximumDepth : ℕ

structure PlmxmlProjection where
  schemaVersion : Str
  author : Str
  rootInstanceIds : List Str
  instances : List PlmxmlInstance
  algorithmVersion : Str
  stats : PlmxmlParseStats

/-- `values.get(key, default)` on a dictionary of its pairs. -/
def entry {α : Type} (key : Str) (values : List (Str × α)) : Option α :=
  (lookup Prod.fst key values).map Prod.snd

/-- `values.get(title, "")`. -/
def userValue (title : String) (values : List (Str × Str)) : Str :=
  (entry title.toList values).getD []

/-! ## Parents -/

section

variable (document : PlmxmlDocument)

/-- `parents.setdefault(child_id, parent_id)` and the check of what it returns. -/
def setParent (parentId : Str) (parents : List (Str × Str)) (childId : Str) :
    Except PlmxmlError (List (Str × Str)) := do
  require (childId ∈ document.instances.map ProductInstance.id) (.structure "unresolved_instance_ref")
  match entry childId parents with
  | none => return parents ++ [(childId, parentId)]
  | some prior =>
    require (prior = parentId) (.structure "ambiguous_parent_ref")
    return parents

def setParents (parents : List (Str × Str)) (instance' : ProductInstance) :
    Except PlmxmlError (List (Str × Str)) := do
  let revision ← found (lookup ProductRevisionView.id instance'.partRef document.revisions)
    (.structure "unresolved_part_ref")
  revision.instanceRefs.foldlM (setParent document instance'.id) parents

def resolveParents : Except PlmxmlError (List (Str × Str)) :=
  document.instances.foldlM (setParents document) []

/-- The loop over `inbound_counts`; what was counted so far is listed. -/
def checkInbound (limits : PlmxmlLimits) : Except PlmxmlError (List Str) :=
  (document.revisions.flatMap ProductRevisionView.instanceRefs).foldlM (fun counted childId => do
    require (((counted ++ [childId]).count childId : ℤ) ≤ limits.maxInboundReferences)
      (.limit "max_inbound_references")
    return counted ++ [childId]) []

end

/-! ## Occurrences -/

/-- `occurrence_values`, `occurrence_paths` and `occurrence_metadata`, by the last instance of the
path. -/
structure OccurrenceTable where
  values : List (Str × Str) := []
  paths : List (Str × List Str) := []
  metadata : List (Str × Occurrence) := []

/-- One occurrence; one without references is passed over. -/
def addOccurrence (document : PlmxmlDocument) (table : OccurrenceTable) (occurrence : Occurrence) :
    Except PlmxmlError OccurrenceTable := do
  match occurrence.instanceRefs.getLast? with
  | none => return table
  | some leaf =>
    require (∀ item ∈ occurrence.instanceRefs, item ∈ document.instances.map ProductInstance.id)
      (.structure "unresolved_occurrence_ref")
    let catiaName := userValue "catiaOccurrenceName" occurrence.userValues
    return {
      values := if catiaName = [] then table.values
        else upsert Prod.fst (leaf, catiaName) table.values
      paths := upsert Prod.fst (leaf, occurrence.instanceRefs.dropLast) table.paths
      metadata := upsert Prod.fst (leaf, occurrence) table.metadata }

def collectOccurrences (document : PlmxmlDocument) : Except PlmxmlError OccurrenceTable :=
  document.occurrences.foldlM (addOccurrence document) {}

/-- The loop of `parent_path`, after `result`. The guard on `seen` ends it before `fuel` does when
`fuel` covers the parents (`climb_eq_ok_iff`). -/
def climb (parents : List (Str × Str)) : ℕ → List Str → Str → List Str → Except PlmxmlError (List Str)
  | fuel, seen, current, result =>
    match entry current parents with
    | none => .ok result.reverse
    | some parent =>
      if parent ∈ seen then .error (.structure "cyclic_instance_ref")
      else
        match fuel with
        | 0 => .error (.structure "cyclic_instance_ref")
        | fuel + 1 => climb parents fuel (parent :: seen) parent (result ++ [parent])

def parentPath (parents : List (Str × Str)) (table : OccurrenceTable) (instanceId : Str) :
    Except PlmxmlError (List Str) :=
  match entry instanceId table.paths with
  | some path => .ok path
  | none => climb parents parents.length [instanceId] instanceId []

def projectInstance (document : PlmxmlDocument) (parents : List (Str × Str)) (table : OccurrenceTable)
    (instance' : ProductInstance) : Except PlmxmlError PlmxmlInstance := do
  let revision ← found (lookup ProductRevisionView.id instance'.partRef document.revisions)
    (.structure "unresolved_part_ref")
  let occurrenceValues :=
    ((entry instance'.id table.metadata).map Occurrence.userValues).getD []
  let path ← parentPath parents table instance'.id
  let normalized ← instance'.transform.mapM normalizeNumber
  return {
    instanceId := instance'.id
    name := instance'.name
    bomLine := bomLine instance'.name
    itemId := userValue "__PLM_ITEM_ID" revision.userValues
    revision := userValue "__PLM_REVISION_ID" revision.userValues
    partRef := instance'.partRef
    parentInstanceId := entry instance'.id parents
    parentPath := path
    applicationLabel := instance'.applicationLabel
    catiaOccurrenceName := (entry instance'.id table.values).getD []
    transformRaw := instance'.transform
    normalizedTransform := normalized
    representationLocations := revision.representations.filter (· ≠ [])
    pdmOccurrenceUid := userValue "__PLM_OCC_PDM_UID" occurrenceValues
    absoluteOccurrenceUid := userValue "__PLM_ABSOCC_UID" occurrenceValues }

/-! ## The current state of the viewer -/

def viewerPath (occurrence : Occurrence) : List Str :=
  currentStatePath ((entry "__TC-VIS_APP".toList occurrence.applicationRefs).getD [])

def currentState (document : PlmxmlDocument) : List (List Str × Occurrence) :=
  (document.occurrences.map fun occurrence => (viewerPath occurrence, occurrence)).filter
    fun placed => placed.1 ≠ []

/-- The order of the paths: by length, then by the labels, then by the id. -/
def comesBefore (a b : List Str × Occurrence) : Prop :=
  a.1.length < b.1.length ∨ a.1.length = b.1.length ∧ (a.1 < b.1 ∨ a.1 = b.1 ∧ a.2.id ≤ b.2.id)

instance : DecidableRel comesBefore := fun _ _ => inferInstanceAs (Decidable (_ ∨ _))

/-- `root_by_bom_line`; of several roots of one line the last one counts. -/
def rootByBomLine (document : PlmxmlDocument) (projected : List PlmxmlInstance) :
    List PlmxmlInstance :=
  upsertAll PlmxmlInstance.bomLine
    (projected.filter fun item => item.instanceId ∈ refs document.rootRefs) []

/-- The variables of the loop over the sorted paths. -/
structure Placement where
  projected : List PlmxmlInstance
  pathToInstance : List (List Str × Str) := []
  pdmUids : List Str := []

/-- `path_to_instance.get(path)`. -/
def Placement.at (s : Placement) (path : List Str) : Option Str :=
  (lookup Prod.fst path s.pathToInstance).map Prod.snd

def placeBelow (limits : PlmxmlLimits) (root : PlmxmlInstance) (path : List Str)
    (occurrence : Occurrence) (s : Placement) : Except PlmxmlError Placement := do
  let values := occurrence.userValues
  let references := occurrence.applicationRefs
  let parentId ← found (if path.length = 2 then some root.instanceId else s.at path.dropLast)
    (.structure "unresolved_current_state_parent")
  let ancestors ← (List.range' 2 (path.length - 2)).mapM fun depthIndex =>
    found (s.at (path.take depthIndex)) (.structure "unresolved_current_state_parent")
  let label := path.getLastD []
  let instanceId := "occ:".toList ++ occurrence.id
  let projected := s.projected ++ [{
    instanceId
    name := label
    bomLine := bomLine label
    itemId := (itemRevisionFromPath label).1
    revision := (itemRevisionFromPath label).2
    partRef := []
    parentInstanceId := some parentId
    parentPath := root.instanceId :: ancestors
    applicationLabel := (entry "__TC-VIS_APP".toList references).getD []
    catiaOccurrenceName := userValue "catiaOccurrenceName" values
    transformRaw := []
    normalizedTransform := []
    representationLocations := []
    pdmOccurrenceUid := userValue "__PLM_OCC_PDM_UID" values
    absoluteOccurrenceUid := userValue "__PLM_ABSOCC_UID" values
    cloneStableChain := cloneStableChain ((entry "__TC-VIS_NGID".toList references).getD [])
    occurrencePath := path }]
  require (projected.length ≤ limits.maxProjectedInstances) (.limit "max_projected_instances")
  return { s with projected, pathToInstance := s.pathToInstance ++ [(path, instanceId)] }

/-- One path of the current state. -/
def place (limits : PlmxmlLimits) (roots : List PlmxmlInstance) (s : Placement)
    (placed : List Str × Occurrence) : Except PlmxmlError Placement := do
  let (path, occurrence) := placed
  require (s.at path = none) (.structure "duplicate_occurrence_path")
  let pdmUid := userValue "__PLM_OCC_PDM_UID" occurrence.userValues
  require (pdmUid = [] ∨ pdmUid ∉ s.pdmUids) (.structure "duplicate_pdm_occurrence_uid")
  let s := if pdmUid = [] then s else { s with pdmUids := pdmUid :: s.pdmUids }
  let root ← found (lookup PlmxmlInstance.bomLine (bomLine (path.headD [])) roots)
    (.structure "unresolved_current_state_root")
  if path.length = 1 then
    return { s with pathToInstance := s.pathToInstance ++ [(path, root.instanceId)] }
  placeBelow limits root path occurrence s

/-- The instances of the current state, after those that were read. -/
def placeAll (limits : PlmxmlLimits) (document : PlmxmlDocument) (projected : List PlmxmlInstance) :
    Except PlmxmlError (List PlmxmlInstance) := do
  let s ← ((currentState document).insertionSort comesBefore).foldlM
    (place limits (rootByBomLine document projected)) { projected }
  return s.projected

/-! ## The projection -/

/-- What `parse_plmxml` makes of a document that was read. -/
def projectDocument (limits : PlmxmlLimits) (document : PlmxmlDocument) :
    Except PlmxmlError (List PlmxmlInstance) := do
  let parents ← resolveParents document
  let _ ← checkInbound document limits
  let table ← collectOccurrences document
  let projected ← document.instances.mapM (projectInstance document parents table)
  placeAll limits document projected

def parsePlmxml (limits : PlmxmlLimits) (algorithmVersion : Str) (events : List PlmxmlEvent) :
    Except PlmxmlError PlmxmlProjection := do
  let s ← readEvents limits events
  let instances ← projectDocument limits s.document
  return {
    schemaVersion := s.document.schemaVersion
    author := s.document.author
    rootInstanceIds := refs s.document.rootRefs
    instances
    algorithmVersion
    stats := {
      totalBytes := s.totalBytes
      elementCount := s.elementCount
      referenceCount := s.referenceCount
      maximumDepth := s.maximumDepth } }

end Ai00.Simulation
