import Ai00.Basic.KeyedRows
import Ai00.Basic.Stateful
import Ai00.Basic.Checks
import Ai00.Basic.Successive

/-! # Models observed in a live document

`project_model_insertions` of `domain/live_document_import.py`. An observation lists the model
instances that a native document shows; the projection keeps one insertion for each native instance
and the insertions that a complete observation missed.

Times are instants. The ids of `uuid4` are a stream that each new insertion reads one step further,
also in an observation that is refused later.
-/

namespace Ai00.Simulation

open KeyedRows Stateful

/-! ## Data -/

/-- A `datetime`, of which an aware one names an instant. -/
inductive DateTime where
  | naive
  | aware (utc : ℤ)

def time (error : String) : DateTime → Except String ℤ
  | .naive => .error error
  | .aware utc => .ok utc

structure ModelObservation where
  nativeInstanceId : Str
  sourceKind : Str
  sourceIdentity : Str
  displayName : Str
  contentFingerprint : Option Str
  insertedAt : Option DateTime

structure ModelInsertion where
  nativeInstanceId : Str
  sourceKind : Str
  sourceIdentity : Str
  displayName : Str
  contentFingerprint : Option Str
  insertedAt : Option ℤ
  insertionInstanceId : Str
  firstSeenAt : ℤ

structure ModelImportProjection where
  documentSession : Str
  observedAt : ℤ
  complete : Bool
  instances : List ModelInsertion
  unobservedInstanceIds : List Str
  missingFromCompleteObservation : List Str

/-- The arguments of `project_model_insertions` besides the previous projection. -/
structure DocumentObservation where
  documentSession : Str
  observedAt : DateTime
  models : List ModelObservation
  complete : Bool

/-! ## Projection -/

section

variable (uuid : ℕ → Str)

/-- What is checked of a model by itself; its time of insertion where it has one. -/
def checkModel (observedAt : ℤ) (seen : List Str) (model : ModelObservation) :
    Except String (Option ℤ) := do
  require (∀ value ∈ [model.nativeInstanceId, model.sourceIdentity],
    strip value ≠ [] ∧ value.length ≤ 4096) "model_identity_invalid"
  require (model.sourceKind ∈ ["online".toList, "local_file".toList]) "model_source_kind_invalid"
  require (model.displayName.length ≤ 16384) "model_name_invalid"
  require (∀ value ∈ model.contentFingerprint, value ≠ [] ∧ value.length ≤ 4096)
    "model_fingerprint_invalid"
  require (model.nativeInstanceId ∉ seen) "model_instance_duplicate"
  let insertedAt ← model.insertedAt.mapM (time "model_inserted_at_invalid")
  require (∀ t ∈ insertedAt, t ≤ observedAt) "model_inserted_at_invalid"
  return insertedAt

/-- `str(uuid4())`. -/
def uuid4 : Stateful ℕ String Str := do
  let value ← read uuid
  modify fun drawn => drawn + 1
  return value

/-- `replace(old, ...)`: an insertion that is seen again. -/
def ModelInsertion.refreshed (old : ModelInsertion) (model : ModelObservation)
    (insertedAt : Option ℤ) : ModelInsertion :=
  { old with
    displayName := model.displayName
    contentFingerprint := model.contentFingerprint
    insertedAt := insertedAt.or old.insertedAt }

def ModelObservation.inserted (model : ModelObservation) (insertedAt : Option ℤ) (id : Str)
    (observedAt : ℤ) : ModelInsertion where
  nativeInstanceId := model.nativeInstanceId
  sourceKind := model.sourceKind
  sourceIdentity := model.sourceIdentity
  displayName := model.displayName
  contentFingerprint := model.contentFingerprint
  insertedAt := insertedAt
  insertionInstanceId := id
  firstSeenAt := observedAt

/-- The row that a model comes to, given the one that is retained for it. -/
def modelRow (observedAt : ℤ) (disappeared : List Str) (model : ModelObservation)
    (insertedAt : Option ℤ) : Option ModelInsertion → Stateful ℕ String ModelInsertion
  | some old => do
    lift (require (old.insertionInstanceId ∉ disappeared) "model_instance_reappeared")
    lift (require (old.sourceKind = model.sourceKind ∧ old.sourceIdentity = model.sourceIdentity)
      "model_instance_identity_changed")
    lift (require (∀ t ∈ old.insertedAt, ∀ t' ∈ insertedAt, t = t')
      "model_instance_identity_changed")
    return old.refreshed model insertedAt
  | none => do
    let id ← uuid4 uuid
    return model.inserted insertedAt id observedAt

/-- One round of `for model in models`, over what is retained and what was seen. -/
def observeModel (observedAt : ℤ) (disappeared : List Str) :
    List ModelInsertion × List Str → ModelObservation →
      Stateful ℕ String (List ModelInsertion × List Str)
  | (retained, seen), model => do
    let insertedAt ← lift (checkModel observedAt seen model)
    let row ← modelRow uuid observedAt disappeared model insertedAt
      (lookup ModelInsertion.nativeInstanceId model.nativeInstanceId retained)
    let retained := upsert ModelInsertion.nativeInstanceId row retained
    lift (require (retained.length ≤ 1000000) "model_instance_limit_exceeded")
    return (retained, seen ++ [model.nativeInstanceId])

def checkObservation (o : DocumentObservation) (previous : Option ModelImportProjection) :
    Except String ℤ := do
  require (strip o.documentSession ≠ [] ∧ o.documentSession.length ≤ 2048) "document_session_invalid"
  let observedAt ← time "observation_time_invalid" o.observedAt
  require (o.models.length ≤ 1000000) "model_observation_invalid"
  require (∀ p ∈ previous, p.documentSession = o.documentSession) "document_session_changed"
  require (∀ p ∈ previous, p.observedAt ≤ observedAt) "observation_time_regressed"
  return observedAt

def projected (o : DocumentObservation) (observedAt : ℤ) (disappeared seen : List Str)
    (retained : List ModelInsertion) : ModelImportProjection :=
  let unobserved :=
    (retained.filter (·.nativeInstanceId ∉ seen)).map ModelInsertion.insertionInstanceId
  let disappeared := if o.complete then disappeared ++ unobserved else disappeared
  { documentSession := o.documentSession
    observedAt
    complete := o.complete
    instances := retained
    unobservedInstanceIds := unobserved
    missingFromCompleteObservation :=
      (retained.filter (·.insertionInstanceId ∈ disappeared)).map ModelInsertion.insertionInstanceId }

def projectModelInsertions (o : DocumentObservation) (previous : Option ModelImportProjection) :
    Stateful ℕ String ModelImportProjection := do
  let observedAt ← lift (checkObservation o previous)
  let retained := upsertAll ModelInsertion.nativeInstanceId ((previous.map (·.instances)).getD []) []
  let disappeared := (previous.map (·.missingFromCompleteObservation)).getD []
  let (retained, seen) ← o.models.foldlM (observeModel uuid observedAt disappeared) (retained, [])
  return projected o observedAt disappeared seen retained

end

/-! ## Runs -/

/-- The projection of a document session and how many ids were drawn. -/
structure ImportState where
  projection : Option ModelImportProjection
  drawn : ℕ

/-- An observation that is accepted replaces the projection. -/
def ImportState.next (uuid : ℕ → Str) (w : ImportState) (o : DocumentObservation) : ImportState :=
  match projectModelInsertions uuid o w.projection w.drawn with
  | (.ok p, drawn) => ⟨some p, drawn⟩
  | (.error _, drawn) => ⟨w.projection, drawn⟩

end Ai00.Simulation
