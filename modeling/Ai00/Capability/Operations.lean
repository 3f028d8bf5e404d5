import Ai00.Basic.Interleaving
import Ai00.Basic.Python
import Ai00.Basic.Rows

/-! # Asynchronous operations

`capability_v2/operations.py`: the operation record, its transition relation, the two stores,
the service and the reconciler of externally executed operations. A method is a program over
three requests of a store, the clock and a new identifier. The stores share one interface; a
write returns the new store, so one that fails leaves the store as it was.
-/

namespace Ai00.Capability

open Program

/-- A point in time, in microseconds. -/
abbrev Timestamp := Int

inductive OperationStatus where
  | accepted
  | claimed
  | preparing
  | running
  | postProcessing
  | completed
  | failed
  | cancelled
  | outcomeUnknown
  deriving DecidableEq

def OperationStatus.value : OperationStatus → String
  | accepted => "accepted"
  | claimed => "claimed"
  | preparing => "preparing"
  | running => "running"
  | postProcessing => "post_processing"
  | completed => "completed"
  | failed => "failed"
  | cancelled => "cancelled"
  | outcomeUnknown => "outcome_unknown"

def transitions : OperationStatus → List OperationStatus
  | .accepted => [.claimed, .cancelled, .failed]
  | .claimed => [.preparing, .cancelled, .failed]
  | .preparing => [.running, .cancelled, .failed]
  | .running => [.postProcessing, .cancelled, .failed, .outcomeUnknown]
  | .postProcessing => [.completed, .failed, .outcomeUnknown]
  | .outcomeUnknown => [.completed, .failed, .cancelled]
  | .completed => []
  | .failed => []
  | .cancelled => []

/-- The statuses no transition leaves. -/
def OperationStatus.Terminal (s : OperationStatus) : Prop := transitions s = []

instance : DecidablePred OperationStatus.Terminal := fun s =>
  inferInstanceAs (Decidable (transitions s = []))

/-! ## Records -/

structure OperationRef where
  operationId : Str
  status : OperationStatus
  version : Nat := 1
  positive : 1 ≤ version := by decide

structure OperationRecord where
  ref : OperationRef
  kind : Str
  tenantId : Str
  actorId : Str
  consumerId : Str
  resourceRefs : List Str := []
  createdAt : Timestamp
  updatedAt : Timestamp
  errorCode : Option Str := none

/-- What the operation service reads of a `ConsumerIdentity`. -/
structure ConsumerIdentity where
  tenantId : Str
  userId : Option Str
  serviceId : Option Str
  consumerId : Str

/-- `a or b` on optional strings. -/
def orElseStr (a : Option Str) (b : Str) : Str :=
  match a with
  | some s => if s = [] then b else s
  | none => b

def actorId (identity : ConsumerIdentity) : Str :=
  orElseStr identity.userId (orElseStr identity.serviceId [])

/-- `ref.split(":", 1)[0]`. -/
def beforeColon (ref : Str) : Str := ref.takeWhile (· ≠ ':')

def scopesAllow (granted requested : List Str) : Bool :=
  requested.all (fun ref => granted.contains "*".toList || granted.contains ref
    || granted.contains (beforeColon ref ++ ":*".toList))

inductive OperationException where
  | operationError (message : String)
  | transitionError (message : String)
  | authorizationError (message : String)
  | valueError (message : String)
  | integrityError
  | dataError

/-- `record.model_copy` with the next version, as both writers of a status make it. -/
def OperationRecord.advance (record : OperationRecord) (status : OperationStatus)
    (updatedAt : Timestamp) (errorCode : Option Str) : OperationRecord :=
  { record with
    ref := { record.ref with
      status, version := record.ref.version + 1, positive := Nat.succ_le_succ (Nat.zero_le _) }
    updatedAt, errorCode }

/-! ## Stores -/

/-- `OperationStore`, over stores of type `σ`. -/
structure OperationStore (σ : Type) where
  create : OperationRecord → σ → Except OperationException (OperationRecord × σ)
  get : Str → σ → Except OperationException OperationRecord
  compareAndSwap : Str → Nat → OperationRecord → σ → Except OperationException (OperationRecord × σ)

/-- The dictionary of `InMemoryOperationStore`. -/
abbrev OperationTable := AList (fun _ : Str => OperationRecord)

namespace InMemoryOperationStore

def create (record : OperationRecord) (s : OperationTable) :
    Except OperationException (OperationRecord × OperationTable) :=
  if (s.lookup record.ref.operationId).isSome then .error (.operationError "operation_exists")
  else .ok (record, s.insert record.ref.operationId record)

def get (operationId : Str) (s : OperationTable) : Except OperationException OperationRecord :=
  match s.lookup operationId with
  | none => .error (.operationError "operation_not_found")
  | some record => .ok record

def compareAndSwap (operationId : Str) (expectedVersion : Nat) (replacement : OperationRecord)
    (s : OperationTable) : Except OperationException (OperationRecord × OperationTable) :=
  match s.lookup operationId with
  | none => .error (.operationError "operation_not_found")
  | some current =>
    if current.ref.version ≠ expectedVersion then
      .error (.transitionError "operation version conflict")
    else .ok (replacement, s.insert operationId replacement)

end InMemoryOperationStore

def inMemoryOperationStore : OperationStore OperationTable where
  create := InMemoryOperationStore.create
  get := InMemoryOperationStore.get
  compareAndSwap := InMemoryOperationStore.compareAndSwap

structure OperationRow where
  operationId : Str
  kind : Str
  tenantId : Str
  actorId : Str
  consumerId : Str
  resourceRefs : List Str
  status : OperationStatus
  operationVersion : Nat
  errorCode : Option Str
  createdAt : Timestamp
  updatedAt : Timestamp
  deriving DecidableEq

namespace SqlOperationStore

def operationRow (record : OperationRecord) : OperationRow :=
  ⟨record.ref.operationId, record.kind, record.tenantId, record.actorId, record.consumerId,
    record.resourceRefs, record.ref.status, record.ref.version, record.errorCode,
    record.createdAt, record.updatedAt⟩

/-- `_operation_from_row`. The record is validated again. -/
def operationFromRow (row : OperationRow) : Except OperationException OperationRecord :=
  if h : 1 ≤ row.operationVersion then
    .ok {
      ref := ⟨row.operationId, row.status, row.operationVersion, h⟩
      kind := row.kind, tenantId := row.tenantId, actorId := row.actorId
      consumerId := row.consumerId, resourceRefs := row.resourceRefs
      createdAt := row.createdAt, updatedAt := row.updatedAt, errorCode := row.errorCode }
  else .error (.valueError "version")

/-- The values that `VARCHAR(128)` and `INT UNSIGNED` hold. -/
def fits (errorCode : Option Str) (version : Nat) : Bool :=
  errorCode.all (fun code => code.length ≤ 128) && decide (version < 2 ^ 32)

def create (record : OperationRecord) (rows : List OperationRow) :
    Except OperationException (OperationRecord × List OperationRow) :=
  if ¬ fits record.errorCode record.ref.version then .error .dataError
  else
    match Rows.insert (fun a b => a.operationId = b.operationId) (operationRow record) rows with
    | none => .error .integrityError
    | some rows => .ok (record, rows)

def get (operationId : Str) (rows : List OperationRow) :
    Except OperationException OperationRecord :=
  match rows.find? (fun r => r.operationId = operationId) with
  | none => .error (.operationError "operation_not_found")
  | some row => operationFromRow row

/-- The columns that the `UPDATE` sets. -/
def written (replacement : OperationRecord) (row : OperationRow) : OperationRow :=
  { row with
    status := replacement.ref.status, operationVersion := replacement.ref.version
    errorCode := replacement.errorCode, updatedAt := replacement.updatedAt }

/-- `compare_and_swap`. `rowcount` counts the rows that the `UPDATE` changes; the identifier is
the primary key, so it is at most one. -/
def compareAndSwap (operationId : Str) (expectedVersion : Nat) (replacement : OperationRecord)
    (rows : List OperationRow) : Except OperationException (OperationRecord × List OperationRow) :=
  if ¬ fits replacement.errorCode replacement.ref.version then .error .dataError
  else
    match rows.find? (fun r => r.operationId = operationId) with
    | none => .error (.transitionError "operation version conflict")
    | some row =>
      if row.operationVersion ≠ expectedVersion ∨ written replacement row = row then
        .error (.transitionError "operation version conflict")
      else
        .ok (replacement, Rows.update (fun r => r.operationId = operationId)
          (written replacement) rows)

end SqlOperationStore

def sqlOperationStore : OperationStore (List OperationRow) where
  create := SqlOperationStore.create
  get := SqlOperationStore.get
  compareAndSwap := SqlOperationStore.compareAndSwap

/-! ## Requests -/

inductive OperationRequest where
  | now
  | uuid
  | create (record : OperationRecord)
  | get (operationId : Str)
  | compareAndSwap (operationId : Str) (expectedVersion : Nat) (replacement : OperationRecord)

def OperationAnswer : OperationRequest → Type
  | .now => Timestamp
  | .uuid => Str
  | .create _ => OperationRecord
  | .get _ => OperationRecord
  | .compareAndSwap _ _ _ => OperationRecord

/-- The clock and the source of identifiers, over states of type `ε`. -/
structure OperationEnvironment (ε : Type) where
  clock : ε → Timestamp × ε
  uuid : ε → Str × ε

/-- A store that an operation replaces, or leaves when it fails. -/
def storing {α σ ε : Type} (x : Except OperationException (α × σ)) (s : σ × ε) :
    Except OperationException α × (σ × ε) :=
  match x with
  | .ok (a, store) => (.ok a, (store, s.2))
  | .error e => (.error e, s)

def handleOperation {σ ε : Type} (store : OperationStore σ) (environment : OperationEnvironment ε) :
    (r : OperationRequest) → σ × ε → Except OperationException (OperationAnswer r) × (σ × ε)
  | .now, s => (.ok (environment.clock s.2).1, (s.1, (environment.clock s.2).2))
  | .uuid, s => (.ok (environment.uuid s.2).1, (s.1, (environment.uuid s.2).2))
  | .create record, s => storing (store.create record s.1) s
  | .get operationId, s => (store.get operationId s.1, s)
  | .compareAndSwap operationId expectedVersion replacement, s =>
    storing (store.compareAndSwap operationId expectedVersion replacement s.1) s

/-! ## The service -/

abbrev OperationProg (α : Type) : Type := Program OperationAnswer OperationException α

abbrev readOperationClock : OperationProg Timestamp := request OperationRequest.now

abbrev newUuid : OperationProg Str := request OperationRequest.uuid

abbrev createOperationRecord (record : OperationRecord) : OperationProg OperationRecord :=
  request (OperationRequest.create record)

abbrev readOperation (operationId : Str) : OperationProg OperationRecord :=
  request (OperationRequest.get operationId)

abbrev swapOperation (operationId : Str) (expectedVersion : Nat) (replacement : OperationRecord) :
    OperationProg OperationRecord :=
  request (OperationRequest.compareAndSwap operationId expectedVersion replacement)

namespace OperationService

def create (kind : Str) (requestedBy : ConsumerIdentity) (resourceRefs : List Str) :
    OperationProg OperationRef :=
  if kind = [] ∨ 128 < kind.length then raise (.operationError "invalid operation kind")
  else do
    let now ← readOperationClock
    let hex ← newUuid
    let record ← createOperationRecord {
      ref := { operationId := "operation_".toList ++ hex, status := .accepted }
      kind, tenantId := requestedBy.tenantId, actorId := actorId requestedBy
      consumerId := requestedBy.consumerId
      resourceRefs := resourceRefs.dedup.insertionSort (· ≤ ·)
      createdAt := now, updatedAt := now }
    return record.ref

def getAuthorized (operationId : Str) (requestedBy : ConsumerIdentity)
    (grantedResources : List Str) : OperationProg OperationRecord := do
  let record ← readOperation operationId
  if record.tenantId ≠ requestedBy.tenantId then
    raise (.authorizationError "operation belongs to another tenant")
  else if record.actorId ≠ actorId requestedBy ∧ grantedResources = [] then
    raise (.authorizationError "operation access requires owner or resource grant")
  else if record.resourceRefs = [] ∧ record.actorId ≠ actorId requestedBy then
    raise (.authorizationError "private operation belongs to another actor")
  else if grantedResources ≠ [] ∧ ¬ scopesAllow grantedResources record.resourceRefs then
    raise (.authorizationError "operation resource scope is not granted")
  else return record

def lacksCode (errorCode : Option Str) : Bool := errorCode.all (· = [])

def transition (operationId : Str) (status : OperationStatus) (expectedVersion : Nat)
    (requestedBy : ConsumerIdentity) (errorCode : Option Str) (grantedResources : List Str) :
    OperationProg OperationRef := do
  let record ← getAuthorized operationId requestedBy grantedResources
  if status ∉ transitions record.ref.status then
    raise (.transitionError
      ("invalid operation transition: " ++ record.ref.status.value ++ " -> " ++ status.value))
  else if status = .failed ∧ lacksCode errorCode then
    raise (.transitionError "failed operation requires error_code")
  else do
    let now ← readOperationClock
    let written ← swapOperation operationId expectedVersion (record.advance status now errorCode)
    return written.ref

end OperationService

/-! ## The reconciler -/

structure TrustedExternalOperationReconciler where
  allowedKindPrefix : Str
  required : allowedKindPrefix ≠ []

namespace TrustedExternalOperationReconciler

/-- The part of `(ACCEPTED, CLAIMED, PREPARING, RUNNING)` after a status, for one of them. -/
def ordered : OperationStatus → Option (List OperationStatus)
  | .accepted => some [.claimed, .preparing, .running]
  | .claimed => some [.preparing, .running]
  | .preparing => some [.running]
  | .running => some []
  | _ => none

def reconciliationPath (current target : OperationStatus) :
    Except OperationException (List OperationStatus) :=
  if current.Terminal then
    .error (.transitionError "terminal operation cannot be reconciled to a different state")
  else if target = .claimed then
    if current ≠ .accepted then
      if (ordered current).isSome then .ok []
      else .error (.transitionError "operation cannot return to claimed")
    else .ok [.claimed]
  else
    let path := (ordered current).getD []
    let reached := if (ordered current).isSome then .running else current
    match target with
    | .completed =>
      if reached = .outcomeUnknown ∨ reached = .postProcessing then .ok (path ++ [.completed])
      else .ok (path ++ [.postProcessing, .completed])
    | .failed => .ok (path ++ [.failed])
    | .outcomeUnknown => .ok (path ++ [.outcomeUnknown])
    | _ => .ok path

/-- The loop over the path: every write expects the version of the record before it. -/
def follow (operationId : Str) (errorCode : Option Str) :
    List OperationStatus → OperationRecord → OperationProg OperationRecord
  | [], record => return record
  | status :: path, record => do
    let now ← readOperationClock
    let code := if status = .failed ∨ status = .outcomeUnknown then errorCode else none
    let written ← swapOperation operationId record.ref.version (record.advance status now code)
    follow operationId errorCode path written

def reconcile (reconciler : TrustedExternalOperationReconciler) (operationId : Str)
    (target : OperationStatus) (errorCode : Option Str) : OperationProg OperationRef := do
  let record ← readOperation operationId
  if ¬ reconciler.allowedKindPrefix.isPrefixOf record.kind then
    raise (.authorizationError "operation kind is outside reconciler boundary")
  else if record.ref.status = target then return record.ref
  else if target ∉ [.completed, .failed, .outcomeUnknown, .claimed] then
    raise (.transitionError "unsupported external reconciliation target")
  else if target = .failed ∧ OperationService.lacksCode errorCode then
    raise (.transitionError "failed operation requires error_code")
  else do
    let path ← lift (reconciliationPath record.ref.status target)
    let reached ← follow operationId errorCode path record
    return reached.ref

end TrustedExternalOperationReconciler

/-! ## Calls -/

/-- What clients call. -/
inductive OperationCall where
  | create (kind : Str) (requestedBy : ConsumerIdentity) (resourceRefs : List Str)
  | transition (operationId : Str) (status : OperationStatus) (expectedVersion : Nat)
      (requestedBy : ConsumerIdentity) (errorCode : Option Str) (grantedResources : List Str)
  | getAuthorized (operationId : Str) (requestedBy : ConsumerIdentity)
      (grantedResources : List Str)
  | reconcile (reconciler : TrustedExternalOperationReconciler) (operationId : Str)
      (target : OperationStatus) (errorCode : Option Str)

def OperationCall.code : OperationCall → OperationProg OperationRef
  | create kind requestedBy resourceRefs => OperationService.create kind requestedBy resourceRefs
  | transition operationId status expectedVersion requestedBy errorCode grantedResources =>
    OperationService.transition operationId status expectedVersion requestedBy errorCode
      grantedResources
  | getAuthorized operationId requestedBy grantedResources => do
    let record ← OperationService.getAuthorized operationId requestedBy grantedResources
    return record.ref
  | reconcile reconciler operationId target errorCode =>
    reconciler.reconcile operationId target errorCode

end Ai00.Capability
