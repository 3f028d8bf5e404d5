import Ai00.Connector.Plan

/-! # The plan execution worker of the connector host

`PlanExecutionWorker.cs`. The journal is the only state that outlives the process: an event is
durable before the worker goes on, so a crash leaves an initial part of what the call would
have appended. What the adapter, the clock, the cancellation tokens and the transports do is
given with each call (`StepRun` for one step of a plan), without any assumption on it.

A journal event carries the value it encodes; its sequence number is its position.
-/

namespace Ai00.Connector

/-! ## The journal -/

structure LeasedPlan where
  leaseId : String
  leaseUntil : Ticks
  planJson : String
  deriving DecidableEq

inductive JournalEntry where
  | planReceived (planJson : String)
  | leaseAcquired (lease : LeasedPlan)
  | invocationStarted (stepId : String)
  | stepTerminal (result : StepResult)
  | outcome (outcome : Outcome)
  | acknowledged
  | reconciled
  | abandonedWithoutEffect
  | manualReviewRequired
  | reconciliationEvidence
  | reconciliationRetry

structure AppJournalEvent where
  planId : String
  entry : JournalEntry

abbrev Journal := List AppJournalEvent

/-- The entries of one plan, in order. -/
def Journal.group (journal : Journal) (planId : String) : List JournalEntry :=
  journal.filterMap (fun e => if e.planId = planId then some e.entry else none)

def Journal.planIds (journal : Journal) : List String :=
  (journal.map AppJournalEvent.planId).reverse.dedup.reverse

def received? : JournalEntry → Option String
  | .planReceived planJson => some planJson
  | _ => none

def lease? : JournalEntry → Option LeasedPlan
  | .leaseAcquired lease => some lease
  | _ => none

def started? : JournalEntry → Option String
  | .invocationStarted stepId => some stepId
  | _ => none

def terminal? : JournalEntry → Option StepResult
  | .stepTerminal result => some result
  | _ => none

def outcome? : JournalEntry → Option Outcome
  | .outcome outcome => some outcome
  | _ => none

/-- `acknowledged`, `abandoned_without_effect`: nothing is left to recover. -/
def isSettled : JournalEntry → Bool
  | .acknowledged => true
  | .abandonedWithoutEffect => true
  | _ => false

def isReconciled : JournalEntry → Bool
  | .reconciled => true
  | _ => false

def isManualReview : JournalEntry → Bool
  | .manualReviewRequired => true
  | _ => false

/-! ## What the host meets -/

/-- The exceptions the worker tells apart. -/
inductive HostException where
  | noEffect (code : String)
  | connector (code : String)
  | transport (message : String)
  | cancelled
  | other
  deriving DecidableEq

structure LocalModelArtifact where
  identity : Json
  nodeKey : String
  itemRevisionUid : String
  fileReference : Json
  sha256 : String
  byteSize : Int
  acquiredAt : String

/-- `AdapterResult.Data`. -/
inductive AdapterData where
  | element (value : Json)
  | capture (artifact : Json)
  | model (artifact : LocalModelArtifact)

structure AdapterResult where
  ok : Bool
  data : AdapterData

/-- One iteration of the step loop, from the outside: the answers of the clock, the tokens, the
materializer, the adapter and the uploader. -/
structure StepRun where
  /-- `ct.ThrowIfCancellationRequested()` -/
  cancelledAtStart : Bool := false
  leaseCheckedAt : Ticks := 0
  startedAt : Ticks := 0
  materialized : Except HostException Unit := .ok ()
  cancelledAfterMaterialization : Bool := false
  /-- the token of a local model open is cancelled before the adapter is called -/
  localOpenInterrupted : Bool := false
  /-- the adapter returned a task, it did not throw at once -/
  invoked : Bool := true
  answer : Except HostException AdapterResult
  timedOutAfterAnswer : Bool := false
  upload : Except HostException Json := .ok .null
  /-- removing the local file threw something that is neither an I/O nor an access error -/
  fileRemoval : Except HostException Unit := .ok ()
  /-- `timeout.IsCancellationRequested` and `ct.IsCancellationRequested` in the handler -/
  timeoutRequested : Bool := false
  cancelledAtFailure : Bool := false
  /-- the five seconds the handler waits for the invocation to end -/
  cleanup : Except HostException Unit := .error .other
  completed : Bool := false
  cancelledAtEnd : Bool := false

structure RuntimeSession where
  deviceId : String
  tenantId : String
  generation : Nat
  instanceId : String
  expiresAt : Ticks

structure AdapterManifest where
  adapterId : String
  adapterMajor : Nat
  productId : String
  productVersion : List Nat
  supports : String → String → Bool

/-- The parts of a host that do not change with its processes. -/
structure Host where
  manifest : AdapterManifest
  hasArtifactMaterializer : Bool
  hasCaptureUploader : Bool
  deviceKeyId : String
  /-- the plan a JSON text encodes -/
  parsePlan : String → Option ExecutionPlan
  /-- `CanonicalJsonV2.Hash`, where it does not throw -/
  canonicalHash : Json → Option String
  /-- `OutcomeV2Signer.Sign` does not throw -/
  signs : Outcome → Bool

/-- `Verify`, in a process that trusts the key of the plan or does not. -/
def Host.verify (host : Host) (trusted : String → Bool) (planJson : String) :
    Option ExecutionPlan :=
  (host.parsePlan planJson).filter (fun plan => plan.valid && trusted planJson)

/-! ## One step of a plan -/

def fetchOperation : String := "teamcenter.model_file.fetch@1"
def preflightOperation : String := "teamcenter.model_files.size.preflight@1"
def captureOperation : String := "vismockup.view.capture@1"
def localOpenOperation : String := "vismockup.model.open@3"

/-- The reads whose worker process can prove that it was cleaned up. -/
def cancellableReads : List String :=
  ["teamcenter.product_structure.children.read@1", "teamcenter.node_properties.read@1",
    "teamcenter.model_cache.read@1", "teamcenter.model_cache.read@2",
    "teamcenter.model_files.size.preflight@1"]

def ExecutionPlan.isBatchFilePlan (plan : ExecutionPlan) : Bool :=
  plan.capabilityId == "simulation.model_cache.file.fetch.batch.request"

def remainingExecutionBudget (stepSeconds : Nat) (leaseUntil sessionUntil now : Ticks) : Ticks :=
  min (stepSeconds * 10000000)
    (min (leaseUntil - now - 300000000) (sessionUntil - now - 300000000))

/-- `data` of a fetched file. -/
def LocalModelArtifact.data (model : LocalModelArtifact) (artifact : Json) : Json :=
  .obj [("identity".toList, model.identity), ("node_key".toList, .str model.nodeKey.toList),
    ("item_revision_uid".toList, .str model.itemRevisionUid.toList),
    ("file_ref".toList, model.fileReference), ("artifact_ref".toList, artifact),
    ("content_hash".toList, .str ("sha256:" ++ model.sha256).toList),
    ("byte_length".toList, .int model.byteSize),
    ("acquired_at".toList, .str model.acquiredAt.toList),
    ("captured_bytes_verified".toList, .bool false)]

/-- `JsonSerializer.SerializeToElement(data)`. -/
def AdapterData.json : AdapterData → Json
  | .element value => value
  | .capture artifact => artifact
  | .model artifact => artifact.data .null

/-- The `error_code` text of a preflight result; `TryGetProperty` wants an object. -/
def preflightError : AdapterData → Except HostException (Option String)
  | .element (.obj fields) =>
    match Dict.get? fields "error_code".toList with
    | some (.str code) => .ok (some (String.ofList code))
    | _ => .ok none
  | .element _ => .error .other
  | _ => .ok none

/-- What the `try` block of an invocation leaves: a status with its data and error. -/
structure Attempt where
  status : StepStatus := .succeeded
  data : Json := .null
  error : Option String := none

/-- An exception of the `try` block, with what the block had set by then. -/
structure Failure where
  exception : HostException
  artifactTransferStarted : Bool := false
  data : Json := .null

/-- The `try` block. -/
def attemptInvocation (plan : ExecutionPlan) (step : ConnectorStep) (b : StepRun) :
    Except Failure Attempt :=
  if step.operationId = localOpenOperation ∧ b.localOpenInterrupted then
    .error { exception := .noEffect "cache_open_interrupted" }
  else
    match b.answer with
    | .error e => .error { exception := e }
    | .ok result =>
      if b.timedOutAfterAnswer then .error { exception := .cancelled }
      else if ¬ result.ok then .error { exception := .connector "adapter_effect_unknown" }
      else if step.operationId = captureOperation then
        match result.data with
        | .capture _ =>
          match b.upload with
          | .error e => .error { exception := e, artifactTransferStarted := true }
          | .ok artifact => .ok { data := .obj [("artifact".toList, artifact)] }
        | _ => .error { exception := .connector "capture_result_invalid" }
      else if step.operationId = fetchOperation then
        match result.data with
        | .model model =>
          match b.upload with
          | .error e => .error { exception := e, artifactTransferStarted := true }
          | .ok artifact =>
            match b.fileRemoval with
            | .error e => .error ⟨e, true, model.data artifact⟩
            | .ok () => .ok { data := model.data artifact }
        | _ => .error { exception := .noEffect "model_artifact_invalid" }
      else if plan.isBatchFilePlan ∧ step.operationId = preflightOperation then
        match preflightError result.data with
        | .error e => .error { exception := e }
        | .ok (some code) =>
          .ok { status := .failedWithoutEffect, data := result.data.json, error := some code }
        | .ok none => .ok { data := result.data.json }
      else .ok { data := result.data.json }

/-- Whether the adapter was called before the exception. -/
def invocationExists (step : ConnectorStep) (b : StepRun) : Bool :=
  b.invoked && !(step.operationId == localOpenOperation && b.localOpenInterrupted)

/-- `cleanupProof`: a local open that was cancelled in time proves that it had no effect. -/
def cleanupProof (step : ConnectorStep) (b : StepRun) (e : HostException) : Option HostException :=
  if e = .cancelled ∧ b.timeoutRequested ∧ step.operationId = localOpenOperation
      ∧ invocationExists step b then
    match b.cleanup with
    | .error (.noEffect code) =>
      if code = "cancelled" ∨ code = "cache_open_interrupted" then some (.noEffect code) else none
    | _ => none
  else none

/-- `noEffect` of the handler. -/
def provesNoEffect (step : ConnectorStep) (transferStarted : Bool) (failure : HostException) :
    Bool :=
  (match failure with
    | .noEffect code => code != "teamcenter_worker_cleanup_failed"
    | _ => false)
  || (!transferStarted && step.operationId != captureOperation
    && step.sideEffectClassification == .read)

def failureCode (noEffect : Bool) : HostException → String
  | .noEffect code => code
  | .connector code => code
  | _ => if noEffect then "read_invocation_failed" else "invocation_outcome_unknown"

/-- `cleaned`: the worker process of a read that timed out is gone. -/
def cleanedUp (step : ConnectorStep) (b : StepRun) : Bool :=
  cancellableReads.contains step.operationId && invocationExists step b &&
    match b.cleanup with
    | .ok () => true
    | .error .cancelled => b.completed
    | .error (.connector code) => code != "teamcenter_worker_cleanup_failed"
    | .error _ => false

/-- `RequiresProcessRestart` as the handler sets it. -/
def needsRestart (step : ConnectorStep) (b : StepRun) (e : HostException) : Bool :=
  ((cleanupProof step b e).isNone && e == .cancelled && b.timeoutRequested
    && !b.cancelledAtFailure && !cleanedUp step b)
  || e == .connector "teamcenter_worker_cleanup_failed"

/-- How an invocation ended, and whether its handler asked for a process restart. -/
structure Invocation where
  attempt : Attempt
  restart : Bool
  quarantine : Bool

def runInvocation (plan : ExecutionPlan) (step : ConnectorStep) (b : StepRun) : Invocation :=
  match attemptInvocation plan step b with
  | .ok attempt => ⟨attempt, false, false⟩
  | .error thrown =>
    let failure := (cleanupProof step b thrown.exception).getD thrown.exception
    let noEffect := provesNoEffect step thrown.artifactTransferStarted failure
    ⟨{ status := if noEffect then .failedWithoutEffect else .outcomeUnknown
       data := thrown.data
       error := some (failureCode noEffect failure) },
      needsRestart step b thrown.exception, !noEffect⟩

/-- `StepResult`; a result that has no canonical form makes it throw. -/
def stepResult (host : Host) (stepId : String) (attempt : Attempt) : Option StepResult :=
  let reconciliationState :=
    if attempt.status = .outcomeUnknown then ReconciliationState.pending else .notRequired
  if attempt.status = .succeeded then
    (host.canonicalHash attempt.data).map (fun hash =>
      { stepId, status := attempt.status, result := attempt.data, resultHash := some hash,
        errorCode := attempt.error, reconciliationState })
  else
    some { stepId, status := attempt.status, result := attempt.data, errorCode := attempt.error,
           reconciliationState }

/-- A step that did not reach the adapter. -/
def notInvoked (stepId code : String) : StepResult :=
  { stepId, status := .failedWithoutEffect, errorCode := some code }

def materializationCode : HostException → String
  | .noEffect code => code
  | .transport message => message
  | .cancelled => "artifact_materialization_timeout"
  | _ => "artifact_materialization_failed"

/-- How the loop goes on after a step. -/
inductive Control where
  | next
  | stop
  | throw

structure Iteration where
  entries : List JournalEntry
  result : Option StepResult
  control : Control
  restart : Bool
  quarantine : Bool := false
  invocationStarted : Bool := false

/-- The body of the loop over `plan.Steps`. -/
def runStep (host : Host) (plan : ExecutionPlan) (lease : LeasedPlan) (session : RuntimeSession)
    (restart : Bool) (step : ConnectorStep) (b : StepRun) : Iteration :=
  let batchFetch := plan.isBatchFilePlan && step.operationId == fetchOperation
  if b.cancelledAtStart then ⟨[], none, .throw, restart, false, false⟩
  else if lease.leaseUntil ≤ b.leaseCheckedAt ∨ session.expiresAt ≤ b.leaseCheckedAt then
    ⟨[], none, .throw, restart, false, false⟩
  else if remainingExecutionBudget step.timeoutSeconds lease.leaseUntil session.expiresAt
      b.startedAt ≤ 0 then
    let result := notInvoked step.stepId "execution_delivery_budget_exhausted"
    ⟨[.stepTerminal result], some result, .stop, restart, false, false⟩
  else
    match (if host.hasArtifactMaterializer then b.materialized else .ok ()) with
    | .error e =>
      let result := notInvoked step.stepId (materializationCode e)
      ⟨[.stepTerminal result], some result,
        if batchFetch && !b.cancelledAfterMaterialization then .next else .stop,
        restart, false, false⟩
    | .ok () =>
      let invocation := runInvocation plan step b
      let restart := restart || invocation.restart
      match stepResult host step.stepId invocation.attempt with
      | none => ⟨[.invocationStarted step.stepId], none, .throw, restart, invocation.quarantine, true⟩
      | some result =>
        let passedOver := batchFetch && result.status == .failedWithoutEffect && !restart
          && !b.cancelledAtEnd
        ⟨[.invocationStarted step.stepId, .stepTerminal result], some result,
          if result.status = .succeeded ∨ passedOver then .next else .stop,
          restart, invocation.quarantine, true⟩

/-! ## The step loop -/

structure Progress where
  entries : List JournalEntry := []
  results : List StepResult := []
  restart : Bool
  quarantine : Bool := false
  invocationStarted : Bool := false
  /-- the loop ended without an exception -/
  finished : Bool := true

def runSteps (host : Host) (plan : ExecutionPlan) (lease : LeasedPlan) (session : RuntimeSession)
    (run : ConnectorStep → StepRun) : Bool → List ConnectorStep → Progress
  | restart, [] => { restart }
  | restart, step :: rest =>
    let i := runStep host plan lease session restart step (run step)
    match i.control with
    | .next =>
      let p := runSteps host plan lease session run i.restart rest
      { p with
        entries := i.entries ++ p.entries
        results := i.result.toList ++ p.results
        quarantine := i.quarantine || p.quarantine
        invocationStarted := i.invocationStarted || p.invocationStarted }
    | .stop => ⟨i.entries, i.result.toList, i.restart, i.quarantine, i.invocationStarted, true⟩
    | .throw => ⟨i.entries, i.result.toList, i.restart, i.quarantine, i.invocationStarted, false⟩

/-! ## Signing -/

def isCodeChar (c : Char) : Bool :=
  ('a' ≤ c && c ≤ 'z') || ('0' ≤ c && c ≤ '9') || c == '_' || c == '.' || c == '-'

/-- The error code as the outcome carries it. -/
def normalizeCode (result : StepResult) : StepResult :=
  match result.errorCode with
  | none => result
  | some code =>
    if 0 < code.length ∧ code.length ≤ 128 ∧ code.toList.all isCodeChar then result
    else { result with errorCode := some "adapter_error_code_invalid" }

/-- The outcome `PersistOutcome` signs, when the journal holds `count` events. -/
def makeOutcome (host : Host) (plan : ExecutionPlan) (lease : LeasedPlan) (count : Nat)
    (results : List StepResult) : Outcome where
  planId := plan.planId
  planHash := plan.planHash
  leaseId := lease.leaseId
  tenantId := plan.tenantId
  deviceId := plan.deviceId
  runtimeGeneration := plan.runtimeGeneration
  runtimeInstanceId := plan.runtimeInstanceId
  overallStatus := overallStatus (results.map normalizeCode)
  steps := results.map normalizeCode
  journalSequence := count + 1
  deviceKeyId := host.deviceKeyId

/-- `PersistOutcome`: the event it appends, or none when signing throws. -/
def persistOutcome (host : Host) (plan : ExecutionPlan) (lease : LeasedPlan) (count : Nat)
    (results : List StepResult) : Option Outcome :=
  let outcome := makeOutcome host plan lease count results
  if host.signs outcome then some outcome else none

/-! ## `ExecuteAsync` -/

/-- The answers to one call of `ExecuteAsync`. -/
structure ExecuteRun where
  /-- `executionGate.EnterPlanAsync` lets the plan in -/
  enters : Bool := true
  trusted : String → Bool := fun _ => true
  now : Ticks
  cancelled : Bool := false
  run : ConnectorStep → StepRun

/-- What a process holds besides the journal. -/
structure ProcessState where
  executionQuarantined : Bool := false
  requiresProcessRestart : Bool := false
  gateQuarantined : Bool := false

/-- `plan_session_lease_binding_invalid`. -/
def boundTo (plan : ExecutionPlan) (lease : LeasedPlan) (session : RuntimeSession) (now : Ticks) :
    Bool :=
  plan.deviceId == session.deviceId && plan.tenantId == session.tenantId
    && plan.runtimeGeneration == session.generation
    && plan.runtimeInstanceId == session.instanceId
    && decide (now < session.expiresAt ∧ now < lease.leaseUntil
      ∧ lease.leaseUntil ≤ session.expiresAt ∧ lease.leaseUntil ≤ plan.expiresAt
      ∧ plan.issuedAt ≤ now ∧ now < plan.expiresAt)
    && !(lease.leaseId.toList.all Char.isWhitespace)

/-- `adapter_contract_mismatch`. -/
def AdapterManifest.accepts (manifest : AdapterManifest) (plan : ExecutionPlan) : Bool :=
  plan.adapterId == manifest.adapterId && plan.adapterMajor == manifest.adapterMajor
    && plan.targetProduct.productId == manifest.productId
    && decide (plan.targetProduct.minimumVersion ≤ manifest.productVersion
      ∧ manifest.productVersion < plan.targetProduct.maximumVersionExclusive)
    && plan.steps.all (fun step => manifest.supports step.operationId step.contractHash)

/-- An outcome that was neither reconciled nor acknowledged says `outcome_unknown`. -/
def hasUnknownOutcome (journal : Journal) : Bool :=
  journal.any (fun e =>
    match outcome? e.entry with
    | some outcome => outcome.overallStatus == .outcomeUnknown
        && !(journal.group e.planId).any (fun entry => match entry with
          | .reconciled => true
          | .acknowledged => true
          | _ => false)
    | none => false)

def retained (previous : List JournalEntry) (lease : LeasedPlan) : Except String Outcome :=
  match previous.findSome? received? with
  | none => .error "sequence_contains_no_matching_element"
  | some planJson =>
    if planJson ≠ lease.planJson then .error "plan_replay_conflict"
    else
      match previous.reverse.findSome? outcome? with
      | some outcome =>
        if outcome.leaseId ≠ lease.leaseId then .error "lease_replay_conflict" else .ok outcome
      | none => .error "plan_recovery_required"

def needsMaterializer : List String :=
  ["vismockup.model.open@1", "vismockup.model.open@2", "vismockup.model.insert@1",
    "vismockup.model.attach@1"]

def refusal? (host : Host) (journal : Journal) (process : ProcessState) (plan : ExecutionPlan)
    (env : ExecuteRun) : Option String :=
  if process.executionQuarantined ∨ hasUnknownOutcome journal then some "runtime_quarantined"
  else if ¬ host.manifest.accepts plan then some "adapter_contract_mismatch"
  else if env.cancelled then some "cancelled"
  else if plan.steps.any (fun step => needsMaterializer.contains step.operationId)
      && !host.hasArtifactMaterializer then some "v2_artifact_transport_unavailable"
  else if plan.steps.any (fun step => [captureOperation, fetchOperation].contains step.operationId)
      && !host.hasCaptureUploader then some "v2_artifact_upload_unavailable"
  else none

/-- Everything before the first journal event: a retained outcome, or the plan to run. -/
def admitPlan (host : Host) (journal : Journal) (process : ProcessState) (lease : LeasedPlan)
    (session : RuntimeSession) (env : ExecuteRun) : Except String (Outcome ⊕ ExecutionPlan) :=
  if process.gateQuarantined ∨ ¬ env.enters then .error "runtime_quarantined"
  else
    match host.verify env.trusted lease.planJson with
    | none => .error "plan_invalid"
    | some plan =>
      if ¬ boundTo plan lease session env.now then .error "plan_session_lease_binding_invalid"
      else if journal.group plan.planId ≠ [] then
        (retained (journal.group plan.planId) lease).map Sum.inl
      else
        match refusal? host journal process plan env with
        | some code => .error code
        | none => .ok (.inr plan)

/-- The events of a call for a plan that was let in: a crash keeps an initial part of them. -/
def executionEntries (host : Host) (journal : Journal) (process : ProcessState)
    (plan : ExecutionPlan) (lease : LeasedPlan) (session : RuntimeSession) (env : ExecuteRun) :
    List JournalEntry :=
  let p := runSteps host plan lease session env.run process.requiresProcessRestart plan.steps
  let opening := [.planReceived lease.planJson, .leaseAcquired lease] ++ p.entries
  if p.finished then
    opening ++ ((persistOutcome host plan lease (journal.length + opening.length) p.results).map
      JournalEntry.outcome).toList
  else opening

/-- The process after the call: what could not be proven quarantines it. -/
def processAfter (host : Host) (process : ProcessState) (plan : ExecutionPlan)
    (lease : LeasedPlan) (session : RuntimeSession) (env : ExecuteRun) (journal : Journal) :
    ProcessState :=
  let p := runSteps host plan lease session env.run process.requiresProcessRestart plan.steps
  let quarantined := process.executionQuarantined || p.quarantine
  let persisted := p.finished
    && (persistOutcome host plan lease (journal.length + p.entries.length + 2) p.results).isSome
  { executionQuarantined := quarantined
    requiresProcessRestart := p.restart
    gateQuarantined := process.gateQuarantined || quarantined || p.restart
      || (p.invocationStarted && !persisted) }

/-! ## `Recover` -/

/-- An invocation the journal left without a result. -/
def openResult (stepId : String) : StepResult :=
  { stepId, status := .outcomeUnknown, errorCode := some "process_recovery_outcome_unknown",
    reconciliationState := .pending }

def addOpen (results : List StepResult) (stepId : String) : List StepResult :=
  if results.any (fun r => r.stepId == stepId) then results else results ++ [openResult stepId]

/-- The step results recovery reports: the journaled ones, an invocation left open, and, when
nothing is unknown, the first step that was not reached. -/
def recoveredResults (plan : ExecutionPlan) (group : List JournalEntry) : List StepResult :=
  let results := (group.filterMap started?).foldl addOpen (group.filterMap terminal?)
  if results.any (fun r => r.status == .outcomeUnknown) then results
  else
    match plan.steps.find? (fun step => !results.any (fun r => r.stepId == step.stepId)) with
    | some pending => results ++ [notInvoked pending.stepId "invocation_not_started"]
    | none => results

/-- What recovery does with one group of the journal. -/
inductive Recovery where
  | skip
  | retained (outcome : Outcome)
  | sign (outcome : Outcome)
  | fail

/-- One round of the loop of `Recover`; `count` events are in the journal by now. -/
def recoverGroup (host : Host) (trusted : String → Bool) (count : Nat)
    (group : List JournalEntry) : Recovery :=
  if group.any isSettled then .skip
  else if group.any isReconciled && !group.any isManualReview then .skip
  else
    match group.reverse.findSome? outcome? with
    | some outcome => .retained outcome
    | none =>
      match group.findSome? lease? with
      | none => .skip
      | some lease =>
        match host.verify trusted lease.planJson with
        | none => .fail
        | some plan =>
          match persistOutcome host plan lease count (recoveredResults plan group) with
          | none => .fail
          | some outcome => .sign outcome

structure RecoverResult where
  outcomes : List Outcome := []
  appended : Journal := []
  /-- no exception ended the loop -/
  finished : Bool := true

/-- The loop of `Recover` over the groups. -/
def recoverGroups (host : Host) (trusted : String → Bool) (journal : Journal) :
    Nat → List String → RecoverResult
  | _, [] => {}
  | count, planId :: rest =>
    match recoverGroup host trusted count (journal.group planId) with
    | .skip => recoverGroups host trusted journal count rest
    | .retained outcome =>
      let r := recoverGroups host trusted journal count rest
      { r with outcomes := outcome :: r.outcomes }
    | .sign outcome =>
      let r := recoverGroups host trusted journal (count + 1) rest
      { r with
        outcomes := outcome :: r.outcomes
        appended := ⟨planId, .outcome outcome⟩ :: r.appended }
    | .fail => { finished := false }

def recover (host : Host) (trusted : String → Bool) (journal : Journal) : RecoverResult :=
  recoverGroups host trusted journal journal.length journal.planIds

/-! ## Runs of the host -/

/-- An event that another part of the host appends. -/
inductive Mark where
  | acknowledged
  | reconciled
  | abandonedWithoutEffect
  | manualReviewRequired
  | reconciliationEvidence
  | reconciliationRetry

def Mark.entry : Mark → JournalEntry
  | acknowledged => .acknowledged
  | reconciled => .reconciled
  | abandonedWithoutEffect => .abandonedWithoutEffect
  | manualReviewRequired => .manualReviewRequired
  | reconciliationEvidence => .reconciliationEvidence
  | reconciliationRetry => .reconciliationRetry

/-- A crash leaves the first events a call appends and starts a new process. -/
inductive HostStep where
  | execute (lease : LeasedPlan) (session : RuntimeSession) (env : ExecuteRun)
      (crash : Option Nat)
  | recover (trusted : String → Bool) (crash : Option Nat)
  | mark (planId : String) (kind : Mark)
  | restart

structure HostState where
  journal : Journal := []
  process : ProcessState := {}

/-- The events of one step, as far as they became durable. -/
def HostStep.appended (host : Host) (s : HostState) : HostStep → Journal
  | .execute lease session env crash =>
    match admitPlan host s.journal s.process lease session env with
    | .ok (.inr plan) =>
      let entries := executionEntries host s.journal s.process plan lease session env
      let kept := match crash with
        | some n => entries.take n
        | none => entries
      kept.map (fun entry => ⟨plan.planId, entry⟩)
    | _ => []
  | .recover trusted crash =>
    let appended := (Connector.recover host trusted s.journal).appended
    match crash with
    | some n => appended.take n
    | none => appended
  | .mark planId kind => [⟨planId, kind.entry⟩]
  | .restart => []

def HostStep.processAfter (host : Host) (s : HostState) : HostStep → ProcessState
  | .execute _ _ _ (some _) => {}
  | .execute lease session env none =>
    match admitPlan host s.journal s.process lease session env with
    | .ok (.inr plan) =>
      Connector.processAfter host s.process plan lease session env s.journal
    | _ => { s.process with
        gateQuarantined := s.process.gateQuarantined || s.process.executionQuarantined
          || s.process.requiresProcessRestart }
  | .recover _ (some _) => {}
  | .recover trusted none =>
    let r := Connector.recover host trusted s.journal
    if r.finished then
      { s.process with executionQuarantined :=
          r.outcomes.any (fun o => o.overallStatus == .outcomeUnknown) }
    else s.process
  | .mark _ _ => s.process
  | .restart => {}

def HostState.step (host : Host) (s : HostState) (step : HostStep) : HostState where
  journal := s.journal ++ step.appended host s
  process := step.processAfter host s

end Ai00.Connector
