import Ai00.Connector.ServerRows

/-! # The server's transactions on one device

The transactions of `connector_repository.py` that write the rows of a device: runtime sessions
(register, restart, renew, takeover), plans (insert, lease), outcomes (complete, acknowledge,
reconcile) and recovery (registration, human review). Each is a function of the rows as the
device lock finds them; one that raises leaves them as they were. Random tokens and lease ids,
and what other tables say, are given with the call.
-/

namespace Ai00.Connector

/-! ## Sessions -/

section

variable (env : ServerEnv)

def isIdentityStart (c : Char) : Bool :=
  ('A' ≤ c && c ≤ 'Z') || ('a' ≤ c && c ≤ 'z') || ('0' ≤ c && c ≤ '9')

/-- `IDENTITY_PATTERN`. -/
def isIdentity (s : String) : Bool :=
  matchesName isIdentityStart
    (fun c => isIdentityStart c || ['_', '.', ':', '@', '/', '-'].contains c) 0 255 s.toList

def runtimeSessionMax : Ticks := 660 * 10000000

def installRuntimeSession (db : ServerDb) (device : RuntimeDevice) (generation : Nat)
    (instanceId : String) (now expiresAt : Ticks) (token : String) : Except String ServerDb := do
  unlessRaise (isIdentity instanceId = true) "runtime_instance_invalid"
  unlessRaise (0 < expiresAt - now ∧ expiresAt - now ≤ runtimeSessionMax)
    "runtime_session_expiry_invalid"
  let retired := retireQueuedPlans db device
  return { retired with
    device := { device with
      generation := generation
      session := some (instanceId, env.sha256 token)
      sessionExpiresAt := some expiresAt } }

def registerRuntimeSession (db : ServerDb) (legacy : Bool) (generation : Nat)
    (instanceId : String) (now expiresAt : Ticks) (token : String) : Except String ServerDb := do
  let device ← lockedRuntime db
  unlessRaise (device.generation = generation) "runtime_generation_invalid"
  unlessRaise (device.isLive now = false) "runtime_session_active"
  let retired := retireRestartSafeReadPlans db now false
  unlessRaise (hasUnresolvedPlans retired legacy = false) "runtime_plans_unresolved"
  unlessRaise (∀ reserved, device.takeoverInstanceId = some reserved → reserved = instanceId)
    "runtime_instance_reserved"
  let installed ← installRuntimeSession env retired device generation instanceId now expiresAt token
  return { installed with device := { installed.device with takeoverInstanceId := none } }

def restartRuntimeSession (db : ServerDb) (legacy : Bool) (generation : Nat)
    (priorInstance priorToken instanceId : String) (now expiresAt : Ticks) (token : String) :
    Except String ServerDb := do
  let device ← authenticatedRuntime env db generation priorInstance priorToken now
  let retired := retireRestartSafeReadPlans db now true
  unlessRaise (hasUnresolvedPlans retired legacy = false) "runtime_plans_unresolved"
  installRuntimeSession env retired device generation instanceId now expiresAt token

def renewRuntime (db : ServerDb) (generation : Nat) (instanceId token : String)
    (now expiresAt : Ticks) : Except String ServerDb := do
  let device ← authenticatedRuntime env db generation instanceId token now
  unlessRaise (0 < expiresAt - now ∧ expiresAt - now ≤ runtimeSessionMax)
    "runtime_session_expiry_invalid"
  return { db with device := { device with sessionExpiresAt := some expiresAt } }

/-- `force_takeover`; `expected` is the session the caller read before. -/
def forceTakeover (db : ServerDb) (legacy : Bool) (expectedGeneration newGeneration : Nat)
    (expected : Option (String × String)) (instanceId actorId reason : String)
    (requireRegistration : Bool) (now expiresAt : Ticks) (token : String) :
    Except String ServerDb := do
  unlessRaise (actorId ≠ "" ∧ reason ≠ "" ∧ reason.length ≤ 1024)
    "runtime_takeover_audit_required"
  let device ← lockedRuntime db
  unlessRaise (device.generation = expectedGeneration ∧ newGeneration = expectedGeneration + 1)
    "runtime_generation_invalid"
  unlessRaise (device.session = expected) "runtime_session_conflict"
  unlessRaise (hasUnresolvedPlans db legacy = false) "runtime_plans_unresolved"
  let installed ← installRuntimeSession env db device newGeneration instanceId now expiresAt token
  if requireRegistration then
    return { installed with
      device := { installed.device with
        sessionExpiresAt := some now, takeoverInstanceId := some instanceId } }
  else return installed

def registerReconciliationSession (db : ServerDb) (generation : Nat)
    (recoveryInstanceId planId tokenHash : String) (now expiresAt : Ticks) :
    Except String ServerDb := do
  unlessRaise (isHexDigest tokenHash = true) "reconciliation_token_hash_invalid"
  unlessRaise (isIdentity recoveryInstanceId = true) "runtime_instance_invalid"
  unlessRaise (0 < expiresAt - now ∧ expiresAt - now ≤ 300 * 10000000)
    "runtime_session_expiry_invalid"
  let device ← lockedRuntime db
  unlessRaise (device.generation = generation) "runtime_generation_invalid"
  unlessRaise (device.sessionExpiresAt.isSome = true ∧ device.isLive now = false)
    "runtime_session_active"
  -- expiry establishes uncertainty, never absence of side effects
  let plans := Rows.update
    (fun p => p.planId == planId && device.owns p
      && (p.status == .leased || p.status == .executing) && p.leaseExpired now)
    (fun p => { p with status := .outcomeUnknown }) db.plans
  unlessRaise (plans.any (fun p => p.planId == planId && device.owns p
    && (p.status == .outcomeUnknown || p.status == .manualReviewRequired
      || ((p.status == .succeeded || p.status == .failedWithoutEffect)
        && p.outcomeHash.isSome && p.reconciledAt.isNone))) = true) "plan_reconciliation_invalid"
  unlessRaise (∀ prior, db.recovery = some prior → prior.consumedAt.isSome = true
    ∨ prior.expiresAt ≤ now) "reconciliation_session_active"
  match device.sessionKey with
  | none => throw "runtime_session_conflict"
  | some execution =>
    return { db with
      plans := plans
      recovery := some ⟨execution, recoveryInstanceId, planId, tokenHash, expiresAt, none⟩ }

end

/-! ## Plans -/

section

variable (env : ServerEnv)

/-- What `insert_v2_plan` does about one earlier plan: nothing, retire it, or refuse. -/
inductive Earlier where
  | keep
  | retire
  deriving DecidableEq

def judgeEarlier (plan : PlanDocument) (now : Ticks) (previous : RuntimePlan) :
    Except String Earlier :=
  if plan.sameRequest previous.document = false then .ok .keep
  else if previous.status = .succeeded then do
    let writes := plan.execution.steps.any (fun s => s.sideEffectClassification != .read)
    let sameSession := previous.document.execution.runtimeGeneration
          == plan.execution.runtimeGeneration
        && previous.document.execution.runtimeInstanceId == plan.execution.runtimeInstanceId
    let safe := (← repeatIsIntrinsicallySafe plan)
      || repeatIsFreshlyConfirmedDocumentLaunch plan previous.document
      || repeatIsExplicitCacheOpen plan previous.document
    unlessRaise (¬ (writes = true ∧ sameSession = false ∧ safe = false)) "reconciliation_required"
    return .keep
  else
    let uncertain := previous.status == .outcomeUnknown || previous.status == .manualReviewRequired
    let expiredLease := (previous.status == .leased || previous.status == .executing)
      && previous.leaseExpired now
    let expiredQueued := previous.status == .queued && decide (previous.expiresAt ≤ now)
    if (uncertain || expiredLease || expiredQueued)
        && restartSafeReadSteps previous.document.execution.steps then .ok .retire
    else .error "reconciliation_required"

/-- `IN ('queued', 'leased', 'executing', 'outcome_unknown', 'manual_review_required')`. -/
def PlanStatus.open (status : PlanStatus) : Bool := status == .queued || status.unresolved

def retiredEarlier (plan : PlanDocument) (now : Ticks) : List RuntimePlan →
    Except String (List String)
  | [] => .ok []
  | previous :: rest => do
    let verdict ← judgeEarlier plan now previous
    let retired ← retiredEarlier plan now rest
    return if verdict = .retire then previous.planId :: retired else retired

/-- The caller gives the token of the session, or else its hash. -/
def presentsSession (device : RuntimeDevice) (sessionToken expectedTokenHash : Option String) :
    Bool :=
  let stored := device.session.map Prod.snd
  match sessionToken, expectedTokenHash with
  | some token, _ => stored == some (env.sha256 token)
  | none, some hash => hash != "" && hash == stored.getD ""
  | none, none => false

/-- `insert_v2_plan`; `takenElsewhere` says that another device has a plan of this id. -/
def insertV2Plan (db : ServerDb) (plan : PlanDocument) (takenElsewhere : Bool)
    (sessionToken expectedTokenHash : Option String) (now : Ticks) : Except String ServerDb := do
  unlessRaise (plan.execution.valid = true) "ValidationError"
  let device ← lockedRuntime db
  unlessRaise (presentsSession env device sessionToken expectedTokenHash = true
    ∧ device.isLive now = true) "runtime_session_invalid"
  match device.sessionKey with
  | none => throw "plan_session_mismatch"
  | some session =>
    unlessRaise (plan.execution.runtimeGeneration = session.generation
      ∧ plan.execution.runtimeInstanceId = session.instanceId) "plan_session_mismatch"
    unlessRaise (device.tenantGid = plan.execution.tenantId
      ∧ device.ownerUserGid = plan.actorId) "plan_lease_invalid"
    unlessRaise (takenElsewhere = false) "plan_session_mismatch"
    match db.plans.find? (fun p => p.planId == plan.execution.planId
      || p.idempotencyKey == plan.idempotencyKey) with
    | some current =>
      unlessRaise (current.session = session) "plan_session_mismatch"
      unlessRaise (now < plan.execution.expiresAt) "plan_lease_invalid"
      unlessRaise (current.planId = plan.execution.planId
        ∧ current.planHash = plan.execution.planHash) "idempotency_conflict"
      return db
    | none =>
      unlessRaise (now < plan.execution.expiresAt) "plan_lease_invalid"
      let retired ← retiredEarlier plan now
        (db.plans.filter (fun p => p.status.open || p.status == .succeeded))
      let plans := Rows.update (fun p => retired.contains p.planId && p.status.open)
        (fun p => { p with status := .failedWithoutEffect }) db.plans
      return { db with
        plans := plans ++ [{
          planId := plan.execution.planId, session := session,
          tenantGid := plan.execution.tenantId, actorGid := plan.actorId,
          idempotencyKey := plan.idempotencyKey, planHash := plan.execution.planHash,
          document := plan, expiresAt := plan.execution.expiresAt, createdAt := now }] }

/-- The order in which plans are leased: snapshots last, then by age. -/
def leasedBefore (a b : RuntimePlan) : Prop :=
  toLex (rank a, toLex (a.createdAt, a.planId)) ≤ toLex (rank b, toLex (b.createdAt, b.planId))
where
  rank (p : RuntimePlan) : Nat :=
    if (p.document.execution.steps.head?.map ConnectorStep.operationId)
      = some snapshotOperation then 1 else 0

instance : DecidableRel leasedBefore := fun a b =>
  inferInstanceAs (Decidable (toLex (leasedBefore.rank a, toLex (a.createdAt, a.planId))
    ≤ toLex (leasedBefore.rank b, toLex (b.createdAt, b.planId))))

def maxPlanLeaseSeconds : Nat := 600

/-- What `lease_v2_plan` returns, with the session it leased to. -/
structure PlanLease where
  planId : String
  session : SessionKey
  leaseId : String
  leaseUntil : Ticks

/-- The updates `lease_v2_plan` starts with: leases that have run out become unknown, and queued
plans past their time expire. -/
def sweepOverdue (db : ServerDb) (device : RuntimeDevice) (now : Ticks) : ServerDb :=
  let unknown := Rows.update (fun p => device.owns p
      && (p.status == .leased || p.status == .executing) && p.leaseExpired now)
    (fun p => { p with status := .outcomeUnknown }) db.plans
  { db with
    plans := Rows.update
      (fun p => device.owns p && p.status == .queued && decide (p.expiresAt ≤ now))
      (fun p => { p with status := .expired }) unknown }

def leaseV2Plan (db : ServerDb) (legacy : Bool) (generation : Nat) (instanceId token : String)
    (now : Ticks) (leaseSeconds : Int) (leaseId : String) :
    Except String (ServerDb × Option PlanLease) := do
  let seconds := max 1 (min leaseSeconds maxPlanLeaseSeconds)
  let device ← authenticatedRuntime env db generation instanceId token now
  let db := sweepOverdue db device now
  if hasUnresolvedPlans db legacy then return (db, none)
  let candidates := db.plans.filter
    (fun p => device.owns p && p.status == .queued && decide (now < p.expiresAt))
  match (candidates.insertionSort leasedBefore).head? with
  | none => return (db, none)
  | some current =>
    let leaseUntil := min (now + seconds * 10000000)
      (min (device.sessionExpiresAt.getD now) current.expiresAt)
    unlessRaise (db.plans.any (fun p => p.leaseId == some leaseId) = false) "IntegrityError"
    return ({ db with
        plans := Rows.update
          (fun p => p.planId == current.planId && device.owns p && p.status == .queued)
          (fun p => { p with
            status := .leased, leaseId := some leaseId, leaseUntil := some leaseUntil
            attempts := p.attempts + 1 }) db.plans },
      some ⟨current.planId, ⟨generation, instanceId, env.sha256 token⟩, leaseId, leaseUntil⟩)

end

/-! ## Outcomes -/

section

variable (env : ServerEnv)

inductive Submission where
  | outcome (outcome : Outcome)
  | evidence (evidence : ReconciliationEvidence)

namespace Submission

def planId : Submission → String
  | .outcome o => o.planId
  | .evidence e => e.planId

def planHash : Submission → String
  | .outcome o => o.planHash
  | .evidence e => e.planHash

def leaseId : Submission → String
  | .outcome o => o.leaseId
  | .evidence e => e.leaseId

def tenantId : Submission → String
  | .outcome o => o.tenantId
  | .evidence e => e.tenantId

def deviceId : Submission → String
  | .outcome o => o.deviceId
  | .evidence e => e.deviceId

def runtimeGeneration : Submission → Nat
  | .outcome o => o.runtimeGeneration
  | .evidence e => e.runtimeGeneration

def runtimeInstanceId : Submission → String
  | .outcome o => o.runtimeInstanceId
  | .evidence e => e.runtimeInstanceId

def deviceKeyId : Submission → String
  | .outcome o => o.deviceKeyId
  | .evidence e => e.deviceKeyId

def journalSequence : Submission → Nat
  | .outcome o => o.journalSequence
  | .evidence e => e.journalSequence

def isEvidence : Submission → Bool
  | .outcome _ => false
  | .evidence _ => true

/-- `model_validate`, with the code it is reported under. -/
def validate (env : ServerEnv) : Submission → Except String Unit
  | .outcome o => unlessRaise (env.outcomeValid o = true) "plan_outcome_invalid"
  | .evidence e =>
    unlessRaise (env.reconciliation.wellFormed e = true) "reconciliation_evidence_invalid"

end Submission

/-- The row as `ReconciliationService.verify` reads it. -/
def RuntimePlan.reconciledRow (plan : RuntimePlan) (device : RuntimeDevice) : ReconciledRow where
  plan := plan.document.execution
  payload := plan.document.payload
  outcome := plan.outcome
  planId := plan.planId
  planHash := plan.planHash
  leaseId := plan.leaseId.getD ""
  runtimeInstanceId := plan.session.instanceId
  runtimeGeneration := plan.session.generation
  deviceId := device.deviceId
  tenantId := plan.tenantGid

def errorText : PyError → String
  | .typeError m | .valueError m | .runtimeError m | .attributeError m | .validationError m
  | .dataError m => m
  | .keyError key => String.ofList key
  | .assertionError => ""

def StoredOutcome.overallStatus : StoredOutcome → StepStatus
  | .reported o => o.overallStatus
  | .reconciled o => o.overallStatus

def verifiedOutcome (plan : RuntimePlan) (device : RuntimeDevice) (recovery : Option RecoveryRow)
    (tokenHash : String) : Submission → Except String StoredOutcome
  | .outcome o => do
    unlessRaise (env.verifyOutcome o = true) "outcome_signature_invalid"
    verifySteps plan.document.execution o
    return .reported o
  | .evidence e =>
    let session : RecoverySession := match recovery with
      | some r => ⟨some r.recoveryInstanceId, r.tokenHash⟩
      | none => ⟨none, tokenHash⟩
    match verifyReconciliation env.reconciliation (plan.reconciledRow device) session e
      device.lastJournalSequence with
    | .ok o => .ok (.reconciled o)
    | .error e => .error (errorText e)

def identityOperation : String := "vismockup.document.identity.read@1"
def hierarchyOperation : String := "vismockup.document.hierarchy_inventory.read@1"

/-- A plan of one read of the mock-up's adapter, for one capability. -/
def PlanDocument.isSingleRead (document : PlanDocument) (capability operation contractHash : String)
    (payload : Wire Points → Bool) : Bool :=
  document.execution.capabilityId == capability && document.majorVersion == 1
    && document.execution.adapterId == "ai00.vismockup" && document.execution.adapterMajor == 1
    && document.execution.targetProduct.productId == "siemens.vismockup"
    && match document.execution.steps with
      | [step] => step.operationId == operation && step.contractHash == contractHash
          && step.sideEffectClassification == .read && step.postConditionProbeId.isNone
          && payload (document.payload step.stepId)
      | _ => false

/-- `isinstance(value, int)` within bounds; a boolean is an `int`. -/
def isIntBetween (low high : Int) : Option (Wire Points) → Bool
  | some (.int n) => decide (low ≤ n ∧ n ≤ high)
  | some (.bool b) => decide (low ≤ b.toInt ∧ b.toInt ≤ high)
  | _ => false

/-- The payload of `hierarchy_inventory_only_plan`. -/
def isInventoryPayload : Wire Points → Bool
  | .obj members =>
    let get (key : String) := (members.find? (fun m => m.1 == points key.toList)).map Prod.snd
    members.length == 4
      && ["document_session", "start_index", "page_size", "max_nodes"].all
        (fun key => (get key).isSome)
      && (match get "document_session" with
        | some (.str _) => true
        | _ => false)
      && isIntBetween 0 (2 ^ 1024) (get "start_index") && isIntBetween 1 16 (get "page_size")
      && isIntBetween 1 100000 (get "max_nodes")
  | _ => false

def evidenceOnlyPlan (document : PlanDocument) : Bool :=
  document.isSingleRead "simulation.vismockup.document.identity.read.request" identityOperation
      "sha256:2a8b6e89d3a13cf35b0584a989ed79977700d3cd3fe9fcc918c3b871d1c8c4d7"
      (fun payload => match payload with
        | .obj [] => true
        | _ => false)
    || document.isSingleRead "simulation.vismockup.document.hierarchy_inventory.read.request"
      hierarchyOperation
      "sha256:a89bdc3fbb04ee643f1434dee83c653df8a04fc406ac7fff1e61ce39ee99685a" isInventoryPayload

/-- `connector_outcome_target(plan)[0]`. -/
def outcomeTarget (plan : ExecutionPlan) : String :=
  if plan.capabilityId = "simulation.environment.runtime_package.open.request" then
    "simulation.connector_environment_runtime_outcome.apply"
  else if plan.steps ≠ [] ∧ ∀ step ∈ plan.steps, step.operationId = snapshotOperation then
    "simulation.connector_document_snapshot_outcome.apply"
  else if ∃ step ∈ plan.steps, step.operationId = "vismockup.view.capture@1" then
    "simulation.connector_capture_outcome.apply"
  else "simulation.connector_materialization_outcome.apply"

/-- The projection intent of a new outcome; a projection under way refuses it. -/
def projectionIntent (outbox : List OutboxRow) (document : PlanDocument) (planId digest : String)
    (now : Ticks) : Except String (List OutboxRow) :=
  match outbox.find? (fun o => o.planId == planId) with
  | some intent => do
    unlessRaise (intent.status ≠ .projecting) "projection_in_progress"
    unlessRaise (evidenceOnlyPlan document = false) "projection_target_mismatch"
    return Rows.update (fun o => o.planId == planId)
      (fun o => { o with
        outcomeHash := digest, targetCapability := outcomeTarget document.execution
        status := .pending, attempt := 0, nextRetryAt := some now, leaseOwner := none
        leaseUntil := none }) outbox
  | none =>
    .ok (if evidenceOnlyPlan document then outbox
      else outbox ++ [{ planId := planId, outcomeHash := digest, nextRetryAt := some now
                        targetCapability := outcomeTarget document.execution
                        createdAt := now }])

def admitsOutcome (plan : RuntimePlan) (now : Ticks) (submission : Submission) :
    Except String Unit :=
  let running := plan.status = .leased ∨ plan.status = .executing
  if submission.isEvidence then
    unlessRaise (plan.status = .outcomeUnknown ∨ plan.status = .manualReviewRequired
      ∨ (running ∧ plan.leaseExpired now = true)) "plan_reconciliation_invalid"
  else do
    unlessRaise (plan.outcomeHash = none) "connector_outcome_conflict"
    unlessRaise (running ∧ plan.leaseExpired now = false) "plan_lease_invalid"

def submittedPlan (db : ServerDb) (device : RuntimeDevice) (submission : Submission) :
    Option RuntimePlan :=
  db.plans.find? (fun p => p.planId == submission.planId && device.owns p
    && p.leaseId == some submission.leaseId)

/-- The session that may write: the runtime's own, or for evidence on an expired session a
recovery session. -/
def writingSession (db : ServerDb) (generation : Nat) (instanceId token : String) (now : Ticks)
    (submission : Submission) : Except String (RuntimeDevice × Option RecoveryRow) := do
  let device ← lockedRuntime db
  if submission.isEvidence ∧ device.sessionExpiresAt.isSome = true ∧ device.isLive now = false then
    let recovery ← authenticatedRecovery env db device generation instanceId token
      submission.planId now
    return (device, some recovery)
  else
    let device ← authenticatedRuntime env db generation instanceId token now
    return (device, none)

/-- `_write_v2_outcome`; `complete_v2_plan` gives it an outcome, `mark_reconciled` evidence. -/
def writeV2Outcome (db : ServerDb) (generation : Nat) (instanceId token : String) (now : Ticks)
    (submission : Submission) : Except String ServerDb := do
  submission.validate env
  let (device, recovery) ← writingSession env db generation instanceId token now submission
  unlessRaise (submission.deviceId = device.deviceId ∧ submission.runtimeGeneration = generation
    ∧ device.session.map Prod.fst = some submission.runtimeInstanceId) "plan_lease_invalid"
  match submittedPlan db device submission with
  | none => throw "plan_lease_invalid"
  | some current =>
    unlessRaise (current.planHash = submission.planHash
      ∧ current.tenantGid = submission.tenantId) "plan_lease_invalid"
    unlessRaise (submission.deviceKeyId = device.deviceKeyId) "device_key_invalid"
    unlessRaise (current.document.execution.valid = true) "ValidationError"
    let stored ← verifiedOutcome env current device recovery
      ((device.session.map Prod.snd).getD "") submission
    let digest := env.sha256 (env.encode stored)
    if current.outcomeHash = some digest
        ∧ (submission.isEvidence = false ∨ current.reconciledAt.isSome = true) then
      return db
    unlessRaise (device.lastJournalSequence < submission.journalSequence)
      "journal_sequence_invalid"
    admitsOutcome current now submission
    let outbox ← projectionIntent db.outbox current.document current.planId digest now
    let consumed := recovery.isSome
      && (stored.overallStatus == .succeeded || stored.overallStatus == .failedWithoutEffect)
    return { db with
      device := { device with lastJournalSequence := submission.journalSequence }
      plans := Rows.update (fun p => p.planId == current.planId)
        (fun p => { p with
          status := stored.overallStatus.planStatus
          outcome := some stored
          outcomeHash := some digest
          reconciledAt := if submission.isEvidence then some now else none }) db.plans
      outbox := outbox
      recovery := if consumed then
          db.recovery.map (fun r => { r with consumedAt := some now }) else db.recovery }

/-- `acknowledge_v2_outcome`: only the recovery session is consumed. -/
def acknowledgeV2Outcome (db : ServerDb) (generation : Nat) (instanceId token : String)
    (now : Ticks) (o : Outcome) : Except String ServerDb := do
  unlessRaise (env.outcomeValid o = true) "ValidationError"
  let encoded := env.encode (.reported o)
  let device ← lockedRuntime db
  let recovery ← authenticatedRecovery env db device generation instanceId token o.planId now
  match db.plans.find? (fun p => p.planId == o.planId) with
  | none => throw "outcome_acknowledgement_conflict"
  | some plan =>
    unlessRaise ((plan.status = .succeeded ∨ plan.status = .failedWithoutEffect)
      ∧ plan.reconciledAt = none ∧ o.overallStatus.planStatus = plan.status
      ∧ plan.session = ⟨generation, recovery.execution.instanceId, recovery.execution.tokenHash⟩
      ∧ plan.leaseId = some o.leaseId ∧ plan.planHash = o.planHash ∧ plan.tenantGid = o.tenantId
      ∧ o.deviceId = device.deviceId ∧ o.runtimeGeneration = generation
      ∧ o.runtimeInstanceId = recovery.execution.instanceId
      ∧ o.deviceKeyId = device.deviceKeyId
      ∧ plan.outcomeHash.getD "" = env.sha256 encoded) "outcome_acknowledgement_conflict"
    unlessRaise (plan.outcome.map env.encode = some encoded) "outcome_acknowledgement_conflict"
    return { db with recovery := db.recovery.map (fun r => { r with consumedAt := some now }) }

/-- The lease of the plan has run out without a report. -/
def RuntimePlan.abandonedLease (plan : RuntimePlan) (now : Ticks) : Bool :=
  (plan.status == .leased || plan.status == .executing) && plan.leaseExpired now

/-- `'sha256:' + value`. -/
def prefixed (value : String) : String := "sha256:" ++ value

/-- An expected digest is `sha256:` and 64 digits. -/
def isExpectedDigest (value : String) : Bool :=
  "sha256:".toList.isPrefixOf value.toList
    && isHexDigest (String.ofList (value.toList.drop "sha256:".toList.length))

def expectsOutcome (request : Disposition) (plan : RuntimePlan) : Bool :=
  match plan.outcomeDigest with
  | some digest => request.expectedOutcomeHash == some (prefixed digest)
  | none => request.expectedOutcomeHash.isNone
      && (request.expectedPlanHash.isSome || request.expectedRecoveryFingerprint.isSome)

def resolveManualRecovery (db : ServerDb) (request : Disposition) (actorId tenantId : String)
    (now : Ticks) : Except String ServerDb := do
  unlessRaise (strip request.reason.toList ≠ [] ∧ request.reason.length ≤ 1024
    ∧ ∀ value ∈ [request.expectedOutcomeHash, request.expectedPlanHash,
        request.expectedRecoveryFingerprint],
      value.all isExpectedDigest = true) "recovery_input_invalid"
  let device ← lockedRuntime db
  unlessRaise (actorId ≠ "" ∧ tenantId ≠ "" ∧ device.ownerUserGid = actorId
    ∧ device.tenantGid = tenantId) "runtime_owner_mismatch"
  match db.plans.find? (fun p => p.planId == request.planId) with
  | none => throw "runtime_owner_mismatch"
  | some plan =>
    unlessRaise (plan.actorGid = actorId ∧ plan.tenantGid = tenantId) "runtime_owner_mismatch"
    unlessRaise (device.generation = request.expectedGeneration
      ∧ plan.session.generation = request.expectedGeneration) "recovery_state_changed"
    unlessRaise (expectsOutcome request plan = true) "recovery_state_changed"
    unlessRaise (request.expectedPlanHash.all (· == prefixed plan.planHash) = true)
      "recovery_state_changed"
    match db.dispositions.find? (fun d => d.planId == request.planId) with
    | some prior =>
      unlessRaise (prior = request) "recovery_decision_conflict"
      return db
    | none =>
      unlessRaise (plan.status = .outcomeUnknown ∨ plan.status = .manualReviewRequired
        ∨ plan.abandonedLease now = true) "recovery_state_changed"
      unlessRaise (request.expectedRecoveryFingerprint.all (· == env.fingerprint plan) = true)
        "recovery_state_changed"
      unlessRaise (request.decision ∈ allowedDecisions plan) "recovery_operation_unsupported"
      return { db with
        plans := Rows.update (fun p => p.planId == request.planId)
          (fun p => { p with status := .cancelled, reconciledAt := some now }) db.plans
        dispositions := db.dispositions ++ [request] }

end

/-! ## Calls -/

/-- One transaction, with what the caller, the clock and the random source give it. -/
inductive ServerCall where
  | register (legacy : Bool) (generation : Nat) (instanceId : String) (now expiresAt : Ticks)
      (newToken : String)
  | restart (legacy : Bool) (generation : Nat) (priorInstance priorToken instanceId : String)
      (now expiresAt : Ticks) (newToken : String)
  | renew (generation : Nat) (instanceId token : String) (now expiresAt : Ticks)
  | takeover (legacy : Bool) (expectedGeneration newGeneration : Nat)
      (expected : Option (String × String)) (instanceId actorId reason : String)
      (requireRegistration : Bool) (now expiresAt : Ticks) (newToken : String)
  | registerReconciliation (generation : Nat) (recoveryInstanceId planId tokenHash : String)
      (now expiresAt : Ticks)
  | insert (plan : PlanDocument) (takenElsewhere : Bool)
      (sessionToken expectedTokenHash : Option String) (now : Ticks)
  | lease (legacy : Bool) (generation : Nat) (instanceId token : String) (now : Ticks)
      (leaseSeconds : Int) (leaseId : String)
  | write (generation : Nat) (instanceId token : String) (now : Ticks) (submission : Submission)
  | acknowledge (generation : Nat) (instanceId token : String) (now : Ticks) (outcome : Outcome)
  | resolve (request : Disposition) (actorId tenantId : String) (now : Ticks)

/-- The rows a call leaves and the lease it gives, unless it raises. -/
def ServerCall.run (env : ServerEnv) (db : ServerDb) :
    ServerCall → Except String (ServerDb × Option PlanLease)
  | .register legacy generation instanceId now expiresAt newToken =>
    (registerRuntimeSession env db legacy generation instanceId now expiresAt newToken).map
      (·, none)
  | .restart legacy generation priorInstance priorToken instanceId now expiresAt newToken =>
    (restartRuntimeSession env db legacy generation priorInstance priorToken instanceId now
      expiresAt newToken).map (·, none)
  | .renew generation instanceId token now expiresAt =>
    (renewRuntime env db generation instanceId token now expiresAt).map (·, none)
  | .takeover legacy expectedGeneration newGeneration expected instanceId actorId reason
      requireRegistration now expiresAt newToken =>
      (forceTakeover env db legacy expectedGeneration newGeneration expected instanceId actorId
        reason requireRegistration now expiresAt newToken).map (·, none)
  | .registerReconciliation generation recoveryInstanceId planId tokenHash now expiresAt =>
    (registerReconciliationSession db generation recoveryInstanceId planId tokenHash now
      expiresAt).map (·, none)
  | .insert plan takenElsewhere sessionToken expectedTokenHash now =>
    (insertV2Plan env db plan takenElsewhere sessionToken expectedTokenHash now).map (·, none)
  | .lease legacy generation instanceId token now leaseSeconds leaseId =>
    leaseV2Plan env db legacy generation instanceId token now leaseSeconds leaseId
  | .write generation instanceId token now submission =>
    (writeV2Outcome env db generation instanceId token now submission).map (·, none)
  | .acknowledge generation instanceId token now outcome =>
    (acknowledgeV2Outcome env db generation instanceId token now outcome).map (·, none)
  | .resolve request actorId tenantId now =>
    (resolveManualRecovery env db request actorId tenantId now).map (·, none)

/-- A call that raises is rolled back. -/
def ServerDb.after (env : ServerEnv) (db : ServerDb) (call : ServerCall) :
    ServerDb × Option PlanLease :=
  match call.run env db with
  | .ok result => result
  | .error _ => (db, none)

end Ai00.Connector
