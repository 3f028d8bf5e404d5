import Ai00.Basic.Rows
import Ai00.Connector.Reconciliation

/-! # The server's rows of one device

The rows that the transactions of `connector_repository.py` on one device read and write: the
device with its runtime session, the execution plans, the recovery session, the dispositions of
human reviews and the projection outbox. A transaction locks the device row first, so for one
device the transactions follow one another; plans of the older protocol only count as unresolved
or not, and so does a plan id that another device holds.
-/

namespace Ai00.Connector

/-! ## Rows -/

inductive PlanStatus where
  | queued
  | leased
  | executing
  | outcomeUnknown
  | manualReviewRequired
  | succeeded
  | failedWithoutEffect
  | cancelled
  | expired
  deriving DecidableEq

/-- `IN ('leased','executing','outcome_unknown','manual_review_required')`. -/
def PlanStatus.unresolved : PlanStatus → Bool
  | .leased | .executing | .outcomeUnknown | .manualReviewRequired => true
  | _ => false

/-- The statuses a plan ends in. -/
def PlanStatus.settled : PlanStatus → Bool
  | .succeeded | .failedWithoutEffect | .cancelled | .expired => true
  | _ => false

def StepStatus.planStatus : StepStatus → PlanStatus
  | .succeeded => .succeeded
  | .failedWithoutEffect => .failedWithoutEffect
  | .outcomeUnknown => .outcomeUnknown
  | .manualReviewRequired => .manualReviewRequired

/-- `plan_json`; payloads and their hashes are given by step id. -/
structure PlanDocument where
  execution : ExecutionPlan
  actorId : String
  majorVersion : Nat
  normalizedInputHash : String
  confirmationReceiptId : Option String := none
  idempotencyKey : String
  payload : String → Wire Points
  payloadHash : String → String

/-- A runtime session: its generation, the instance and the hash of its token. -/
structure SessionKey where
  generation : Nat
  instanceId : String
  tokenHash : String
  deriving DecidableEq

/-- A row of `workmanship_sim_connector_runtime_plans`. -/
structure RuntimePlan where
  planId : String
  session : SessionKey
  tenantGid : String
  actorGid : String
  idempotencyKey : String
  planHash : String
  document : PlanDocument
  status : PlanStatus := .queued
  leaseId : Option String := none
  leaseUntil : Option Ticks := none
  attempts : Nat := 0
  outcome : Option StoredOutcome := none
  outcomeHash : Option String := none
  reconciledAt : Option Ticks := none
  expiresAt : Ticks
  createdAt : Ticks

/-- A row of `workmanship_sim_connector_runtime_devices`; `session` and `sessionExpiresAt` are
null together. -/
structure RuntimeDevice where
  deviceId : String
  active : Bool := true
  ownerUserGid : String
  tenantGid : String
  deviceKeyId : String
  generation : Nat := 1
  /-- instance and token hash -/
  session : Option (String × String) := none
  sessionExpiresAt : Option Ticks := none
  takeoverInstanceId : Option String := none
  lastJournalSequence : Nat := 0

def RuntimeDevice.sessionKey (device : RuntimeDevice) : Option SessionKey :=
  device.session.map (fun s => ⟨device.generation, s.1, s.2⟩)

/-- A row of `workmanship_sim_connector_runtime_recovery_sessions`. -/
structure RecoveryRow where
  execution : SessionKey
  recoveryInstanceId : String
  planId : String
  tokenHash : String
  expiresAt : Ticks
  consumedAt : Option Ticks := none

inductive Decision where
  | executed
  | notExecuted
  | abandoned
  deriving DecidableEq

/-- `disposition`, as the audit keeps it. -/
structure Disposition where
  planId : String
  expectedGeneration : Nat
  expectedOutcomeHash : Option String
  expectedPlanHash : Option String
  expectedRecoveryFingerprint : Option String
  decision : Decision
  reason : String
  deriving DecidableEq

inductive ProjectionStatus where
  | pending
  | projecting
  | projected
  | retryableFailed
  | reconciliationRequired
  deriving DecidableEq

/-- A row of `workmanship_sim_connector_runtime_projection_outbox`. -/
structure OutboxRow where
  planId : String
  outcomeHash : String
  targetCapability : String
  status : ProjectionStatus := .pending
  attempt : Nat := 0
  leaseOwner : Option String := none
  leaseUntil : Option Ticks := none
  nextRetryAt : Option Ticks := none
  errorCode : Option String := none
  createdAt : Ticks

structure ServerDb where
  device : RuntimeDevice
  plans : List RuntimePlan := []
  recovery : Option RecoveryRow := none
  dispositions : List Disposition := []
  outbox : List OutboxRow := []

/-- What the transactions use of the platform. -/
structure ServerEnv where
  /-- `sha256(text.encode('utf-8')).hexdigest()` -/
  sha256 : String → String
  /-- `canonicalize_v2(outcome)` -/
  encode : StoredOutcome → String
  /-- the outcome or evidence is well formed -/
  outcomeValid : Outcome → Bool
  /-- `OutcomeVerifier.verify` with the key of the device -/
  verifyOutcome : Outcome → Bool
  reconciliation : ReconciliationEnv
  /-- `_recovery_fingerprint` -/
  fingerprint : RuntimePlan → String

/-! ## Checks shared by the transactions -/

/-- `if not condition: raise ConnectorRepositoryError(code)`. -/
def unlessRaise (condition : Prop) [Decidable condition] (code : String) : Except String Unit :=
  if condition then .ok () else .error code

def lockedRuntime (db : ServerDb) : Except String RuntimeDevice :=
  if db.device.active then .ok db.device else .error "runtime_session_invalid"

/-- The session has not expired at `now`. -/
def RuntimeDevice.isLive (device : RuntimeDevice) (now : Ticks) : Bool :=
  match device.sessionExpiresAt with
  | some e => decide (now < e)
  | none => false

section

variable (env : ServerEnv)

def authenticatedRuntime (db : ServerDb) (generation : Nat) (instanceId token : String)
    (now : Ticks) : Except String RuntimeDevice := do
  let device ← lockedRuntime db
  unlessRaise (device.generation = generation ∧ device.session = some (instanceId, env.sha256 token)
    ∧ device.isLive now = true) "runtime_session_invalid"
  return device

def authenticatedRecovery (db : ServerDb) (device : RuntimeDevice) (generation : Nat)
    (instanceId token planId : String) (now : Ticks) : Except String RecoveryRow :=
  match db.recovery with
  | none => .error "runtime_session_invalid"
  | some recovery => do
    unlessRaise (recovery.execution.generation = generation ∧ device.generation = generation
      ∧ recovery.recoveryInstanceId = instanceId ∧ recovery.consumedAt = none
      ∧ now < recovery.expiresAt ∧ device.sessionKey = some recovery.execution
      ∧ recovery.tokenHash = env.sha256 token) "runtime_session_invalid"
    unlessRaise (recovery.planId = planId) "plan_lease_invalid"
    return recovery

end

/-- `_has_unresolved_plans`; `legacy` says whether a plan of the older protocol is unresolved. -/
def hasUnresolvedPlans (db : ServerDb) (legacy : Bool) : Bool :=
  db.plans.any (fun p => p.status.unresolved) || legacy

/-- The plan was queued under the current session of the device. -/
def RuntimeDevice.owns (device : RuntimeDevice) (plan : RuntimePlan) : Bool :=
  device.sessionKey == some plan.session

def restartSafeReadSteps (steps : List ConnectorStep) : Bool :=
  !steps.isEmpty && steps.all (fun step => step.sideEffectClassification == .read
    && !(["teamcenter.model_file.fetch@1", "vismockup.view.capture@1"].contains step.operationId))

/-- `lease_until is not None and lease_until <= now`. -/
def RuntimePlan.leaseExpired (plan : RuntimePlan) (now : Ticks) : Bool :=
  match plan.leaseUntil with
  | some e => decide (e ≤ now)
  | none => false

def retireRestartSafeReadPlans (db : ServerDb) (now : Ticks) (processRestarted : Bool) :
    ServerDb :=
  { db with
    plans := Rows.update
      (fun p => p.status.unresolved && restartSafeReadSteps p.document.execution.steps
        && (processRestarted || p.status == .outcomeUnknown || p.leaseExpired now))
      (fun p => { p with status := .failedWithoutEffect }) db.plans }

/-- `_retire_queued_plans`: plans that were never leased do not outlive their session. -/
def retireQueuedPlans (db : ServerDb) (device : RuntimeDevice) : ServerDb :=
  { db with
    plans := Rows.update
      (fun p => device.owns p && p.status == .queued && p.attempts == 0 && p.leaseId.isNone)
      (fun p => { p with status := .failedWithoutEffect }) db.plans }

/-! ## Plans that may run again -/

/-- `payload.get(key)` of a mapping. -/
def payloadGet (key : String) : Wire Points → Except String (Option (Wire Points))
  | .obj members => .ok ((members.find? (fun m => m.1 == points key.toList)).map Prod.snd)
  | _ => .error "AttributeError"

/-- `value in {True}`. -/
def equalsTrue : Option (Wire Points) → Except String Bool
  | some (.bool b) => .ok b
  | some (.int n) => .ok (n == 1)
  | some (.double (.finite x)) => .ok (decide (x.toRat = 1))
  | some (.arr _) | some (.obj _) => .error "TypeError"
  | _ => .ok false

/-- `_INTRINSICALLY_SAFE_ACTIONS`, of the operations that name an action. -/
def safeActions : List (String × List String) :=
  [("vismockup.visibility.change@1", ["all_on", "all_off"]),
    ("vismockup.node.visibility.change@1", ["show", "hide", "isolate"]),
    ("vismockup.node.selection.change@1", ["highlight", "select", "unhighlight", "deselect"])]

/-- `safe` of `_repeat_is_intrinsically_safe`; an action that is no string is no safe action. -/
def isSafeStep (operationId : String) (payload : Wire Points) : Except String Bool :=
  if operationId = "vismockup.application.probe@1" then do
    equalsTrue (← payloadGet "allow_launch" payload)
  else do
    let action ← payloadGet "action" payload
    match safeActions.find? (fun entry => entry.1 == operationId) with
    | some entry => return entry.2.any (fun allowed => Wire.isText allowed action)
    | none => return false

def repeatIsIntrinsicallySafe (document : PlanDocument) : Except String Bool :=
  if document.execution.steps.isEmpty then .ok false
  else document.execution.steps.foldlM (fun safe step =>
    if safe then isSafeStep step.operationId (document.payload step.stepId) else .ok false) true

def PlanDocument.singleOperation (document : PlanDocument) : Option String :=
  match document.execution.steps with
  | [step] => some step.operationId
  | _ => none

def repeatIsFreshlyConfirmedDocumentLaunch (plan prior : PlanDocument) : Bool :=
  plan.execution.capabilityId == "simulation.teamcenter.visualization.launch.request"
    && (match plan.confirmationReceiptId with
      | some receipt => receipt != "" && plan.confirmationReceiptId != prior.confirmationReceiptId
      | none => false)
    && (match plan.singleOperation with
      | some operation => ["teamcenter.visualization.launch@1",
          "teamcenter.visualization.launch@2"].contains operation
          && prior.singleOperation == some operation
      | none => false)

def repeatIsExplicitCacheOpen (plan prior : PlanDocument) : Bool :=
  let opens (document : PlanDocument) := document.singleOperation == some "vismockup.model.open@3"
  let hashes (document : PlanDocument) :=
    document.execution.steps.map (fun step => document.payloadHash step.stepId)
  plan.execution.capabilityId == "simulation.environment.cache_source.open.request"
    && plan.majorVersion == 1 && plan.idempotencyKey != prior.idempotencyKey
    && opens plan && opens prior && hashes plan == hashes prior

/-- The prior plan asked for the same: tenant, actor, capability and input. -/
def PlanDocument.sameRequest (plan prior : PlanDocument) : Bool :=
  prior.execution.tenantId == plan.execution.tenantId && prior.actorId == plan.actorId
    && prior.execution.capabilityId == plan.execution.capabilityId
    && prior.majorVersion == plan.majorVersion
    && prior.normalizedInputHash == plan.normalizedInputHash

/-! ## Human review -/

/-- A hash of 64 lower-case hexadecimal digits. -/
def isHexDigest (s : String) : Bool :=
  s.toList.length == 64 && s.toList.all (fun c => c.isDigit || ('a' ≤ c && c ≤ 'f'))

/-- `digest` of `_manual_recovery_item`: the outcome hash, when it is one. -/
def RuntimePlan.outcomeDigest (plan : RuntimePlan) : Option String :=
  plan.outcomeHash.filter isHexDigest

def documentOperations : List String :=
  ["teamcenter.visualization.launch@1", "teamcenter.visualization.insert@1",
    "vismockup.model.open@1", "vismockup.model.insert@1"]

/-- `reason is None` of `_manual_recovery_item`: the outcome of one step that is safe to judge. -/
def reviewable (plan : RuntimePlan) : Bool :=
  !(plan.status == .leased || plan.status == .executing) && plan.outcomeDigest.isSome
    && match plan.document.execution.steps with
      | [step] =>
        documentOperations.contains step.operationId
          || (let payload := plan.document.payload step.stepId
            let get (key : String) := match payload with
              | .obj members =>
                (members.find? (fun m => m.1 == points key.toList)).map Prod.snd
              | _ => none
            if step.operationId = "vismockup.application.probe@1" then
              match get "allow_launch" with
              | some (.bool true) => true
              | _ => false
            else
              match safeActions.find? (fun entry => entry.1 == step.operationId) with
              | some entry => entry.2.any (fun allowed => Wire.isText allowed (get "action"))
              | none => false)
      | _ => false

def allowedDecisions (plan : RuntimePlan) : List Decision :=
  if reviewable plan then [.executed, .notExecuted, .abandoned] else [.abandoned]

end Ai00.Connector
