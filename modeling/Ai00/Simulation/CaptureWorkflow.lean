import Ai00.Basic.Stateful
import Ai00.Simulation.ConnectorPlans

/-! # Capture runs

`application/capture_worker.py`: a run has one step for each operation of a manifest, the later
operations first. A step is queued with its plan, runs on the connector, completes with an artifact
and then has the artifact attached; a plan is for one step or, in a continuous run, for all of them.
Each update of a step or of the run is a transaction of its own, so a call that raises keeps the
updates it made.

`World` is one run with the log of what was sent to the connector and to Craft.
-/

namespace Ai00.Simulation

/-! ## Runs and steps -/

inductive StepStatus where
  | queued
  | running
  | completed
  | failed
  | outcomeUnknown
  | cancelled
  | skipped
  deriving DecidableEq

inductive RunStatus where
  | queued
  | running
  | cancelling
  | completed
  | partly
  | failed
  | cancelled
  | outcomeUnknown
  deriving DecidableEq

structure ArtifactRef where
  artifactId : Str
  version : Nat
  sha256 : Str
  mediaType : Str
  deriving DecidableEq

structure CaptureStep where
  operationId : Str
  sequence : Nat
  status : StepStatus
  attempt : Nat := 1
  artifactRef : Option ArtifactRef := none
  artifactAttached : Bool := false
  expectedSceneHash : Str
  plan : PlanV1

structure CaptureRun where
  captureRunId : Str
  environmentId : Str
  environmentVersion : Nat
  manifestHash : Str
  deviceId : Str
  planId : Str
  status : RunStatus
  ownerGid : Str
  teamGid : Option Str
  steps : List CaptureStep

/-- What is sent out, and that the run was cancelled. -/
inductive Event where
  | planQueued (plan : PlanV1)
  | attached (operationIds : List Str)
  | cancelled
  deriving DecidableEq

structure World where
  run : CaptureRun
  log : List Event := []

structure Context where
  userGid : Str
  teamGid : Option Str
  capabilityVersionGid : Str
  businessDefinitionHash : Str

/-- `step["status"] == "skipped"`, or completed with its artifact attached. -/
def CaptureStep.isDone (s : CaptureStep) : Prop :=
  s.status = .skipped ∨ (s.status = .completed ∧ s.artifactAttached = true)

instance (s : CaptureStep) : Decidable s.isDone := inferInstanceAs (Decidable (_ ∨ _))

def CaptureRun.isDone (r : CaptureRun) : Prop := ∀ s ∈ r.steps, s.isDone

instance (r : CaptureRun) : Decidable r.isDone := inferInstanceAs (Decidable (∀ s ∈ r.steps, _))

def CaptureRun.step? (r : CaptureRun) (operationId : Str) : Option CaptureStep :=
  r.steps.find? (fun s => s.operationId == operationId)

def PlanV1.captures (p : PlanV1) : List PlanStep :=
  p.steps.filter (fun s => s.operation == .viewCapture)

def Plan.captures (p : Plan) : List PlanStep :=
  p.steps.filter (fun s => s.operation == .viewCapture)

/-- `str(payload.get("operation_id") or "")`. -/
def PlanStep.namedOperation (s : PlanStep) : Str := s.payload.operationId.getD []

def PlanStep.namedRun (s : PlanStep) : Str := s.payload.captureRunId.getD []

/-! ## The repository -/

def CaptureRun.mapStep (r : CaptureRun) (operationId : Str) (f : CaptureStep → CaptureStep) :
    CaptureRun :=
  { r with steps := r.steps.map fun s => if s.operationId = operationId then f s else s }

def World.mapStep (w : World) (operationId : Str) (f : CaptureStep → CaptureStep) : World :=
  { w with run := w.run.mapStep operationId f }

def World.setStatus (w : World) (status : RunStatus) : World :=
  { w with run := { w.run with status } }

def World.note (w : World) (e : Event) : World := { w with log := w.log ++ [e] }

/-- A call on a run. -/
abbrev Workflow (α : Type) := Stateful World Error α

def check (p : Prop) [Decidable p] (code : String) : Workflow Unit :=
  Stateful.lift (require p (.workflow code.toList))

/-- The run is the one asked for, and its owner or team asks. -/
def CaptureRun.isVisible (r : CaptureRun) (captureRunId : Str) (c : Context) : Prop :=
  r.captureRunId = captureRunId
    ∧ (r.ownerGid = c.userGid ∨ (c.teamGid ≠ none ∧ r.teamGid = c.teamGid))

instance (r : CaptureRun) (captureRunId : Str) (c : Context) : Decidable (r.isVisible captureRunId c) :=
  inferInstanceAs (Decidable (_ ∧ _))

def getCaptureRun (captureRunId : Str) (c : Context) : Workflow CaptureRun := do
  let run ← Stateful.read World.run
  check (run.isVisible captureRunId c) "capture_run_not_found"
  pure run

def updateCaptureStep (operationId : Str) (f : CaptureStep → CaptureStep) : Workflow PUnit := do
  let step ← Stateful.read (fun w => w.run.step? operationId)
  let _ ← Stateful.lift (found step (.workflow "capture_step_not_found".toList))
  Stateful.modify (fun w => w.mapStep operationId f)

def updateCaptureRun (status : RunStatus) : Workflow PUnit :=
  Stateful.modify (fun w => w.setStatus status)

/-! ## Starting -/

/-- The run that `start_capture` creates; two steps of one operation are refused by the table. -/
def startCapture (c : Contracts) (manifest : Option Manifest) (materialized : Bool)
    (captureRunId : Str) (deviceId : Str) (issuedAt : Int) (context : Context) (continuous : Bool) :
    Except Error CaptureRun := do
  let tenantId ← found (context.teamGid.filter (· ≠ [])) (.workflow "tenant_context_required".toList)
  require (context.capabilityVersionGid.take 4 = "cv2_".toList
      ∧ context.businessDefinitionHash.take 7 = "sha256:".toList)
    (.workflow "capability_provenance_required".toList)
  let m ← found manifest (.workflow "simulation_environment_not_found".toList)
  require (materialized = true) (.workflow "simulation_result_not_ready".toList)
  require (m.connectorRequirement.contractHash .sceneRender = some c.sceneRender)
    (.workflow "simulation_capture_environment_upgrade_required".toList)
  require (m.operations ≠ []) (.workflow "simulation_capture_operations_required".toList)
  let ordered := laterFirst m.operations
  let request (planId : Str) (continuous : Bool) : PlanRequest :=
    { planId, deviceId, tenantId, userId := context.userGid, issuedAt, captureRunId
      capabilityVersionGid := context.capabilityVersionGid
      businessDefinitionHash := context.businessDefinitionHash, continuous }
  let planIdOf (index : Nat) : Str :=
    if index = 0 then captureRunId else captureRunId ++ "-op-".toList ++ (stepIdOf (index + 1)).drop 5
  let plans ← ordered.zipIdx.mapM fun (o, index) =>
    buildCapturePlan c m [o.operationId] (request (planIdOf index) false)
  let captured := ordered.filter (fun o => o.productNodeKeys ≠ [])
  let plans ← if continuous = true ∧ captured ≠ [] then do
      let batch ← buildCapturePlan c m (captured.map ManifestOperation.operationId)
        (request captureRunId true)
      .ok ((ordered.zip plans).map fun (o, plan) => if o.productNodeKeys = [] then plan else batch)
    else .ok plans
  require (ordered.map ManifestOperation.operationId).Nodup (.value "duplicate_capture_operation".toList)
  .ok
    { captureRunId, environmentId := m.environmentId, environmentVersion := m.environmentVersion
      manifestHash := m.manifestHash, deviceId, planId := plans.head?.elim [] PlanV1.planId
      status := if captured = [] then .completed else .queued
      ownerGid := context.userGid, teamGid := some tenantId
      steps := (ordered.zip plans).map fun (o, plan) =>
        { operationId := o.operationId, sequence := o.sequence
          status := if o.productNodeKeys = [] then .skipped else .queued
          expectedSceneHash := o.sceneHash, plan } }

/-! ## The next action -/

inductive NextAction where
  | queue (plan : PlanV1)
  | attach (operationId : Str) (artifactRef : ArtifactRef)
  | attachBatch (items : List (Str × ArtifactRef))

def RunStatus.isBlocked (s : RunStatus) : Bool :=
  s == .cancelling || s == .cancelled || s == .failed || s == .partly || s == .outcomeUnknown

def CaptureStep.awaitsAttachment (s : CaptureStep) : Bool := s.status == .completed && !s.artifactAttached

def CaptureStep.item? (s : CaptureStep) : Option (Str × ArtifactRef) :=
  s.artifactRef.map fun a => (s.operationId, a)

def nextAction (run : CaptureRun) (manifest : Option Manifest) : Except Error (Option NextAction) :=
  if run.status.isBlocked then .ok none
  else do
    require (∃ m ∈ manifest, m.manifestHash = run.manifestHash)
      (.workflow "environment_source_changed".toList)
    let completed := run.steps.filter CaptureStep.awaitsAttachment
    let running := run.steps.any (fun s => s.status == .running)
    match completed with
    | first :: _ =>
      if 1 < first.plan.captures.length then
        if running then .ok none
        else do
          require (∀ s ∈ completed, s.artifactRef ≠ none)
            (.workflow "artifact_upload_unconfirmed".toList)
          .ok (some (.attachBatch (completed.filterMap CaptureStep.item?)))
      else do
        let artifactRef ← found first.artifactRef (.workflow "artifact_upload_unconfirmed".toList)
        .ok (some (.attach first.operationId artifactRef))
    | [] =>
      if running then .ok none
      else .ok ((run.steps.find? (fun s => s.status == .queued)).map fun s => .queue s.plan)

/-! ## Dispatching -/

structure ReceiptItem where
  operationId : Option Str
  bopVersionGid : Option Str
  captureRunId : Option Str
  artifactRef : Option ArtifactRef

/-- What the manifest store, the connector and Craft answer to one dispatch. -/
structure Ports where
  manifest : Option Manifest
  queuePlan : Except Error Unit
  attachScreenshot : Except Error Unit
  attachScreenshots : Except Error (List ReceiptItem)

def confirms (items : List (Str × ArtifactRef)) (captureRunId : Str) (bopVersionGid : Str)
    (actual : List ReceiptItem) : Prop :=
  actual.length = items.length
    ∧ (∀ i ∈ items, ∃ r ∈ actual, r.operationId = some i.1)
    ∧ ∀ r ∈ actual, r.bopVersionGid = some bopVersionGid ∧ r.captureRunId = some captureRunId
      ∧ ∃ i ∈ items, r.operationId = some i.1 ∧ r.artifactRef = some i.2

instance (items : List (Str × ArtifactRef)) (captureRunId bopVersionGid : Str)
    (actual : List ReceiptItem) : Decidable (confirms items captureRunId bopVersionGid actual) :=
  inferInstanceAs (Decidable (_ ∧ _))

def dispatchNext (captureRunId approvalReference : Str) (ports : Ports) (c : Context) :
    Workflow CaptureRun := do
  check (approvalReference ≠ []) "downstream_confirmation_required"
  let run ← getCaptureRun captureRunId c
  let action ← Stateful.lift (nextAction run ports.manifest)
  match action with
  | none => Stateful.raise (.workflow "capture_action_not_ready".toList)
  | some (.queue plan) => do
    Stateful.lift ports.queuePlan
    Stateful.modify (fun w => w.note (.planQueued plan))
    (plan.captures.map PlanStep.namedOperation).forM fun operationId =>
      updateCaptureStep operationId (fun s => { s with status := .running })
    updateCaptureRun .running
    getCaptureRun captureRunId c
  | some (.attachBatch items) => do
    let actual ← Stateful.lift ports.attachScreenshots
    check (confirms items captureRunId (ports.manifest.elim [] Manifest.bopVersionGid) actual)
      "artifact_attachment_unconfirmed"
    Stateful.modify (fun w => w.note (.attached (items.map Prod.fst)))
    (items.map Prod.fst).forM fun operationId =>
      updateCaptureStep operationId (fun s => { s with artifactAttached := true })
    updateCaptureRun .completed
    getCaptureRun captureRunId c
  | some (.attach operationId _) => do
    Stateful.lift ports.attachScreenshot
    Stateful.modify (fun w => w.note (.attached [operationId]))
    updateCaptureStep operationId (fun s => { s with artifactAttached := true })
    let refreshed ← getCaptureRun captureRunId c
    if refreshed.isDone then updateCaptureRun .completed else pure ()
    getCaptureRun captureRunId c

/-! ## Outcomes -/

/-- The statuses on the wire, of both protocols. -/
inductive WireStatus where
  | completed
  | failed
  | cancelled
  | outcomeUnknown
  | succeeded
  | failedWithoutEffect
  | manualReviewRequired

inductive Projected where
  | completed
  | failed
  | cancelled
  | outcomeUnknown
  deriving DecidableEq

/-- `projection_status`. -/
def WireStatus.projection : WireStatus → Projected
  | .completed | .succeeded => .completed
  | .failed | .failedWithoutEffect => .failed
  | .cancelled => .cancelled
  | .outcomeUnknown | .manualReviewRequired => .outcomeUnknown

def Projected.stepStatus : Projected → StepStatus
  | .completed => .completed
  | .failed => .failed
  | .cancelled => .cancelled
  | .outcomeUnknown => .outcomeUnknown

def Projected.runStatus : Projected → RunStatus
  | .completed => .completed
  | .failed => .failed
  | .cancelled => .cancelled
  | .outcomeUnknown => .outcomeUnknown

/-- The `artifact` of a result: not a mapping, a mapping that is no `ArtifactRef`, or one that is. -/
inductive ArtifactValue where
  | absent
  | malformed
  | valid (artifactRef : ArtifactRef)
  deriving DecidableEq

structure StepResult where
  stepId : Str
  status : WireStatus
  artifact : ArtifactValue := .absent

structure Outcome where
  planId : Str
  protocol : Protocol
  status : WireStatus
  steps : List StepResult

def Outcome.result? (o : Outcome) (stepId : Str) : Option StepResult :=
  o.steps.find? (fun r => r.stepId == stepId)

/-- The results are of different steps of the plan. -/
def Outcome.fits (o : Outcome) (p : Plan) : Prop :=
  (o.steps.map StepResult.stepId).Nodup ∧ ∀ r ∈ o.steps, r.stepId ∈ p.steps.map PlanStep.stepId

instance (o : Outcome) (p : Plan) : Decidable (o.fits p) := inferInstanceAs (Decidable (_ ∧ _))

/-- Each of some steps has a result that says it was completed. -/
def Outcome.completes (o : Outcome) (steps : List PlanStep) : Bool :=
  steps.all fun s => (o.result? s.stepId).any (fun r => r.status.projection == .completed)

def recordStepResult (operationId : Str) (status : StepStatus) (artifact : Option ArtifactValue) :
    Workflow PUnit := do
  check (status ∈ [.running, .completed, .failed, .outcomeUnknown]) "capture_step_status_invalid"
  if status = .completed then
    let value ← Stateful.lift (found artifact (.workflow "artifact_upload_unconfirmed".toList))
    match value with
    | .valid a => do
      check (a.mediaType.take 6 = "image/".toList) "capture_artifact_invalid"
      updateCaptureStep operationId (fun s => { s with status, artifactRef := some a })
      updateCaptureRun .running
    | _ => Stateful.raise (.value "artifact_ref".toList)
  else do
    check (artifact = none) "capture_artifact_unexpected"
    updateCaptureStep operationId (fun s => { s with status })
    updateCaptureRun .running

def CaptureRun.hasStatus (r : CaptureRun) (status : StepStatus) : Prop :=
  ∃ s ∈ r.steps, s.status = status

instance (r : CaptureRun) (status : StepStatus) : Decidable (r.hasStatus status) :=
  inferInstanceAs (Decidable (∃ s ∈ r.steps, _))

/-- The status the run gets after the outcome of a plan for one step, if any. -/
def CaptureRun.settled (r : CaptureRun) (wasCancelling : Bool) : Option RunStatus :=
  if r.hasStatus .outcomeUnknown then some .outcomeUnknown
  else if r.hasStatus .failed then
    some (if (∀ s ∈ r.steps, s.status ∈ [StepStatus.completed, .failed, .cancelled])
      ∧ r.hasStatus .completed then .partly else .failed)
  else if wasCancelling ∧ ¬ r.hasStatus .running then some .cancelled
  else none

def RunStatus.isCancelling (s : RunStatus) : Bool := s == .cancelling || s == .cancelled

/-- The part of `apply_connector_outcome` for a plan with one capture. -/
def applySingleOutcome (plan : Plan) (capture : PlanStep) (outcome : Outcome) (c : Context) :
    Workflow CaptureRun := do
  let run ← getCaptureRun capture.namedRun c
  check (outcome.fits plan) "plan_outcome_invalid"
  let step ← Stateful.lift (found (run.step? capture.namedOperation)
    (.workflow "capture_step_not_found".toList))
  check (matchesPreparedPlan step.plan plan = true) "plan_outcome_invalid"
  let terminal := outcome.status.projection
  let rendered := plan.steps.any (fun s => s.operation == .sceneRender)
  let complete := terminal == .completed && outcome.completes plan.steps
  let result := outcome.result? capture.stepId
  if rendered = true ∧ complete = false then do
    let status : Projected := if terminal = .failed then .failed else .outcomeUnknown
    if step.artifactAttached then pure () else do
      recordStepResult capture.namedOperation status.stepStatus none
      updateCaptureRun status.runStatus
    getCaptureRun capture.namedRun c
  else if (terminal = .outcomeUnknown ∧ (outcome.steps = [] ∨ outcome.protocol = .v2))
      ∨ (outcome.protocol = .v2 ∧ terminal = .failed ∧ result = none) then do
    recordStepResult capture.namedOperation terminal.stepStatus none
    updateCaptureRun terminal.runStatus
    getCaptureRun capture.namedRun c
  else do
    match result with
    | none => pure ()
    | some result =>
      if step.status = .completed ∧ step.artifactAttached = true then pure ()
      else if result.status.projection = .completed then do
        check (result.artifact ≠ .absent) "artifact_upload_unconfirmed"
        recordStepResult capture.namedOperation .completed (some result.artifact)
      else recordStepResult capture.namedOperation result.status.projection.stepStatus none
    let refreshed ← getCaptureRun capture.namedRun c
    match refreshed.settled run.status.isCancelling with
    | some status => updateCaptureRun status
    | none => pure ()
    getCaptureRun capture.namedRun c

/-- What a batch outcome writes to one of its steps. -/
structure StepChange where
  status : StepStatus
  artifactRef : Option ArtifactRef := none

/-- A change without an artifact leaves the one there is. -/
def StepChange.apply (ch : StepChange) (s : CaptureStep) : CaptureStep :=
  { s with status := ch.status, artifactRef := ch.artifactRef.or s.artifactRef }

def batchChange (plan : Plan) (outcome : Outcome) (capture : PlanStep) : Except Error StepChange :=
  let group := plan.steps.filter (fun s => s.namedOperation == capture.namedOperation)
  if outcome.completes group then
    match (outcome.result? capture.stepId).elim .absent StepResult.artifact with
    | .valid a => do
      require (a.mediaType = "image/png".toList) (.workflow "artifact_upload_unconfirmed".toList)
      .ok ⟨.completed, some a⟩
    | _ => .error (.workflow "artifact_upload_unconfirmed".toList)
  else
    let started := group.any (fun s => (outcome.result? s.stepId).isSome)
    .ok ⟨if outcome.status.projection = .outcomeUnknown then .outcomeUnknown
      else if started then .failed else .cancelled, none⟩

def batchUpdates (run : CaptureRun) (plan : Plan) (outcome : Outcome) :
    List PlanStep → Except Error (List (Str × StepChange))
  | [] => .ok []
  | capture :: rest => do
    let existing ← found (run.step? capture.namedOperation)
      (.workflow "plan_outcome_invalid".toList)
    require (matchesPreparedPlan existing.plan plan = true) (.workflow "plan_outcome_invalid".toList)
    let change ← batchChange plan outcome capture
    let more ← batchUpdates run plan outcome rest
    .ok (if existing.artifactAttached then more else (capture.namedOperation, change) :: more)

def CaptureRun.batchStatus (r : CaptureRun) (before : RunStatus) : RunStatus :=
  if before.isCancelling then .cancelled
  else if r.isDone then .completed
  else if r.hasStatus .outcomeUnknown then .outcomeUnknown
  else if r.hasStatus .failed ∨ r.hasStatus .cancelled then
    if r.hasStatus .completed then .partly else .failed
  else .running

def applyBatchOutcome (plan : Plan) (outcome : Outcome) (c : Context) : Workflow CaptureRun := do
  let runIds := (plan.captures.map PlanStep.namedRun).dedup
  let runId := runIds.headD []
  check (runIds.length = 1 ∧ runId ≠ []) "plan_outcome_invalid"
  let run ← getCaptureRun runId c
  check (outcome.fits plan) "plan_outcome_invalid"
  let updates ← Stateful.lift (batchUpdates run plan outcome plan.captures)
  updates.forM fun (operationId, change) => updateCaptureStep operationId change.apply
  let refreshed ← getCaptureRun runId c
  updateCaptureRun (refreshed.batchStatus run.status)
  getCaptureRun runId c

def applyConnectorOutcome (plan : Plan) (outcome : Outcome) (c : Context) : Workflow CaptureRun := do
  check (outcome.planId = plan.planId ∧ outcome.protocol = plan.protocol) "plan_outcome_invalid"
  match plan.captures with
  | [] => Stateful.raise (.workflow "plan_outcome_invalid".toList)
  | [capture] => applySingleOutcome plan capture outcome c
  | _ => applyBatchOutcome plan outcome c

/-! ## Retrying and cancelling -/

structure RetryResult where
  operationId : Str
  attempt : Nat
  planId : Str

def retryStep (contracts : Contracts) (captureRunId operationId : Str) (manifest : Option Manifest)
    (retryPlanId : Str) (issuedAt : Int) (c : Context) : Workflow RetryResult := do
  let run ← getCaptureRun captureRunId c
  let step ← Stateful.lift (found (run.step? operationId) (.workflow "capture_step_not_found".toList))
  check (step.status ≠ .outcomeUnknown) "local_execution_outcome_unknown"
  check (step.status = .failed) "capture_step_not_retryable"
  let m ← Stateful.lift (found manifest (.workflow "environment_source_changed".toList))
  check (m.manifestHash = run.manifestHash) "environment_source_changed"
  let tenantId ← Stateful.lift (found (c.teamGid.filter (· ≠ []))
    (.workflow "tenant_context_required".toList))
  check (m.connectorRequirement.contractHash .sceneRender = some contracts.sceneRender)
    "simulation_capture_environment_upgrade_required"
  check (m.operations ≠ []) "simulation_capture_operations_required"
  check (c.capabilityVersionGid.take 4 = "cv2_".toList
    ∧ c.businessDefinitionHash.take 7 = "sha256:".toList) "capability_provenance_required"
  let attempt := (if step.attempt = 0 then 1 else step.attempt) + 1
  let plan ← Stateful.lift (buildCapturePlan contracts m [operationId]
    { planId := retryPlanId, deviceId := run.deviceId, tenantId, userId := c.userGid, issuedAt
      captureRunId, attempt, capabilityVersionGid := c.capabilityVersionGid
      businessDefinitionHash := c.businessDefinitionHash })
  updateCaptureStep operationId (fun s =>
    { s with status := .queued, attempt, plan, artifactRef := none, artifactAttached := false })
  updateCaptureRun .queued
  pure ⟨operationId, attempt, retryPlanId⟩

def cancel (captureRunId : Str) (c : Context) : Workflow RunStatus := do
  let run ← getCaptureRun captureRunId c
  (run.steps.filter (fun s => s.status == .queued)).forM fun s =>
    updateCaptureStep s.operationId (fun s => { s with status := .cancelled })
  let status : RunStatus :=
    if run.hasStatus .running ∨ run.hasStatus .outcomeUnknown then .cancelling else .cancelled
  updateCaptureRun status
  Stateful.modify (fun w => w.note .cancelled)
  pure status

end Ai00.Simulation
