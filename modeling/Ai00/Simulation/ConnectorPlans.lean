import Ai00.Basic.Checks

/-! # Capture plans

`application/connector_plans.py` and `application/connector_workflow_v2.py`: the plan that the
connector is to run for one operation of a manifest, or for several one after another, and when a
plan that came back is the one that was prepared. A plan of version 2 is matched against the
prepared one of version 1 field by field.

What a payload holds beside the operation, the run and the attempt (scenes, profiles, highlights) is
one text, `details`. The hash of a plan is a parameter.
-/

namespace Ai00.Simulation

/-- The errors of the workflow, by their text. -/
inductive Error where
  | workflow (code : Str)
  | value (code : Str)
  | key (name : Str)
  | port (code : Str)

inductive ConnectorOperation where
  | applicationProbe
  | modelAttach
  | sceneApply
  | sceneRender
  | sceneVerify
  | viewCapture
  | documentSnapshot
  deriving DecidableEq

structure Payload where
  operationId : Option Str := none
  captureRunId : Option Str := none
  attempt : Option Nat := none
  details : Str
  deriving DecidableEq

/-- `ConnectorStepV1`. -/
structure PlanStep where
  stepId : Str
  operation : ConnectorOperation
  contractHash : Str
  dependsOn : List Str
  payload : Payload
  timeoutSeconds : Nat := 120
  deriving DecidableEq

structure TargetProduct where
  productId : Str
  minimumVersion : Str
  maximumVersionExclusive : Str
  deriving DecidableEq

/-- `ConnectorExecutionPlanV1`. -/
structure PlanV1 where
  planId : Str
  tenantId : Str
  userId : Str
  deviceId : Str
  capabilityVersionGid : Str
  businessDefinitionHash : Str
  adapterId : Str
  adapterMajor : Nat
  targetProduct : TargetProduct
  steps : List PlanStep
  issuedAt : Int
  expiresAt : Int
  planHash : Str
  deriving DecidableEq

inductive Effect where
  | read
  | write
  deriving DecidableEq

structure StepV2 where
  step : PlanStep
  sideEffectClassification : Effect
  postConditionProbe : Option ConnectorOperation
  deriving DecidableEq

/-- The fields of a `ConnectorExecutionPlanV2` that are matched. -/
structure PlanV2 where
  planId : Str
  capabilityId : Str
  majorVersion : Nat
  capabilityVersionGid : Str
  businessDefinitionHash : Str
  tenantId : Str
  actorId : Str
  deviceId : Str
  adapterId : Str
  adapterMajor : Nat
  targetProduct : TargetProduct
  normalizedInputHash : Str
  confirmationReceiptId : Option Str
  idempotencyKey : Str
  steps : List StepV2

inductive Protocol where
  | v1
  | v2
  deriving DecidableEq

inductive Plan where
  | v1 (plan : PlanV1)
  | v2 (plan : PlanV2)

def Plan.planId : Plan → Str
  | .v1 p => p.planId
  | .v2 p => p.planId

def Plan.protocol : Plan → Protocol
  | .v1 _ => .v1
  | .v2 _ => .v2

def Plan.steps : Plan → List PlanStep
  | .v1 p => p.steps
  | .v2 p => p.steps.map StepV2.step

/-! ## Matching -/

/-- `_workflow_identity`, none where it raises. -/
def workflowIdentity (operations : List ConnectorOperation) : Option (Str × Nat) :=
  if .viewCapture ∈ operations then some ("simulation.capture_run.start".toList, 2)
  else if operations ≠ [] ∧ ∀ o ∈ operations, o = .documentSnapshot then
    some ("simulation.document_snapshot.request".toList, 2)
  else if ∀ o ∈ operations, o ∈ [ConnectorOperation.applicationProbe, .modelAttach, .sceneApply,
      .sceneRender, .sceneVerify] then
    some ("simulation.environment.materialize".toList, 2)
  else none

/-- `_effect`. -/
def effectOf (operation : ConnectorOperation) : Effect × Option ConnectorOperation :=
  if operation ∈ [ConnectorOperation.modelAttach, .sceneApply, .sceneRender, .viewCapture] then
    (.write, some .documentSnapshot)
  else (.read, none)

def sameWorkflowIntent (source : PlanV1) (actual : PlanV2) : Bool :=
  match workflowIdentity (source.steps.map PlanStep.operation) with
  | none => false
  | some (capabilityId, major) =>
    decide (actual.planId = source.planId ∧ actual.capabilityId = capabilityId
      ∧ actual.majorVersion = major
      ∧ actual.capabilityVersionGid = source.capabilityVersionGid
      ∧ actual.businessDefinitionHash = source.businessDefinitionHash
      ∧ actual.tenantId = source.tenantId ∧ actual.actorId = source.userId
      ∧ actual.deviceId = source.deviceId ∧ actual.adapterId = source.adapterId
      ∧ actual.adapterMajor = source.adapterMajor
      ∧ actual.targetProduct = source.targetProduct
      ∧ actual.normalizedInputHash = source.planHash
      ∧ actual.idempotencyKey = source.planId
      ∧ actual.confirmationReceiptId.getD [] ≠ []
      ∧ actual.steps = source.steps.map (fun s =>
          ⟨s, (effectOf s.operation).1, (effectOf s.operation).2⟩))

def matchesPreparedPlan (source : PlanV1) : Plan → Bool
  | .v1 actual => source.planHash == actual.planHash && source == actual
  | .v2 actual => sameWorkflowIntent source actual

/-- **A plan that matches has the steps that were prepared.** -/
theorem steps_of_matches {source : PlanV1} {actual : Plan}
    (h : matchesPreparedPlan source actual = true) : actual.steps = source.steps := by
  cases actual with
  | v1 actual =>
    simp only [matchesPreparedPlan, Bool.and_eq_true, beq_iff_eq] at h
    rw [h.2]
    rfl
  | v2 actual =>
    simp only [matchesPreparedPlan, sameWorkflowIntent] at h
    split at h
    · cases h
    · have hsteps := (of_decide_eq_true h).2.2.2.2.2.2.2.2.2.2.2.2.2.2
      simp only [Plan.steps, hsteps, List.map_map]
      exact List.map_id _

/-! ## Manifests -/

structure ManifestOperation where
  operationId : Str
  sequence : Nat
  productNodeKeys : List Str
  sceneHash : Str
  /-- The payload of the five steps of its capture, beside what names the operation, the run and the
  attempt. -/
  details : Nat → Str

structure ConnectorRequirement where
  adapterId : Str
  adapterMajor : Nat
  targetProduct : TargetProduct
  /-- The contract hash of each operation it names. -/
  operations : List (ConnectorOperation × Str)

structure Manifest where
  environmentId : Str
  environmentVersion : Nat
  manifestHash : Str
  bopVersionGid : Str
  revision : Nat
  operations : List ManifestOperation
  connectorRequirement : ConnectorRequirement

/-- `REQUIRED_CONNECTOR_OPERATIONS["vismockup.scene.render@1"]` is a parameter of the workflow. -/
structure Contracts where
  sceneRender : Str
  planHash : PlanV1 → Str

/-- The dictionary of the requirements: the last entry of an operation counts. -/
def ConnectorRequirement.contractHash (r : ConnectorRequirement) (operation : ConnectorOperation) :
    Option Str := r.operations.reverse.lookup operation

/-- `f"step-{index:05d}"`. -/
def stepIdOf (index : Nat) : Str :=
  let digits := Nat.toDigits 10 index
  "step-".toList ++ List.replicate (5 - digits.length) '0' ++ digits

/-- The operations of a plan before they are numbered and chained. -/
structure DraftStep where
  operation : ConnectorOperation
  payload : Payload

/-- What is added to the plan for one operation. -/
def draftSteps (captureRunId : Str) (attempt : Nat) (o : ManifestOperation) : List DraftStep :=
  let named (n : Nat) : Payload := { operationId := some o.operationId, details := o.details n }
  [⟨.sceneRender, named 0⟩, ⟨.sceneVerify, named 1⟩,
    ⟨.viewCapture, { named 2 with captureRunId := some captureRunId, attempt := some attempt }⟩,
    ⟨.sceneRender, named 3⟩, ⟨.sceneVerify, named 4⟩]

def numberSteps (r : ConnectorRequirement) : Nat → List DraftStep → Except Error (List PlanStep)
  | _, [] => .ok []
  | n, d :: rest => do
    let contractHash ← found (r.contractHash d.operation) (.key "contract_hash".toList)
    let step : PlanStep :=
      { stepId := stepIdOf (n + 1), operation := d.operation, contractHash
        dependsOn := if n = 0 then [] else [stepIdOf n], payload := d.payload }
    .ok (step :: (← numberSteps r (n + 1) rest))

/-- What a plan is built with beside the manifest and the operations. -/
structure PlanRequest where
  planId : Str
  deviceId : Str
  tenantId : Str
  userId : Str
  issuedAt : Int
  captureRunId : Str
  attempt : Nat := 1
  capabilityVersionGid : Str
  businessDefinitionHash : Str
  continuous : Bool := false

/-- The operations with the later ones first, by sequence and id. -/
def laterFirst (operations : List ManifestOperation) : List ManifestOperation :=
  operations.insertionSort fun a b =>
    b.sequence < a.sequence ∨ (b.sequence = a.sequence ∧ b.operationId ≤ a.operationId)

def buildCapturePlan (c : Contracts) (m : Manifest) (operations : List Str) (q : PlanRequest) :
    Except Error PlanV1 := do
  let ordered := (laterFirst m.operations).filter (fun o => o.operationId ∈ operations)
  require (ordered ≠ []) (.value "capture_plan_empty".toList)
  require (q.continuous = true ∨ ordered.length = 1)
    (.value "capture_plan_requires_one_operation".toList)
  let steps ← numberSteps m.connectorRequirement 0
    (ordered.flatMap (draftSteps q.captureRunId q.attempt))
  let draft : PlanV1 :=
    { planId := q.planId, tenantId := q.tenantId, userId := q.userId, deviceId := q.deviceId
      capabilityVersionGid := q.capabilityVersionGid
      businessDefinitionHash := q.businessDefinitionHash
      adapterId := m.connectorRequirement.adapterId
      adapterMajor := m.connectorRequirement.adapterMajor
      targetProduct := m.connectorRequirement.targetProduct, steps, issuedAt := q.issuedAt
      expiresAt := q.issuedAt + 15 * 60 * 1000000, planHash := [] }
  .ok { draft with planHash := c.planHash draft }

end Ai00.Simulation
