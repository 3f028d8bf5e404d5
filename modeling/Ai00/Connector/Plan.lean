import Ai00.Json.Value

/-! # Execution plans and their outcomes

`contracts/connector_execution_plan_v2.py` with its C# counterpart `ProtocolV2.cs`, as far as
the host and the server read them, and `OutcomeVerifier.verify_steps`. The server accepts the
outcome of a plan when the steps reported are a prefix of the plan's steps, all succeeded but
the last, and the last one has the overall status; without an effect over all, no earlier step
may have had one.
-/

namespace Ai00.Connector

/-- A point in time, in ticks of 100 ns. -/
abbrev Ticks := Int

inductive SideEffect where
  | read
  | write
  | destructive
  deriving DecidableEq

inductive StepStatus where
  | succeeded
  | failedWithoutEffect
  | outcomeUnknown
  | manualReviewRequired
  deriving DecidableEq

inductive ReconciliationState where
  | notRequired
  | pending

structure ConnectorStep where
  stepId : String
  operationId : String
  contractHash : String
  dependsOn : List String := []
  timeoutSeconds : Nat
  sideEffectClassification : SideEffect
  postConditionProbeId : Option String := none

structure TargetProduct where
  productId : String
  minimumVersion : List Nat
  maximumVersionExclusive : List Nat

structure ExecutionPlan where
  planId : String
  planHash : String
  capabilityId : String
  tenantId : String
  deviceId : String
  runtimeGeneration : Nat
  runtimeInstanceId : String
  adapterId : String
  adapterMajor : Nat
  targetProduct : TargetProduct
  steps : List ConnectorStep
  issuedAt : Ticks
  expiresAt : Ticks

/-! ## The closed contract -/

/-- `ConnectorStepV2.verify_step`, the bounds of its fields and the loop of `verify_plan`. -/
def stepsValid (seen : List String) : List ConnectorStep → Bool
  | [] => true
  | step :: rest =>
    !seen.contains step.stepId
      && step.dependsOn.all seen.contains
      && decide step.dependsOn.Nodup
      && decide (1 ≤ step.timeoutSeconds ∧ step.timeoutSeconds ≤ 900)
      && (step.sideEffectClassification == .read || step.postConditionProbeId.isSome)
      && stepsValid (step.stepId :: seen) rest

/-- `ConnectorExecutionPlanV2.verify_plan`. -/
def ExecutionPlan.valid (plan : ExecutionPlan) : Bool :=
  decide (1 ≤ plan.steps.length ∧ plan.steps.length ≤ 10000)
    && decide (1 ≤ plan.runtimeGeneration ∧ 1 ≤ plan.adapterMajor)
    && decide (plan.targetProduct.minimumVersion < plan.targetProduct.maximumVersionExclusive)
    && decide (plan.issuedAt < plan.expiresAt)
    && stepsValid [] plan.steps

theorem nodup_of_stepsValid {seen : List String} {steps : List ConnectorStep}
    (h : stepsValid seen steps = true) :
    (steps.map ConnectorStep.stepId).Nodup ∧
      ∀ step ∈ steps, step.stepId ∉ seen := by
  induction steps generalizing seen with
  | nil => exact ⟨List.nodup_nil, fun _ hs => absurd hs List.not_mem_nil⟩
  | cons step rest ih =>
    simp only [stepsValid, Bool.and_eq_true, Bool.not_eq_true'] at h
    obtain ⟨⟨⟨⟨⟨hseen, -⟩, -⟩, -⟩, -⟩, hrest⟩ := h
    have hrest := ih hrest
    have hnew : step.stepId ∉ seen := by simpa using hseen
    constructor
    · rw [List.map_cons, List.nodup_cons]
      refine ⟨fun hm => ?_, hrest.1⟩
      obtain ⟨other, hother, heq⟩ := List.mem_map.mp hm
      exact hrest.2 other hother (heq ▸ List.mem_cons_self)
    · intro other hother
      rcases List.mem_cons.mp hother with rfl | hother
      · exact hnew
      · exact fun hm => hrest.2 other hother (List.mem_cons_of_mem _ hm)

variable {plan : ExecutionPlan}

theorem ExecutionPlan.nodup_of_valid (h : plan.valid = true) :
    (plan.steps.map ConnectorStep.stepId).Nodup := by
  simp only [valid, Bool.and_eq_true] at h
  exact (nodup_of_stepsValid h.2).1

/-! ## Outcomes -/

structure StepResult where
  stepId : String
  status : StepStatus
  result : Json := .null
  resultHash : Option String := none
  errorCode : Option String := none
  reconciliationState : ReconciliationState := .notRequired

structure Outcome where
  planId : String
  planHash : String
  leaseId : String
  tenantId : String
  deviceId : String
  runtimeGeneration : Nat
  runtimeInstanceId : String
  overallStatus : StepStatus
  steps : List StepResult
  journalSequence : Nat
  deviceKeyId : String

def verifySteps (plan : ExecutionPlan) (outcome : Outcome) : Except String Unit :=
  let expected := plan.steps.map ConnectorStep.stepId
  let actual := outcome.steps.map StepResult.stepId
  let statuses := outcome.steps.map StepResult.status
  if actual ≠ expected.take actual.length then .error "plan_outcome_invalid"
  else
    let valid :=
      if outcome.overallStatus = .succeeded then
        actual == expected && statuses.all (· == .succeeded)
      else
        statuses.getLast? == some outcome.overallStatus
          && statuses.dropLast.all (· == .succeeded)
          -- a mutation that succeeded before means the operation had an effect
          && (outcome.overallStatus != .failedWithoutEffect
            || (plan.steps.take (actual.length - 1)).all
                (fun step => step.sideEffectClassification == .read))
    if valid then .ok () else .error "plan_outcome_invalid"

/-! ## What the server accepts -/

/-- The step results are those of an initial part of the steps, in order. -/
def Reports (steps : List ConnectorStep) (results : List StepResult) : Prop :=
  results.map StepResult.stepId <+: steps.map ConnectorStep.stepId

def AllSucceeded (results : List StepResult) : Prop := ∀ r ∈ results, r.status = .succeeded

def AllRead (steps : List ConnectorStep) : Prop :=
  ∀ step ∈ steps, step.sideEffectClassification = .read

/-- The overall status `PersistOutcome` gives a list of step results. -/
def overallStatus (results : List StepResult) : StepStatus :=
  if results.any (fun r => r.status == .outcomeUnknown) then .outcomeUnknown
  else if results.any (fun r => r.status == .failedWithoutEffect) then .failedWithoutEffect
  else .succeeded

/-- No step of the results awaits a manual review; the host never reports one. -/
def NoReview (results : List StepResult) : Prop := ∀ r ∈ results, r.status ≠ .manualReviewRequired

section

variable {results init : List StepResult} {last : StepResult}

end

end Ai00.Connector
