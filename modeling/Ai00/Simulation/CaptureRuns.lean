import Ai00.Basic.Successive
import Ai00.Simulation.CaptureOutcomes

/-! # Calls on a capture run

The calls on one run in any order, from the run that `start_capture` creates. `Coherent` is what
holds of every run that calls lead to: each step has a plan that captures it in its present attempt,
the steps of a queued plan are queued together, and what is attached is completed.
-/

namespace Ai00.Simulation

inductive Call where
  | dispatchNext (captureRunId approvalReference : Str) (ports : Ports) (c : Context)
  | applyConnectorOutcome (plan : Plan) (outcome : Outcome) (c : Context)
  | retryStep (contracts : Contracts) (captureRunId operationId : Str) (manifest : Option Manifest)
      (retryPlanId : Str) (issuedAt : Int) (c : Context)
  | cancel (captureRunId : Str) (c : Context)

/-- The world a call leaves, whether it returns or raises. -/
def World.execute (w : World) : Call → World
  | .dispatchNext captureRunId approvalReference ports c =>
    (dispatchNext captureRunId approvalReference ports c w).2
  | .applyConnectorOutcome plan outcome c => (applyConnectorOutcome plan outcome c w).2
  | .retryStep contracts captureRunId operationId manifest retryPlanId issuedAt c =>
    (retryStep contracts captureRunId operationId manifest retryPlanId issuedAt c w).2
  | .cancel captureRunId c => (cancel captureRunId c w).2

def runAfter (start : CaptureRun) (calls : List Call) : World :=
  Successive.after World.execute { run := start } calls

variable {w : World} {r : CaptureRun} {s t : CaptureStep} {operationId : Str} {c : Context}
  {plan : Plan} {o : Outcome}

/-! ## Prepared plans -/

/-- The operations that a plan captures. -/
def PlanV1.captureNames (p : PlanV1) : List Str := p.captures.map PlanStep.namedOperation

/-- The plan of a step captures it, in its present attempt. -/
structure Prepared (s : CaptureStep) : Prop where
  renders : s.plan.renders
  own : s.operationId ∈ s.plan.captureNames
  attempts : ∀ capture ∈ s.plan.captures, capture.payload.attempt = some s.attempt

theorem Prepared.of_plan {s s' : CaptureStep} (h : Prepared s) (hplan : s'.plan = s.plan)
    (hid : s'.operationId = s.operationId) (hattempt : s'.attempt = s.attempt) : Prepared s' :=
  ⟨hplan ▸ h.renders, by rw [hplan, hid]; exact h.own, by rw [hplan, hattempt]; exact h.attempts⟩

theorem numberSteps_eq_ok {q : ConnectorRequirement} {drafts : List DraftStep} :
    ∀ {n : Nat} {steps : List PlanStep}, numberSteps q n drafts = .ok steps →
      steps.map (fun p => (p.operation, p.payload)) = drafts.map (fun d => (d.operation, d.payload)) := by
  induction drafts with
  | nil =>
    intro n steps h
    cases h
    rfl
  | cons d rest ih =>
    intro n steps h
    obtain ⟨_, -, h⟩ := bind_eq_ok.mp h
    obtain ⟨more, hmore, h⟩ := bind_eq_ok.mp h
    cases h
    rw [List.map_cons, List.map_cons, ih hmore]

theorem map_captures (steps : List PlanStep) :
    (steps.filter (fun p => p.operation == .viewCapture)).map PlanStep.payload
      = ((steps.map fun p => (p.operation, p.payload)).filter
          (fun x => x.1 == .viewCapture)).map Prod.snd := by
  rw [List.filter_map, List.map_map]
  rfl

theorem captures_drafts (captureRunId : Str) (attempt : Nat) (os : List ManifestOperation) :
    ((((os.flatMap (draftSteps captureRunId attempt)).map fun d => (d.operation, d.payload)).filter
        (fun x => x.1 == .viewCapture)).map Prod.snd)
      = os.map (fun x => ({ operationId := some x.operationId, captureRunId := some captureRunId
                            attempt := some attempt, details := x.details 2 } : Payload)) := by
  induction os with
  | nil => rfl
  | cons x os ih =>
    rw [List.flatMap_cons, List.map_append, List.filter_append, List.map_append, ih]
    rfl

/-- **What a capture plan is**: it renders, and captures its operations in the attempt asked for. -/
theorem buildCapturePlan_eq_ok {contracts : Contracts} {m : Manifest} {names : List Str}
    {q : PlanRequest} {p : PlanV1} (h : buildCapturePlan contracts m names q = .ok p) :
    p.renders ∧ p.captureNames ≠ [] ∧ (∀ name, name ∈ p.captureNames ↔ name ∈ names
        ∧ name ∈ m.operations.map ManifestOperation.operationId)
      ∧ ∀ capture ∈ p.captures, capture.payload.attempt = some q.attempt := by
  obtain ⟨_, hsome, h⟩ := bind_eq_ok.mp h
  obtain ⟨_, -, h⟩ := bind_eq_ok.mp h
  obtain ⟨steps, hsteps, h⟩ := bind_eq_ok.mp h
  cases h
  rw [require_eq_ok] at hsome
  have hpairs := numberSteps_eq_ok hsteps
  have hpayloads : (steps.filter (fun p => p.operation == .viewCapture)).map PlanStep.payload = _ :=
    (map_captures steps).trans ((congrArg _ (congrArg _ hpairs)).trans
      (captures_drafts q.captureRunId q.attempt _))
  have hnames : ∀ payloads : List Payload, payloads = (steps.filter
      (fun p => p.operation == .viewCapture)).map PlanStep.payload →
      (steps.filter (fun p => p.operation == .viewCapture)).map PlanStep.namedOperation
        = payloads.map (fun x => x.operationId.getD []) := by
    rintro payloads rfl
    rw [List.map_map]
    rfl
  refine ⟨?_, ?_, fun name => ?_, fun capture hcapture => ?_⟩
  · obtain ⟨first, rest, hfirst⟩ := List.exists_cons_of_ne_nil hsome
    have hmem : (ConnectorOperation.sceneRender, ({ operationId := some first.operationId
                                                    details := first.details 0 } : Payload))
        ∈ steps.map (fun p => (p.operation, p.payload)) := by
      rw [hpairs, hfirst, List.flatMap_cons, List.map_append]
      exact List.mem_append_left _ List.mem_cons_self
    obtain ⟨step, hstep, heq⟩ := List.mem_map.mp hmem
    simp only [PlanV1.renders, List.any_eq_true, beq_iff_eq]
    exact ⟨step, hstep, congrArg Prod.fst heq⟩
  · show (steps.filter _).map PlanStep.namedOperation ≠ []
    rw [hnames _ hpayloads.symm, List.map_map]
    simpa using hsome
  · show name ∈ (steps.filter _).map PlanStep.namedOperation ↔ _
    rw [hnames _ hpayloads.symm, List.map_map]
    simp only [List.mem_map, Function.comp_apply, Option.getD_some, List.mem_filter, laterFirst,
      List.mem_insertionSort, decide_eq_true_eq]
    constructor
    · rintro ⟨x, ⟨hx, hname⟩, rfl⟩
      exact ⟨hname, x, hx, rfl⟩
    · rintro ⟨hname, x, hx, rfl⟩
      exact ⟨x, ⟨hx, hname⟩, rfl⟩
  · have hmem := List.mem_map_of_mem (f := PlanStep.payload) hcapture
    have heq : capture.payload ∈ (steps.filter (fun p => p.operation == .viewCapture)).map
        PlanStep.payload := hmem
    rw [hpayloads] at heq
    obtain ⟨x, -, hx⟩ := List.mem_map.mp heq
    rw [← hx]

end Ai00.Simulation
