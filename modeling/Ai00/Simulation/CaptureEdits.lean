import Ai00.Simulation.CaptureWorkflow

/-! # What a call writes to a run

Every call edits the steps of the run and sets its status. `CaptureRun.edit` is the edit of all steps
by one function, and the calls that loop over steps are brought to that form. The outcome of a plan
has a form of its own as a function from run to run (`afterSingle`, `afterBatch`), which settles what
a repeated outcome does.
-/

namespace Ai00.Simulation

variable {w w' : World} {r r' : CaptureRun} {s : CaptureStep} {operationId : Str}
  {f g : CaptureStep → CaptureStep} {c : Context}

/-! ## Edits -/

def CaptureRun.edit (r : CaptureRun) (g : CaptureStep → CaptureStep) : CaptureRun :=
  { r with steps := r.steps.map g }

def CaptureRun.setStatus (r : CaptureRun) (status : RunStatus) : CaptureRun := { r with status }

def World.edit (w : World) (g : CaptureStep → CaptureStep) : World := { w with run := w.run.edit g }

def onStep (operationId : Str) (f : CaptureStep → CaptureStep) (s : CaptureStep) : CaptureStep :=
  if s.operationId = operationId then f s else s

/-- An edit leaves the operation of a step. -/
def KeepsId (g : CaptureStep → CaptureStep) : Prop := ∀ s, (g s).operationId = s.operationId

theorem KeepsId.onStep (h : KeepsId f) : KeepsId (onStep operationId f) := by
  intro s
  unfold Simulation.onStep
  split_ifs
  · exact h s
  · rfl

theorem KeepsId.comp (hf : KeepsId f) (hg : KeepsId g) : KeepsId (f ∘ g) :=
  fun s => (hf (g s)).trans (hg s)

theorem edit_edit : (r.edit g).edit f = r.edit (f ∘ g) := by
  unfold CaptureRun.edit
  rw [List.map_map]

@[simp] theorem edit_id : r.edit id = r := by
  unfold CaptureRun.edit
  rw [List.map_id]

theorem step?_edit (hg : KeepsId g) : (r.edit g).step? operationId = (r.step? operationId).map g := by
  unfold CaptureRun.step? CaptureRun.edit
  rw [List.find?_map]
  congr 2
  funext s
  rw [Function.comp_apply, hg]

@[simp] theorem step?_setStatus {status : RunStatus} :
    (r.setStatus status).step? operationId = r.step? operationId := rfl

theorem step?_onStep {f : CaptureStep → CaptureStep} (hf : KeepsId f)
    (h : r.step? operationId = some s) :
    (r.edit (onStep operationId f)).step? operationId = some (f s) := by
  have hid : s.operationId = operationId := by simpa using List.find?_some h
  rw [step?_edit hf.onStep, h, Option.map_some, onStep, if_pos hid]

theorem mem_of_step? (h : r.step? operationId = some s) : s ∈ r.steps := List.mem_of_find?_eq_some h

theorem operationId_of_step? (h : r.step? operationId = some s) : s.operationId = operationId := by
  simpa using List.find?_some h

theorem step?_of_mem (hids : (r.steps.map CaptureStep.operationId).Nodup) (hs : s ∈ r.steps) :
    r.step? s.operationId = some s := by
  unfold CaptureRun.step?
  generalize r.steps = steps at hids hs
  induction steps with
  | nil => cases hs
  | cons x steps ih =>
    rw [List.map_cons, List.nodup_cons] at hids
    rw [List.find?_cons]
    rcases List.mem_cons.mp hs with rfl | hs
    · simp
    · have hne : (x.operationId == s.operationId) = false := by
        rw [beq_eq_false_iff_ne]
        exact fun heq => hids.1 (heq ▸ List.mem_map_of_mem hs)
      rw [hne]
      exact ih hids.2 hs

/-! ## Updates -/

theorem updateCaptureStep_ok (h : w.run.step? operationId = some s) :
    updateCaptureStep operationId f w = (.ok (), w.edit (onStep operationId f)) := by
  unfold updateCaptureStep
  rw [Stateful.read_bind, Stateful.lift_bind_ok (found_eq_ok.mpr h), Stateful.modify_apply]
  rfl

theorem forM_update_ok {ι : Type} (name : ι → Str) (change : ι → CaptureStep → CaptureStep)
    (hkeep : ∀ i, KeepsId (change i)) (is : List ι)
    (hpresent : ∀ i ∈ is, ∃ s, w.run.step? (name i) = some s) :
    (is.forM fun i => updateCaptureStep (name i) (change i)) w
      = (.ok (), w.edit (is.foldl (fun g i => onStep (name i) (change i) ∘ g) id)) := by
  suffices h : ∀ (g : CaptureStep → CaptureStep), KeepsId g →
      (is.forM fun i => updateCaptureStep (name i) (change i)) (w.edit g)
        = (.ok (), w.edit (is.foldl (fun g i => onStep (name i) (change i) ∘ g) g)) by
    have hid := h id fun s => rfl
    rwa [World.edit, edit_id] at hid
  induction is with
  | nil => exact fun g _ => rfl
  | cons i is ih =>
    intro g hg
    obtain ⟨s, hs⟩ := hpresent i List.mem_cons_self
    have hfound : (w.edit g).run.step? (name i) = some (g s) := by
      rw [World.edit, step?_edit hg, hs]
      rfl
    have hnext : (w.edit g).edit (onStep (name i) (change i)) = w.edit (onStep (name i) (change i) ∘ g) := by
      unfold World.edit
      rw [edit_edit]
    show (updateCaptureStep (name i) (change i) >>= _) (w.edit g) = _
    rw [Stateful.bind_ok (updateCaptureStep_ok hfound), hnext]
    exact ih (fun j hj => hpresent j (List.mem_cons_of_mem _ hj)) _ ((hkeep i).onStep.comp hg)

/-- An edit of several operations by one function that does no more the second time. -/
theorem foldl_onStep {names : List Str} (hkeep : KeepsId f) (hidem : ∀ s, f (f s) = f s) :
    names.foldl (fun g name => onStep name f ∘ g) id
      = fun s => if s.operationId ∈ names then f s else s := by
  induction names using List.reverseRecOn with
  | nil => funext s; simp
  | append_singleton names name ih =>
    rw [List.foldl_append, ih]
    funext s
    show onStep name f (if s.operationId ∈ names then f s else s) = _
    unfold onStep
    by_cases hmem : s.operationId ∈ names
    · rw [if_pos hmem, hkeep s, hidem, ite_self, if_pos (List.mem_append_left _ hmem)]
    · rw [if_neg hmem]
      refine if_congr ?_ rfl rfl
      rw [List.mem_append, List.mem_singleton, or_iff_right hmem]

/-! ## Checks and reads -/

variable {α : Type}

theorem check_ok {p : Prop} [Decidable p] {code : String} {k : Unit → Workflow α} (h : p) :
    (check p code >>= k) w = k () w := Stateful.lift_bind_ok (require_eq_ok.mpr h)

theorem check_fails {p : Prop} [Decidable p] {code : String} {k : Unit → Workflow α}
    (h : ¬ p) : ((check p code >>= k) w).2 = w := by
  unfold check require
  rw [if_neg h]
  rfl

variable {captureRunId : Str}

theorem getCaptureRun_bind {k : CaptureRun → Workflow α}
    (h : w.run.isVisible captureRunId c) : (getCaptureRun captureRunId c >>= k) w = k w.run w := by
  have hget : getCaptureRun captureRunId c w = (.ok w.run, w) := by
    unfold getCaptureRun
    rw [Stateful.read_bind, check_ok h]
    rfl
  exact Stateful.bind_ok hget

theorem getCaptureRun_hidden {k : CaptureRun → Workflow α}
    (h : ¬ w.run.isVisible captureRunId c) : ((getCaptureRun captureRunId c >>= k) w).2 = w := by
  have hget : ∃ e, getCaptureRun captureRunId c w = (.error e, w) := by
    unfold getCaptureRun check require
    rw [Stateful.read_bind, if_neg h]
    exact ⟨_, rfl⟩
  obtain ⟨e, he⟩ := hget
  rw [Stateful.bind_error he]

/-- Reading the run at the end of a call changes nothing. -/
@[simp] theorem getCaptureRun_state (captureRunId : Str) : (getCaptureRun captureRunId c w).2 = w := by
  by_cases h : w.run.isVisible captureRunId c
  · have hpure := getCaptureRun_bind (k := fun r => (pure r : Workflow CaptureRun)) h
    unfold getCaptureRun
    rw [Stateful.read_bind, check_ok h]
    rfl
  · unfold getCaptureRun
    rw [Stateful.read_bind]
    exact check_fails h

/-- `found` inside a call: the value, or nothing is changed. -/
theorem found_bind_some {α β : Type} {o : Option α} {e : Error} {a : α} {k : α → Workflow β}
    (h : o = some a) : (Stateful.lift (found o e) >>= k) w = k a w :=
  Stateful.lift_bind_ok (found_eq_ok.mpr h)

theorem found_bind_none {α β : Type} {o : Option α} {e : Error} {k : α → Workflow β}
    (h : o = none) : ((Stateful.lift (found o e) >>= k) w).2 = w := by
  rw [h]
  rfl

/-! ## The outcome of a plan for one step -/

def CaptureStep.withStatus (status : StepStatus) (s : CaptureStep) : CaptureStep := { s with status }

def CaptureStep.completedWith (a : ArtifactRef) (s : CaptureStep) : CaptureStep :=
  { s with status := .completed, artifactRef := some a }

/-- The step gets a status that is not `completed`, and so does the run. -/
def CaptureRun.endedBy (r : CaptureRun) (operationId : Str) (p : Projected) : CaptureRun :=
  (r.edit (onStep operationId (CaptureStep.withStatus p.stepStatus))).setStatus p.runStatus

def CaptureRun.settle (r : CaptureRun) (wasCancelling : Bool) : CaptureRun :=
  (r.settled wasCancelling).elim r r.setStatus

def CaptureRun.completedBy (r : CaptureRun) (operationId : Str) (a : ArtifactRef) : CaptureRun :=
  (r.edit (onStep operationId (CaptureStep.completedWith a))).setStatus .running

/-- All steps of the plan were completed. -/
def Outcome.isComplete (o : Outcome) (plan : Plan) : Bool :=
  o.status.projection == .completed && o.completes plan.steps

def Outcome.ending (o : Outcome) : Projected :=
  if o.status.projection = .failed then .failed else .outcomeUnknown

/-- The artifact the capture step of a complete outcome is to have, where it can be used. -/
def Outcome.image? (o : Outcome) (capture : PlanStep) : Option ArtifactRef :=
  match (o.result? capture.stepId).map StepResult.artifact with
  | some (.valid a) => if a.mediaType.take 6 = "image/".toList then some a else none
  | _ => none

/-- What the outcome of a plan for the step `s` makes of the run. -/
def CaptureRun.afterVerified (r : CaptureRun) (plan : Plan) (capture : PlanStep) (o : Outcome)
    (s : CaptureStep) : CaptureRun :=
  if o.isComplete plan = true then
    if s.status = .completed ∧ s.artifactAttached = true then r.settle r.status.isCancelling
    else (o.image? capture).elim r fun a =>
      (r.completedBy capture.namedOperation a).settle r.status.isCancelling
  else if s.artifactAttached = true then r
  else r.endedBy capture.namedOperation o.ending

def CaptureRun.afterSingle (r : CaptureRun) (plan : Plan) (capture : PlanStep) (o : Outcome)
    (c : Context) : CaptureRun :=
  match r.step? capture.namedOperation with
  | none => r
  | some s =>
    if r.isVisible capture.namedRun c ∧ o.fits plan ∧ matchesPreparedPlan s.plan plan = true then
      r.afterVerified plan capture o s
    else r

def PlanV1.renders (p : PlanV1) : Prop := p.steps.any (fun s => s.operation == .sceneRender) = true

theorem recordStepResult_ended {status : StepStatus} (h : w.run.step? operationId = some s)
    (hstatus : status = .failed ∨ status = .outcomeUnknown) :
    recordStepResult operationId status none w
      = (.ok (), (w.edit (onStep operationId fun s => { s with status })).setStatus .running) := by
  unfold recordStepResult
  rw [check_ok (by rcases hstatus with rfl | rfl <;> decide), if_neg, check_ok rfl]
  · exact Stateful.bind_ok (updateCaptureStep_ok h)
  · rcases hstatus with rfl | rfl <;> decide

theorem recordStepResult_completed {a : ArtifactRef} (h : w.run.step? operationId = some s)
    (hmedia : a.mediaType.take 6 = "image/".toList) :
    recordStepResult operationId .completed (some (.valid a)) w = (.ok (), (w.edit (onStep operationId fun s =>
          { s with status := .completed, artifactRef := some a })).setStatus .running) := by
  unfold recordStepResult
  rw [check_ok (by decide), if_pos rfl]
  show (check _ _ >>= _) w = _
  rw [check_ok hmedia]
  exact Stateful.bind_ok (updateCaptureStep_ok h)

/-- Settling the run at the end of the outcome of a plan for one step. -/
theorem settle_then_get {status : Option RunStatus} :
    ((match status with
      | some status => do
        updateCaptureRun status
        getCaptureRun captureRunId c
      | none => getCaptureRun captureRunId c : Workflow CaptureRun) w).2
        = { w with run := status.elim w.run w.run.setStatus } := by
  cases status with
  | none => exact getCaptureRun_state captureRunId
  | some status => exact getCaptureRun_state captureRunId

theorem result_of_isComplete {o : Outcome} {plan : Plan} {step : PlanStep}
    (h : o.isComplete plan = true) (hstep : step ∈ plan.steps) :
    ∃ result, o.result? step.stepId = some result ∧ result.status.projection = .completed := by
  simp only [Outcome.isComplete, Outcome.completes, Bool.and_eq_true, List.all_eq_true,
    Option.any_eq_true, beq_iff_eq] at h
  exact h.2 step hstep

/-- What is left of recording the artifact of a capture: nothing where it cannot be used. -/
theorem recordStepResult_image {result : StepResult} {k : PUnit → Workflow α}
    (h : w.run.step? operationId = some s) :
    (∃ a, result.artifact = .valid a ∧ a.mediaType.take 6 = "image/".toList
      ∧ (recordStepResult operationId .completed (some result.artifact) >>= k) w
        = k ⟨⟩ { w with run := w.run.completedBy operationId a })
    ∨ ((∀ a, result.artifact = .valid a → a.mediaType.take 6 ≠ "image/".toList)
      ∧ ((recordStepResult operationId .completed (some result.artifact) >>= k) w).2 = w) := by
  cases hartifact : result.artifact with
  | absent => exact .inr ⟨nofun, rfl⟩
  | malformed => exact .inr ⟨nofun, rfl⟩
  | valid a =>
    by_cases hmedia : a.mediaType.take 6 = "image/".toList
    · refine .inl ⟨a, rfl, hmedia, ?_⟩
      exact Stateful.bind_ok (recordStepResult_completed h hmedia)
    · refine .inr ⟨fun b hb => by cases hb; exact hmedia, ?_⟩
      have hfails : ∃ e, recordStepResult operationId .completed (some (.valid a)) w = (.error e, w) := by
        unfold recordStepResult
        rw [check_ok (by decide), if_pos rfl]
        show ∃ e, (check _ _ >>= _) w = _
        unfold check require
        rw [if_neg hmedia]
        exact ⟨_, rfl⟩
      obtain ⟨e, he⟩ := hfails
      rw [Stateful.bind_error he]

theorem applySingleOutcome_state {plan : Plan} {capture : PlanStep} {o : Outcome}
    (hcapture : capture ∈ plan.steps) (hrenders : ∀ s ∈ w.run.steps, s.plan.renders) :
    (applySingleOutcome plan capture o c w).2
      = { w with run := w.run.afterSingle plan capture o c } := by
  unfold applySingleOutcome CaptureRun.afterSingle
  by_cases hvisible : w.run.isVisible capture.namedRun c
  swap
  · rw [getCaptureRun_hidden hvisible]
    cases w.run.step? capture.namedOperation <;> simp [hvisible]
  rw [getCaptureRun_bind hvisible]
  by_cases hfits : o.fits plan
  swap
  · rw [check_fails hfits]
    cases w.run.step? capture.namedOperation <;> simp [hfits]
  rw [check_ok hfits]
  cases hstep : w.run.step? capture.namedOperation with
  | none => exact found_bind_none rfl
  | some s =>
    rw [found_bind_some rfl]
    by_cases hmatch : matchesPreparedPlan s.plan plan = true
    swap
    · rw [check_fails hmatch]
      simp [hmatch]
    have hrendered : (plan.steps.any fun s => s.operation == .sceneRender) = true := by
      rw [steps_of_matches hmatch]
      exact hrenders s (mem_of_step? hstep)
    rw [check_ok hmatch]
    simp only [hvisible, hfits, hmatch, and_self, if_true, hrendered, true_and]
    unfold CaptureRun.afterVerified
    cases hcomplete : o.isComplete plan with
    | false =>
      rw [if_pos (show (o.status.projection == .completed && o.completes plan.steps) = false
        from hcomplete), if_neg Bool.false_ne_true]
      by_cases hattached : s.artifactAttached = true
      · rw [if_pos hattached, if_pos hattached]
        exact getCaptureRun_state _
      · rw [if_neg hattached, if_neg hattached]
        have hended : o.ending.stepStatus = .failed ∨ o.ending.stepStatus = .outcomeUnknown := by
          unfold Outcome.ending
          split_ifs
          · exact .inl rfl
          · exact .inr rfl
        show ((recordStepResult capture.namedOperation o.ending.stepStatus none >>= _) w).2 = _
        rw [Stateful.bind_ok (recordStepResult_ended hstep hended)]
        exact getCaptureRun_state _
    | true =>
      obtain ⟨result, hresult, hprojection⟩ := result_of_isComplete hcomplete hcapture
      have hterminal : o.status.projection = .completed := by
        simp only [Outcome.isComplete, Bool.and_eq_true, beq_iff_eq] at hcomplete
        exact hcomplete.1
      rw [if_neg (by rw [show (o.status.projection == .completed && o.completes plan.steps)
        = true from hcomplete]; decide), if_neg (by rw [hterminal]; simp), hresult, if_pos rfl]
      dsimp only
      by_cases hdone : s.status = .completed ∧ s.artifactAttached = true
      · rw [if_pos hdone, if_pos hdone, getCaptureRun_bind hvisible]
        exact settle_then_get
      · rw [if_neg hdone, if_neg hdone, if_pos hprojection]
        by_cases habsent : result.artifact = .absent
        · rw [check_fails (not_not.mpr habsent)]
          simp [Outcome.image?, hresult, habsent]
        rw [check_ok habsent]
        rcases recordStepResult_image hstep with
          ⟨a, ha, hmedia, hrun⟩ | ⟨hbad, hrun⟩
        · rw [hrun, getCaptureRun_bind
            (w := { w with run := w.run.completedBy capture.namedOperation a }) hvisible]
          have himage : o.image? capture = some a := by
            simp [Outcome.image?, hresult, ha, hmedia]
          rw [himage]
          exact settle_then_get
        · rw [hrun]
          have himage : o.image? capture = none := by
            unfold Outcome.image?
            rw [hresult, Option.map_some]
            cases hartifact : result.artifact with
            | absent => rfl
            | malformed => rfl
            | valid a => exact if_neg (hbad a hartifact)
          rw [himage]
          rfl

end Ai00.Simulation
