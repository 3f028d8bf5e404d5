import Ai00.Simulation.CaptureMoves

/-! # Each call is a move

`Call.Careless` says, of the run a call finds, when the call leaves it with a wrong status: a batch is
attached while a step is neither skipped nor completed, the outcome of a plan for one step takes a
cancelled run out of its cancellation, a step of a cancelled run is retried, or a run that is done is
cancelled. `execute_moves` opens the calls.
-/

namespace Ai00.Simulation

variable {w w' : World} {r : CaptureRun} {s t : CaptureStep} {operationId : Str} {c : Context}
  {plan : Plan} {capture : PlanStep} {o : Outcome} {f g : CaptureStep → CaptureStep} {lapse : Prop}

/-! ## When a call lapses -/

def CaptureRun.awaiting (r : CaptureRun) : List CaptureStep :=
  r.steps.filter CaptureStep.awaitsAttachment

/-- A dispatch attaches a batch while a step of the run is neither skipped nor completed. -/
def CaptureRun.attachesPart (r : CaptureRun) (captureRunId approvalReference : Str) (ports : Ports)
    (c : Context) : Prop :=
  (approvalReference ≠ [] ∧ r.isVisible captureRunId c ∧ r.status.isBlocked = false
      ∧ ∃ m ∈ ports.manifest, m.manifestHash = r.manifestHash)
    ∧ (∃ first ∈ r.awaiting.head?, 1 < first.plan.captures.length)
    ∧ ¬ r.hasStatus .running ∧ (∀ s ∈ r.awaiting, s.artifactRef ≠ none)
    ∧ (∃ actual ∈ ports.attachScreenshots.toOption,
      confirms (r.awaiting.filterMap CaptureStep.item?) captureRunId
        (ports.manifest.elim [] Manifest.bopVersionGid) actual)
    ∧ ∃ s ∈ r.steps, s.status ≠ .skipped ∧ s.status ≠ .completed

instance (captureRunId approvalReference : Str) (ports : Ports) :
    Decidable (r.attachesPart captureRunId approvalReference ports c) :=
  inferInstanceAs (Decidable (_ ∧ _))

/-- The outcome of a plan for one step makes a cancelled run failed, of unknown outcome or running. -/
def CaptureRun.losesCancellation (r : CaptureRun) (plan : Plan) (capture : PlanStep) (o : Outcome)
    (c : Context) : Prop :=
  (r.status.isCancelling = true ∧ r.isVisible capture.namedRun c ∧ o.fits plan)
    ∧ ∃ s ∈ r.step? capture.namedOperation, matchesPreparedPlan s.plan plan = true
      ∧ ((o.isComplete plan = false ∧ s.artifactAttached = false)
        ∨ (o.isComplete plan = true ∧ (s.artifactAttached = true ∨ o.image? capture ≠ none)
          ∧ ∃ t ∈ r.steps, t.operationId ≠ capture.namedOperation
            ∧ (t.status = .outcomeUnknown ∨ t.status = .failed
              ∨ (t.status = .running ∧ s.artifactAttached = false))))

instance : Decidable (r.losesCancellation plan capture o c) := inferInstanceAs (Decidable (_ ∧ _))

def CaptureStep.nextAttempt (s : CaptureStep) : Nat := (if s.attempt = 0 then 1 else s.attempt) + 1

/-- The checks of `retry_step`. -/
def CaptureRun.takesRetry (r : CaptureRun) (contracts : Contracts) (captureRunId operationId : Str)
    (manifest : Option Manifest) (retryPlanId : Str) (issuedAt : Int) (c : Context) : Prop :=
  r.isVisible captureRunId c ∧ ∃ s ∈ r.step? operationId, s.status = .failed
    ∧ ∃ m ∈ manifest, m.manifestHash = r.manifestHash
      ∧ ∃ tenantId ∈ c.teamGid.filter (· ≠ []),
        m.connectorRequirement.contractHash .sceneRender = some contracts.sceneRender
        ∧ m.operations ≠ []
        ∧ (c.capabilityVersionGid.take 4 = "cv2_".toList
          ∧ c.businessDefinitionHash.take 7 = "sha256:".toList)
        ∧ (buildCapturePlan contracts m [operationId]
            { planId := retryPlanId, deviceId := r.deviceId, tenantId, userId := c.userGid, issuedAt
              captureRunId, attempt := s.nextAttempt
              capabilityVersionGid := c.capabilityVersionGid
              businessDefinitionHash := c.businessDefinitionHash }).isOk = true

instance (contracts : Contracts) (captureRunId : Str) (manifest : Option Manifest)
    (retryPlanId : Str) (issuedAt : Int) :
    Decidable (r.takesRetry contracts captureRunId operationId manifest retryPlanId issuedAt c) :=
  inferInstanceAs (Decidable (_ ∧ _))

def Call.Careless (r : CaptureRun) : Call → Prop
  | .dispatchNext captureRunId approvalReference ports c =>
    r.attachesPart captureRunId approvalReference ports c
  | .applyConnectorOutcome plan o c =>
    (o.planId = plan.planId ∧ o.protocol = plan.protocol)
      ∧ ∃ capture ∈ plan.captures, plan.captures.length = 1 ∧ r.losesCancellation plan capture o c
  | .retryStep contracts captureRunId operationId manifest retryPlanId issuedAt c =>
    r.status.isCancelling = true
      ∧ r.takesRetry contracts captureRunId operationId manifest retryPlanId issuedAt c
  | .cancel captureRunId c => r.isVisible captureRunId c ∧ r.isDone

instance : ∀ call : Call, Decidable (call.Careless r)
  | .dispatchNext .. => inferInstanceAs (Decidable (CaptureRun.attachesPart ..))
  | .applyConnectorOutcome .. => inferInstanceAs (Decidable (_ ∧ _))
  | .retryStep .. => inferInstanceAs (Decidable (_ ∧ _))
  | .cancel .. => inferInstanceAs (Decidable (_ ∧ _))

/-! ## Checks that fail change nothing -/

section

variable {α : Type}

theorem Moves.of_check {p : Prop} [Decidable p] {code : String} {k : Unit → Workflow α}
    (h : p → Moves lapse w (k () w).2) : Moves lapse w ((check p code >>= k) w).2 := by
  by_cases hp : p
  · rw [check_ok hp]
    exact h hp
  · rw [check_fails hp]
    exact .stay

theorem Moves.of_get {captureRunId : Str} {k : CaptureRun → Workflow α}
    (h : w.run.isVisible captureRunId c → Moves lapse w (k w.run w).2) :
    Moves lapse w ((getCaptureRun captureRunId c >>= k) w).2 := by
  by_cases hvisible : w.run.isVisible captureRunId c
  · rw [getCaptureRun_bind hvisible]
    exact h hvisible
  · rw [getCaptureRun_hidden hvisible]
    exact .stay

theorem Moves.of_lift {β : Type} {x : Except Error β} {k : β → Workflow α}
    (h : ∀ b, x = .ok b → Moves lapse w (k b w).2) :
    Moves lapse w ((Stateful.lift x >>= k) w).2 := by
  cases x with
  | ok b => exact h b rfl
  | error e => exact .stay

end

/-! ## The outcome of a plan for one step -/

theorem CaptureRun.not_isDone (hs : s ∈ r.steps) (h : ¬ s.isDone) : ¬ r.isDone :=
  fun hdone => h (hdone s hs)

theorem CaptureStep.not_isDone_of_status
    (h : s.status ∈ [StepStatus.queued, .running, .failed, .outcomeUnknown, .cancelled]) :
    ¬ s.isDone := by
  rintro (hdone | ⟨hdone, -⟩) <;> simp [hdone] at h

theorem settled_of_clean {wasCancelling : Bool} (hunknown : ¬ r.hasStatus .outcomeUnknown)
    (hfailed : ¬ r.hasStatus .failed) :
    r.settled wasCancelling
      = if wasCancelling = true ∧ ¬ r.hasStatus .running then some .cancelled else none := by
  unfold CaptureRun.settled
  rw [if_neg hunknown, if_neg hfailed]

variable {status : RunStatus}

theorem settled_eq_some {wasCancelling : Bool}
    (h : r.settled wasCancelling = some status) :
    status ≠ .completed ∧ (wasCancelling = false → ¬ r.isDone) := by
  unfold CaptureRun.settled at h
  by_cases hunknown : r.hasStatus .outcomeUnknown
  · rw [if_pos hunknown] at h
    cases h
    obtain ⟨s, hs, hstatus⟩ := hunknown
    exact ⟨by decide, fun _ => r.not_isDone hs (s.not_isDone_of_status (by simp [hstatus]))⟩
  rw [if_neg hunknown] at h
  by_cases hfailed : r.hasStatus .failed
  · rw [if_pos hfailed] at h
    obtain ⟨s, hs, hstatus⟩ := hfailed
    refine ⟨?_, fun _ => r.not_isDone hs (s.not_isDone_of_status (by simp [hstatus]))⟩
    split_ifs at h <;> cases h <;> decide
  rw [if_neg hfailed] at h
  by_cases hcancelling : wasCancelling = true ∧ ¬ r.hasStatus .running
  · rw [if_pos hcancelling] at h
    cases h
    refine ⟨by decide, fun hfalse => ?_⟩
    rw [hcancelling.1] at hfalse
    cases hfalse
  · rw [if_neg hcancelling] at h
    cases h

theorem Reports.refl : Reports r id where
  keepsId := fun _ => rfl
  plan := fun _ => rfl
  attempt := fun _ => rfl
  attachedFlag := fun _ => rfl
  attached := fun _ _ _ => rfl
  status := fun _ _ => .inl rfl
  together := fun _ _ _ _ _ h _ _ => h

/-- What an outcome may do to a step that has no artifact attached. -/
structure Marks (f : CaptureStep → CaptureStep) : Prop where
  keepsId : KeepsId f
  plan : ∀ s, (f s).plan = s.plan
  attempt : ∀ s, (f s).attempt = s.attempt
  attachedFlag : ∀ s, (f s).artifactAttached = s.artifactAttached
  status : ∀ s, (f s).status ∈ [StepStatus.completed, .failed, .outcomeUnknown, .cancelled]

theorem Reports.onStep (h : Coherent w) (hs : w.run.step? operationId = some s)
    (hattached : s.artifactAttached = false) (halone : s.plan.captureNames = [operationId])
    (hf : Marks f) : Reports w.run (Simulation.onStep operationId f) := by
  have hself : ∀ t, t.operationId = operationId → Simulation.onStep operationId f t = f t :=
    fun t ht => if_pos ht
  have hother : ∀ t, t.operationId ≠ operationId → Simulation.onStep operationId f t = t :=
    fun t ht => if_neg ht
  have hmem := mem_of_step? hs
  have hid := operationId_of_step? hs
  refine ⟨hf.keepsId.onStep, fun t => ?_, fun t => ?_, fun t => ?_, fun t ht hattached' => ?_,
    fun t ht => ?_, fun t ht u hu _ hqueued hplan hstays => ?_⟩
  · by_cases heq : t.operationId = operationId
    · rw [hself t heq, hf.plan]
    · rw [hother t heq]
  · by_cases heq : t.operationId = operationId
    · rw [hself t heq, hf.attempt]
    · rw [hother t heq]
  · by_cases heq : t.operationId = operationId
    · rw [hself t heq, hf.attachedFlag]
    · rw [hother t heq]
  · refine hother t fun heq => ?_
    rw [h.unique ht hmem (heq.trans hid.symm), hattached] at hattached'
    cases hattached'
  · by_cases heq : t.operationId = operationId
    · rw [hself t heq]
      exact .inr (hf.status t)
    · exact .inl (hother t heq)
  · by_cases heq : u.operationId = operationId
    · -- a step that is queued with the marked one has its plan, which captures nothing else
      have hown := (h.prepared t ht).own
      rw [← hplan, h.unique hu hmem (heq.trans hid.symm), halone, List.mem_singleton] at hown
      rw [hself t hown] at hstays
      have hstatus := hf.status t
      rw [hstays] at hstatus
      simp at hstatus
    · rw [hother u heq]
      exact hqueued

theorem captureNames_of_matches {p : PlanV1} (hmatch : matchesPreparedPlan p plan = true) :
    p.captureNames = plan.captures.map PlanStep.namedOperation := by
  unfold PlanV1.captureNames PlanV1.captures Plan.captures
  rw [steps_of_matches hmatch]

theorem marks_withStatus {p : Projected} : Marks (CaptureStep.withStatus p.stepStatus) where
  keepsId := fun _ => rfl
  plan := fun _ => rfl
  attempt := fun _ => rfl
  attachedFlag := fun _ => rfl
  status := fun _ => by cases p <;> simp [CaptureStep.withStatus, Projected.stepStatus]

theorem marks_completedWith {a : ArtifactRef} : Marks (CaptureStep.completedWith a) where
  keepsId := fun _ => rfl
  plan := fun _ => rfl
  attempt := fun _ => rfl
  attachedFlag := fun _ => rfl
  status := fun _ => by simp [CaptureStep.completedWith]

theorem hasStatus_onStep {x : StepStatus}
    (h : (r.edit (onStep operationId f)).hasStatus x) :
    (∃ t ∈ r.steps, t.operationId = operationId ∧ (f t).status = x)
      ∨ ∃ t ∈ r.steps, t.operationId ≠ operationId ∧ t.status = x := by
  obtain ⟨u, hu, hstatus⟩ := h
  obtain ⟨t, ht, rfl⟩ := List.mem_map.mp hu
  by_cases heq : t.operationId = operationId
  · rw [onStep, if_pos heq] at hstatus
    exact .inl ⟨t, ht, heq, hstatus⟩
  · rw [onStep, if_neg heq] at hstatus
    exact .inr ⟨t, ht, heq, hstatus⟩

theorem settled_cancelled {x : CaptureRun} (hunknown : ¬ x.hasStatus .outcomeUnknown)
    (hfailed : ¬ x.hasStatus .failed) (h : x.settled true = some status) :
    status.isCancelling = true := by
  rw [settled_of_clean hunknown hfailed] at h
  split_ifs at h
  cases h
  rfl

/-- **The verified outcome of a plan for one step is a move.** -/
theorem afterVerified_moves (h : Coherent w) (hs : w.run.step? capture.namedOperation = some s)
    (halone : s.plan.captureNames = [capture.namedOperation])
    (hlapse : lapse ∨ (w.run.status.isCancelling = true →
      ¬ ((o.isComplete plan = false ∧ s.artifactAttached = false)
        ∨ (o.isComplete plan = true ∧ (s.artifactAttached = true ∨ o.image? capture ≠ none)
          ∧ ∃ t ∈ w.run.steps, t.operationId ≠ capture.namedOperation
            ∧ (t.status = .outcomeUnknown ∨ t.status = .failed
              ∨ (t.status = .running ∧ s.artifactAttached = false)))))) :
    Moves lapse w { w with run := w.run.afterVerified plan capture o s } := by
  have hmem := mem_of_step? hs
  have hid := operationId_of_step? hs
  unfold CaptureRun.afterVerified
  by_cases hcomplete : o.isComplete plan = true
  · rw [if_pos hcomplete]
    by_cases hdone : s.status = .completed ∧ s.artifactAttached = true
    · -- nothing is written to the step
      rw [if_pos hdone]
      cases hsettled : w.run.settled w.run.status.isCancelling with
      | none =>
        have hsame : w.run.settle w.run.status.isCancelling = w.run := by
          rw [CaptureRun.settle, hsettled]
          rfl
        rw [hsame]
        exact .stay
      | some status =>
        have hsame : w.run.settle w.run.status.isCancelling = (w.run.edit id).setStatus status := by
          rw [CaptureRun.settle, hsettled, edit_id]
          rfl
        rw [hsame]
        refine .report id status .refl (hlapse.imp_right fun hcareful hcancelling => ?_) ?_
        · have hclean : ∀ x : StepStatus, x = .outcomeUnknown ∨ x = .failed →
              ¬ w.run.hasStatus x := by
            rintro x hx ⟨t, ht, hstatus⟩
            refine hcareful hcancelling (.inr ⟨hcomplete, .inl hdone.2, t, ht, fun heq => ?_, ?_⟩)
            · rw [h.unique ht hmem (heq.trans hid.symm), hdone.1] at hstatus
              rcases hx with rfl | rfl <;> cases hstatus
            · rw [hstatus]
              exact hx.imp_right .inl
          rw [hcancelling] at hsettled
          exact settled_cancelled (hclean _ (.inl rfl)) (hclean _ (.inr rfl)) hsettled
        · cases hcancelling : w.run.status.isCancelling with
          | true => exact .inl rfl
          | false =>
            obtain ⟨hne, hnot⟩ := settled_eq_some hsettled
            rw [edit_id]
            exact .inr (iff_of_false hne (hnot hcancelling))
    · rw [if_neg hdone]
      have hunattached : s.artifactAttached = false :=
        Bool.eq_false_of_not_eq_true fun hattached => hdone ⟨h.attached s hmem hattached, hattached⟩
      cases himage : o.image? capture with
      | none => exact .stay
      | some a =>
        have hreports := Reports.onStep h hs hunattached halone (marks_completedWith (a := a))
        have hnot : ¬ (w.run.edit (onStep capture.namedOperation (.completedWith a))).isDone := by
          have hin : s.completedWith a ∈ (w.run.edit (onStep capture.namedOperation (.completedWith a))).steps :=
            List.mem_map.mpr ⟨s, hmem, if_pos hid⟩
          refine CaptureRun.not_isDone hin ?_
          rintro (hskipped | ⟨-, hattached⟩)
          · cases hskipped
          · rw [show (s.completedWith a).artifactAttached = s.artifactAttached from rfl, hunattached] at hattached
            cases hattached
        have hothers : w.run.status.isCancelling = true → ¬ lapse → ∀ x : StepStatus,
            x = .outcomeUnknown ∨ x = .failed ∨ x = .running →
            ¬ (w.run.completedBy capture.namedOperation a).hasStatus x := by
          intro hcancelling hcareful x hx hhas
          rcases hasStatus_onStep (f := .completedWith a) hhas with ⟨t, -, -, hstatus⟩ | ⟨t, ht, hne, hstatus⟩
          · rcases hx with rfl | rfl | rfl <;> cases hstatus
          · refine hlapse.resolve_left hcareful hcancelling
              (.inr ⟨hcomplete, .inr (by simp [himage]), t, ht, hne, ?_⟩)
            rw [hstatus]
            exact hx.imp_right fun hx => hx.imp_right fun hx => ⟨hx, hunattached⟩
        rw [Option.elim_some]
        cases hsettled : (w.run.completedBy capture.namedOperation a).settled w.run.status.isCancelling with
        | none =>
          have hsame : (w.run.completedBy capture.namedOperation a).settle w.run.status.isCancelling
              = (w.run.edit (onStep capture.namedOperation (.completedWith a))).setStatus
                  .running := by
            rw [CaptureRun.settle, hsettled]
            rfl
          rw [hsame]
          refine .report _ .running hreports (or_iff_not_imp_left.mpr fun hcareful hcancelling => ?_)
            (.inr (iff_of_false (by decide) hnot))
          have hclean := hothers hcancelling hcareful
          rw [settled_of_clean (hclean _ (.inl rfl)) (hclean _ (.inr (.inl rfl))), hcancelling,
            if_pos ⟨rfl, hclean _ (.inr (.inr rfl))⟩] at hsettled
          cases hsettled
        | some status =>
          have hsame : (w.run.completedBy capture.namedOperation a).settle w.run.status.isCancelling
              = (w.run.edit (onStep capture.namedOperation (.completedWith a))).setStatus
                  status := by
            rw [CaptureRun.settle, hsettled]
            rfl
          rw [hsame]
          refine .report _ status hreports (or_iff_not_imp_left.mpr fun hcareful hcancelling => ?_)
            (.inr (iff_of_false (settled_eq_some hsettled).1 hnot))
          have hclean := hothers hcancelling hcareful
          rw [hcancelling] at hsettled
          exact settled_cancelled (hclean _ (.inl rfl)) (hclean _ (.inr (.inl rfl))) hsettled
  · rw [if_neg hcomplete]
    by_cases hattached : s.artifactAttached = true
    · rw [if_pos hattached]
      exact .stay
    · rw [if_neg hattached]
      have hunattached := Bool.eq_false_of_not_eq_true hattached
      have hended : o.ending = .failed ∨ o.ending = .outcomeUnknown := by
        unfold Outcome.ending
        split_ifs
        · exact .inl rfl
        · exact .inr rfl
      refine .report _ o.ending.runStatus (Reports.onStep h hs hunattached halone marks_withStatus)
        (hlapse.imp_right fun hcareful hcancelling => ?_) (.inr (iff_of_false ?_ ?_))
      · exact absurd (.inl ⟨Bool.eq_false_of_not_eq_true hcomplete, hunattached⟩)
          (hcareful hcancelling)
      · rcases hended with hended | hended <;> rw [hended] <;> decide
      · refine CaptureRun.not_isDone (List.mem_map.mpr ⟨s, hmem, if_pos hid⟩) ?_
        refine CaptureStep.not_isDone_of_status ?_
        rcases hended with hended | hended <;> rw [hended] <;>
          simp [CaptureStep.withStatus, Projected.stepStatus]

/-! ## The outcome of a plan for several steps -/

theorem batchChange_status {ch : StepChange} (h : batchChange plan o capture = .ok ch) :
    ch.status ∈ [StepStatus.completed, .failed, .outcomeUnknown, .cancelled] := by
  unfold batchChange at h
  by_cases hcomplete : o.completes
      (plan.steps.filter (fun s => s.namedOperation == capture.namedOperation)) = true
  · rw [if_pos hcomplete] at h
    cases hartifact : (o.result? capture.stepId).elim ArtifactValue.absent StepResult.artifact with
    | valid a =>
      simp only [hartifact] at h
      obtain ⟨_, -, h⟩ := bind_eq_ok.mp h
      cases h
      simp
    | absent =>
      simp only [hartifact] at h
      cases h
    | malformed =>
      simp only [hartifact] at h
      cases h
  · rw [if_neg hcomplete] at h
    cases h
    dsimp only
    split_ifs <;> simp

theorem batchStatus_of_cancelling {before : RunStatus} (h : before.isCancelling = true) :
    r.batchStatus before = .cancelled := if_pos h

theorem batchStatus_eq_completed {before : RunStatus} (h : before.isCancelling = false) :
    r.batchStatus before = .completed ↔ r.isDone := by
  unfold CaptureRun.batchStatus
  rw [if_neg (by rw [h]; decide)]
  by_cases hdone : r.isDone
  · rw [if_pos hdone]
    exact iff_of_true rfl hdone
  · rw [if_neg hdone]
    refine iff_of_false ?_ hdone
    split_ifs <;> decide

theorem batchEdit_attempt (updates : List (Str × StepChange)) (s : CaptureStep) :
    (batchEdit updates s).attempt = s.attempt := by
  rcases batchEdit_cases updates s.operationId with ⟨-, hsame⟩ | ⟨ch, -, hchange⟩
  · rw [hsame s rfl]
  · rw [hchange s rfl]
    rfl

/-- **A batch reports.** -/
theorem Reports.batch (h : Coherent w) {updates : List (Str × StepChange)}
    (hupdates : batchUpdates w.run plan o plan.captures = .ok updates) :
    Reports w.run (batchEdit updates) := by
  -- an update is of a step without an artifact attached
  have hopen : ∀ s ∈ w.run.steps, s.operationId ∈ updates.map Prod.fst →
      s.artifactAttached = false ∧ matchesPreparedPlan s.plan plan = true := by
    intro s hs hmem
    obtain ⟨u, hu, hname⟩ := List.mem_map.mp hmem
    obtain ⟨t, ht, hattached, hmatch, -⟩ := batchUpdates_mem hupdates hu
    rw [hname, h.step? hs] at ht
    cases ht
    exact ⟨hattached, hmatch⟩
  have hchanged : ∀ s, s.operationId ∈ updates.map Prod.fst →
      (batchEdit updates s).status
        ∈ [StepStatus.completed, .failed, .outcomeUnknown, .cancelled] := by
    intro s hmem
    rcases batchEdit_cases updates s.operationId with ⟨hnot, -⟩ | ⟨ch, ⟨u, hu, -, hstatus⟩, hchange⟩
    · exact absurd hmem hnot
    · obtain ⟨-, -, -, -, x, -, -, hx⟩ := batchUpdates_mem hupdates hu
      rw [hchange s rfl]
      show ch.status ∈ _
      rw [← hstatus]
      exact batchChange_status hx
  have hsame : ∀ s, s.operationId ∉ updates.map Prod.fst → batchEdit updates s = s := by
    intro s hnot
    rcases batchEdit_cases updates s.operationId with ⟨-, hsame⟩ | ⟨ch, ⟨u, hu, hname, -⟩, -⟩
    · exact hsame s rfl
    · exact absurd (List.mem_map.mpr ⟨u, hu, hname⟩) hnot
  refine ⟨batchEdit_keepsId updates, fun s => (batchEdit_verified updates s).1,
    batchEdit_attempt updates, fun s => (batchEdit_verified updates s).2,
    fun s hs hattached => hsame s fun hmem => ?_, fun s _ => ?_,
    fun s hs t ht hqueued hqueued' hplan hstays => ?_⟩
  · rw [(hopen s hs hmem).1] at hattached
    cases hattached
  · by_cases hmem : s.operationId ∈ updates.map Prod.fst
    · exact .inr (hchanged s hmem)
    · exact .inl (hsame s hmem)
  · by_cases hmem : t.operationId ∈ updates.map Prod.fst
    · -- the plan of the updated step captures the other one too, which is then updated
      have hown := (h.prepared s hs).own
      rw [← hplan, captureNames_of_matches (hopen t ht hmem).2] at hown
      obtain ⟨x, hx, hname⟩ := List.mem_map.mp hown
      obtain ⟨u, hu, -, hor⟩ := batchUpdates_covers hupdates hx
      rw [hname, h.step? hs] at hu
      cases hu
      have hnot : ¬ s.artifactAttached = true := h.not_attached hs (by rw [hqueued]; decide)
      have hupdated := hchanged s (hname ▸ hor.resolve_left hnot)
      rw [hstays] at hupdated
      simp at hupdated
    · rw [hsame t hmem]
      exact hqueued'

theorem afterBatch_moves (h : Coherent w) :
    Moves lapse w { w with run := w.run.afterBatch plan o c } := by
  unfold CaptureRun.afterBatch
  by_cases htakes : w.run.takesBatch plan o c
  swap
  · rw [if_neg htakes]
    exact .stay
  rw [if_pos htakes]
  cases hupdates : batchUpdates w.run plan o plan.captures with
  | error e => exact .stay
  | ok updates =>
    refine .report (batchEdit updates) _ (Reports.batch h hupdates)
      (.inr fun hcancelling => by rw [batchStatus_of_cancelling hcancelling]; rfl) ?_
    cases hcancelling : w.run.status.isCancelling with
    | true => exact .inl rfl
    | false => exact .inr (batchStatus_eq_completed hcancelling)

/-! ## Outcomes -/

theorem afterSingle_moves (h : Coherent w) (hcaptures : plan.captures = [capture])
    (hlapse : lapse ∨ ¬ w.run.losesCancellation plan capture o c) :
    Moves lapse w { w with run := w.run.afterSingle plan capture o c } := by
  unfold CaptureRun.afterSingle
  cases hs : w.run.step? capture.namedOperation with
  | none => exact .stay
  | some s =>
    dsimp only
    by_cases hverified : w.run.isVisible capture.namedRun c ∧ o.fits plan ∧ matchesPreparedPlan s.plan plan = true
    swap
    · rw [if_neg hverified]
      exact .stay
    rw [if_pos hverified]
    refine afterVerified_moves h hs ?_ (hlapse.imp_right fun hkeeps hcancelling hloses => hkeeps
      ⟨⟨hcancelling, hverified.1, hverified.2.1⟩, s, hs, hverified.2.2, hloses⟩)
    rw [captureNames_of_matches hverified.2.2, hcaptures]
    rfl

theorem applyConnectorOutcome_moves (h : Coherent w) :
    Moves ((Call.applyConnectorOutcome plan o c).Careless w.run) w
      (applyConnectorOutcome plan o c w).2 := by
  rw [applyConnectorOutcome_state fun s hs => (h.prepared s hs).renders]
  unfold CaptureRun.afterOutcome
  by_cases hsame : o.planId = plan.planId ∧ o.protocol = plan.protocol
  swap
  · rw [if_neg hsame]
    exact .stay
  rw [if_pos hsame]
  rcases hcaptures : plan.captures with _ | ⟨capture, _ | ⟨second, rest⟩⟩
  · exact .stay
  · refine afterSingle_moves h hcaptures (or_iff_not_imp_right.mpr fun hloses => ⟨hsame, capture, ?_⟩)
    exact ⟨by rw [hcaptures]; exact List.mem_singleton_self _, by rw [hcaptures]; rfl, not_not.mp hloses⟩
  · exact afterBatch_moves h

/-! ## Dispatching -/

/-- Updates of several steps by one function that does no more the second time. -/
theorem forM_names_ok {names : List Str} (hkeep : KeepsId f) (hidem : ∀ s, f (f s) = f s)
    (hpresent : ∀ name ∈ names, ∃ s, w.run.step? name = some s) :
    (names.forM fun name => updateCaptureStep name f) w = (.ok (), w.edit (onSteps names f)) := by
  have hloop := forM_update_ok id (fun _ => f) (fun _ => hkeep) names hpresent
  rw [show onSteps names f = _ from (foldl_onStep hkeep hidem).symm]
  exact hloop

theorem items_names {steps : List CaptureStep} (h : ∀ s ∈ steps, s.artifactRef ≠ none) :
    (steps.filterMap CaptureStep.item?).map Prod.fst = steps.map CaptureStep.operationId := by
  induction steps with
  | nil => rfl
  | cons s steps ih =>
    obtain ⟨a, ha⟩ := Option.ne_none_iff_exists'.mp (h s List.mem_cons_self)
    have hitem : s.item? = some (s.operationId, a) := by
      rw [CaptureStep.item?, ha]
      rfl
    rw [List.filterMap_cons_some hitem, List.map_cons, List.map_cons,
      ih fun t ht => h t (List.mem_cons_of_mem _ ht)]

/-- What each action is taken for. -/
inductive Due (r : CaptureRun) : NextAction → Prop
  | queue (s : CaptureStep) (hs : s ∈ r.steps) (hqueued : s.status = .queued) :
      Due r (.queue s.plan)
  | attach (s : CaptureStep) (a : ArtifactRef) (hs : s ∈ r.steps)
      (hawaits : s.awaitsAttachment = true) : Due r (.attach s.operationId a)
  | attachBatch (hfirst : ∃ first ∈ r.awaiting.head?, 1 < first.plan.captures.length)
      (hrunning : ¬ r.hasStatus .running) (hartifacts : ∀ s ∈ r.awaiting, s.artifactRef ≠ none) :
      Due r (.attachBatch (r.awaiting.filterMap CaptureStep.item?))

theorem any_running_eq_false (h : r.steps.any (fun s => s.status == .running) = false) :
    ¬ r.hasStatus .running := by
  rintro ⟨s, hs, hstatus⟩
  rw [List.any_eq_false] at h
  exact h s hs (by rw [hstatus]; rfl)

/-- **When an action is due**, the run is open and the manifest is the one it was started for. -/
theorem nextAction_eq_some {manifest : Option Manifest} {action : NextAction}
    (h : nextAction r manifest = .ok (some action)) :
    r.status.isBlocked = false ∧ (∃ m ∈ manifest, m.manifestHash = r.manifestHash)
      ∧ Due r action := by
  unfold nextAction at h
  cases hblocked : r.status.isBlocked with
  | true =>
    rw [hblocked, if_pos rfl] at h
    cases h
  | false =>
    rw [hblocked, if_neg Bool.false_ne_true] at h
    obtain ⟨_, hmanifest, h⟩ := bind_eq_ok.mp h
    rw [require_eq_ok] at hmanifest
    refine ⟨rfl, hmanifest, ?_⟩
    rcases hawaiting : r.steps.filter CaptureStep.awaitsAttachment with _ | ⟨first, rest⟩
    · simp only [hawaiting] at h
      by_cases hrunning : r.steps.any (fun s => s.status == .running) = true
      · rw [if_pos hrunning] at h
        cases h
      rw [if_neg hrunning] at h
      simp only [Except.ok.injEq, Option.map_eq_some_iff] at h
      obtain ⟨s, hs, rfl⟩ := h
      exact .queue s (List.mem_of_find?_eq_some hs) (by simpa using List.find?_some hs)
    · simp only [hawaiting] at h
      have hmem : first ∈ r.steps.filter CaptureStep.awaitsAttachment := by
        rw [hawaiting]
        exact List.mem_cons_self
      by_cases hseveral : 1 < first.plan.captures.length
      · rw [if_pos hseveral] at h
        by_cases hrunning : r.steps.any (fun s => s.status == .running) = true
        · rw [if_pos hrunning] at h
          cases h
        rw [if_neg hrunning] at h
        obtain ⟨_, hartifacts, h⟩ := bind_eq_ok.mp h
        rw [require_eq_ok] at hartifacts
        cases h
        rw [← hawaiting] at hartifacts ⊢
        exact .attachBatch ⟨first, by rw [CaptureRun.awaiting, hawaiting]; rfl, hseveral⟩
          (any_running_eq_false (Bool.eq_false_of_not_eq_true hrunning)) hartifacts
      · rw [if_neg hseveral] at h
        obtain ⟨a, -, h⟩ := bind_eq_ok.mp h
        cases h
        obtain ⟨hs, hawaits⟩ := List.mem_filter.mp hmem
        exact .attach first a hs hawaits

theorem isCancelling_of_open (h : status.isBlocked = false) :
    status.isCancelling = false := by
  cases status with
  | cancelling => cases h
  | cancelled => cases h
  | _ => rfl

variable {captureRunId : Str}

theorem queue_moves (h : Coherent w) (hs : s ∈ w.run.steps) (hqueued : s.status = .queued)
    (hopen : w.run.status.isBlocked = false) :
    Moves lapse w ((do
      (s.plan.captures.map PlanStep.namedOperation).forM fun operationId =>
        updateCaptureStep operationId (fun s => { s with status := .running })
      updateCaptureRun .running
      getCaptureRun captureRunId c : Workflow CaptureRun) (w.note (.planQueued s.plan))).2 := by
  have hpresent : ∀ name ∈ s.plan.captures.map PlanStep.namedOperation,
      ∃ t, (w.note (.planQueued s.plan)).run.step? name = some t := by
    intro name hname
    obtain ⟨t, ht, hid, -⟩ := h.together s hs hqueued name hname
    exact ⟨t, hid ▸ h.step? ht⟩
  have hloop := forM_names_ok (f := .withStatus .running) (fun _ => rfl) (fun _ => rfl) hpresent
  show Moves lapse w ((List.forM _ (fun name => updateCaptureStep name (.withStatus .running)) >>= _)
    (w.note (.planQueued s.plan))).2
  rw [Stateful.bind_ok hloop]
  show Moves lapse w (getCaptureRun captureRunId c _).2
  rw [getCaptureRun_state]
  exact .queue s hs hqueued (isCancelling_of_open hopen)

theorem onStep_eq_onSteps : onStep operationId f = onSteps [operationId] f := by
  funext s
  simp [onStep, onSteps]

theorem attach_moves (h : Coherent w) (hs : s ∈ w.run.steps) (hawaits : s.awaitsAttachment = true)
    (hopen : w.run.status.isBlocked = false)
    (hvisible : w.run.isVisible captureRunId c) :
    Moves lapse w ((do
      updateCaptureStep s.operationId (fun s => { s with artifactAttached := true })
      let refreshed ← getCaptureRun captureRunId c
      if refreshed.isDone then updateCaptureRun .completed else pure ()
      getCaptureRun captureRunId c : Workflow CaptureRun)
        (w.note (.attached [s.operationId]))).2 := by
  have hstep : (w.note (.attached [s.operationId])).run.step? s.operationId = some s := h.step? hs
  have hall : ∀ name ∈ [s.operationId], ∃ t ∈ w.run.steps, t.operationId = name
      ∧ t.awaitsAttachment = true :=
    List.forall_mem_singleton.mpr ⟨s, hs, rfl, hawaits⟩
  have hmoves : ∀ status, _ → Moves lapse w _ := fun status => Moves.attach [s.operationId] status
    (isCancelling_of_open hopen) (List.cons_ne_nil _ _) (List.nodup_singleton _) hall
  have hedit : (w.note (.attached [s.operationId])).edit (onStep s.operationId .attach)
      = { run := w.run.edit (onSteps [s.operationId] .attach)
          log := w.log ++ [.attached [s.operationId]] } := by
    rw [onStep_eq_onSteps]
    rfl
  show Moves lapse w ((updateCaptureStep s.operationId .attach >>= _)
    (w.note (.attached [s.operationId]))).2
  rw [Stateful.bind_ok (updateCaptureStep_ok hstep), hedit]
  show Moves lapse w ((getCaptureRun captureRunId c >>= _) _).2
  rw [getCaptureRun_bind (by exact hvisible)]
  dsimp only
  by_cases hdone : (w.run.edit (onSteps [s.operationId] .attach)).isDone
  · rw [if_pos hdone]
    show Moves lapse w (getCaptureRun captureRunId c _).2
    rw [getCaptureRun_state]
    exact hmoves .completed (.inr (.inl ⟨rfl, hdone⟩))
  · rw [if_neg hdone]
    show Moves lapse w (getCaptureRun captureRunId c _).2
    rw [getCaptureRun_state]
    exact hmoves w.run.status (.inr (.inr ⟨rfl, hdone⟩))

theorem isDone_attach (h : ∀ s ∈ r.steps, s.status = .skipped ∨ s.status = .completed) :
    (r.edit (onSteps (r.awaiting.map CaptureStep.operationId) .attach)).isDone := by
  refine List.forall_mem_map.mpr fun s hs => ?_
  unfold onSteps
  rcases h s hs with hstatus | hstatus
  · split_ifs <;> exact .inl hstatus
  · cases hattached : s.artifactAttached with
    | true => split_ifs <;> exact .inr ⟨hstatus, by first | rfl | exact hattached⟩
    | false =>
      have hmem : s.operationId ∈ r.awaiting.map CaptureStep.operationId :=
        List.mem_map_of_mem (List.mem_filter.mpr ⟨hs, CaptureStep.awaitsAttachment_iff.mpr ⟨hstatus, hattached⟩⟩)
      rw [if_pos hmem]
      exact .inr ⟨hstatus, rfl⟩

theorem attachBatch_moves (h : Coherent w) {captureRunId approvalReference : Str} {ports : Ports}
    {actual : List ReceiptItem} (happroval : approvalReference ≠ [])
    (hvisible : w.run.isVisible captureRunId c) (hopen : w.run.status.isBlocked = false)
    (hmanifest : ∃ m ∈ ports.manifest, m.manifestHash = w.run.manifestHash)
    (hfirst : ∃ first ∈ w.run.awaiting.head?, 1 < first.plan.captures.length)
    (hrunning : ¬ w.run.hasStatus .running) (hartifacts : ∀ s ∈ w.run.awaiting, s.artifactRef ≠ none)
    (hactual : ports.attachScreenshots = .ok actual)
    (hconfirms : confirms (w.run.awaiting.filterMap CaptureStep.item?) captureRunId
      (ports.manifest.elim [] Manifest.bopVersionGid) actual) :
    Moves (w.run.attachesPart captureRunId approvalReference ports c) w ((do
      ((w.run.awaiting.filterMap CaptureStep.item?).map Prod.fst).forM fun operationId =>
        updateCaptureStep operationId (fun s => { s with artifactAttached := true })
      updateCaptureRun .completed
      getCaptureRun captureRunId c : Workflow CaptureRun)
        (w.note (.attached ((w.run.awaiting.filterMap CaptureStep.item?).map Prod.fst)))).2 := by
  rw [items_names hartifacts]
  have hawaits : ∀ name ∈ w.run.awaiting.map CaptureStep.operationId,
      ∃ s ∈ w.run.steps, s.operationId = name ∧ s.awaitsAttachment = true := by
    refine List.forall_mem_map.mpr fun s hs => ?_
    obtain ⟨hs, hawaits⟩ := List.mem_filter.mp hs
    exact ⟨s, hs, rfl, hawaits⟩
  have hpresent : ∀ name ∈ w.run.awaiting.map CaptureStep.operationId, ∃ s,
      (w.note (.attached (w.run.awaiting.map CaptureStep.operationId))).run.step? name = some s := by
    intro name hname
    obtain ⟨s, hs, hid, -⟩ := hawaits name hname
    exact ⟨s, hid ▸ h.step? hs⟩
  have hloop := forM_names_ok (f := .attach) (fun _ => rfl) (fun _ => rfl) hpresent
  show Moves _ w ((List.forM _ (fun name => updateCaptureStep name .attach) >>= _)
    (w.note (.attached (w.run.awaiting.map CaptureStep.operationId)))).2
  rw [Stateful.bind_ok hloop]
  show Moves _ w (getCaptureRun captureRunId c _).2
  rw [getCaptureRun_state]
  refine .attach _ .completed (isCancelling_of_open hopen) ?_ ?_ hawaits ?_
  · obtain ⟨first, hhead, -⟩ := hfirst
    exact fun hnil => by rw [List.map_eq_nil_iff.mp hnil] at hhead; cases hhead
  · exact h.ids.sublist (List.filter_sublist.map _)
  · by_cases hpart : ∃ s ∈ w.run.steps, s.status ≠ .skipped ∧ s.status ≠ .completed
    · exact .inl ⟨⟨happroval, hvisible, hopen, hmanifest⟩, hfirst, hrunning, hartifacts,
        ⟨actual, by rw [hactual]; rfl, hconfirms⟩, hpart⟩
    · refine .inr (.inl ⟨rfl, isDone_attach fun s hs => ?_⟩)
      by_contra hnot
      exact hpart ⟨s, hs, not_or.mp hnot⟩

theorem dispatchNext_moves (h : Coherent w) {captureRunId approvalReference : Str} {ports : Ports} :
    Moves ((Call.dispatchNext captureRunId approvalReference ports c).Careless w.run) w
      (dispatchNext captureRunId approvalReference ports c w).2 := by
  unfold dispatchNext
  refine .of_check fun happroval => .of_get fun hvisible => .of_lift fun action haction => ?_
  cases action with
  | none => exact .stay
  | some action =>
    obtain ⟨hopen, hmanifest, hdue⟩ := nextAction_eq_some haction
    cases hdue with
    | queue s hs hqueued => exact .of_lift fun _ _ => queue_moves h hs hqueued hopen
    | attach s a hs hawaits => exact .of_lift fun _ _ => attach_moves h hs hawaits hopen hvisible
    | attachBatch hfirst hrunning hartifacts =>
      exact .of_lift fun actual hactual => .of_check fun hconfirms =>
        attachBatch_moves h happroval hvisible hopen hmanifest hfirst hrunning hartifacts hactual hconfirms

/-! ## Retrying and cancelling -/

theorem edit_congr (h : ∀ s ∈ w.run.steps, f s = g s) : w.edit f = w.edit g := by
  unfold World.edit CaptureRun.edit
  rw [List.map_congr_left h]

theorem retryStep_moves {contracts : Contracts}
    {manifest : Option Manifest} {retryPlanId : Str} {issuedAt : Int} :
    Moves ((Call.retryStep contracts captureRunId operationId manifest retryPlanId issuedAt c).Careless w.run) w
      (retryStep contracts captureRunId operationId manifest retryPlanId issuedAt c w).2 := by
  unfold retryStep
  refine .of_get fun hvisible => .of_lift fun s hs => .of_check fun _ => .of_check fun hfailed =>
    .of_lift fun m hm => .of_check fun hhash => .of_lift fun tenantId htenant =>
    .of_check fun hcontract => .of_check fun hoperations => .of_check fun hprovenance =>
    .of_lift fun plan hplan => ?_
  rw [found_eq_ok] at hs hm htenant
  obtain ⟨hrenders, hsome, hnames, hattempts⟩ := buildCapturePlan_eq_ok hplan
  have hid := operationId_of_step? hs
  have honly : ∀ name ∈ plan.captureNames, name = s.operationId := fun name hname => by
    rw [hid]
    exact List.mem_singleton.mp ((hnames name).mp hname).1
  have hprepared : Prepared (s.retriedWith s.nextAttempt plan) := by
    refine ⟨hrenders, ?_, hattempts⟩
    obtain ⟨name, hname⟩ := List.exists_mem_of_ne_nil _ hsome
    exact honly name hname ▸ hname
  have hattempt : s.attempt < s.nextAttempt := by
    unfold CaptureStep.nextAttempt
    split_ifs <;> omega
  show Moves _ w ((updateCaptureStep operationId (.retriedWith s.nextAttempt plan) >>= _) w).2
  rw [Stateful.bind_ok (updateCaptureStep_ok hs), ← hid]
  refine .retry s s.nextAttempt plan (mem_of_step? hs) hfailed hattempt hprepared honly ?_
  cases hcancelling : w.run.status.isCancelling with
  | false => exact .inr rfl
  | true =>
    exact .inl ⟨hcancelling, hvisible, s, hid ▸ hs, hfailed, m, hm, hhash, tenantId, htenant,
      hcontract, hoperations, hprovenance, by
        rw [hid]
        exact congrArg Except.isOk hplan⟩

theorem cancel_moves (h : Coherent w) :
    Moves ((Call.cancel captureRunId c).Careless w.run) w (cancel captureRunId c w).2 := by
  unfold cancel
  refine .of_get fun hvisible => ?_
  have hpresent : ∀ s ∈ w.run.steps.filter (fun s => s.status == .queued),
      ∃ t, w.run.step? s.operationId = some t :=
    fun s hs => ⟨s, h.step? (List.mem_filter.mp hs).1⟩
  have hloop := forM_update_ok CaptureStep.operationId (fun _ => CaptureStep.withStatus .cancelled)
    (fun _ _ => rfl) _ hpresent
  -- the updates, one for each queued step, are the one edit of the queued steps
  have hedit : w.edit ((w.run.steps.filter (fun s => s.status == .queued)).foldl
        (fun g s => onStep s.operationId (.withStatus .cancelled) ∘ g) id)
      = w.edit (fun s => if s.status = .queued then s.withStatus .cancelled else s) := by
    rw [← List.foldl_map (f := CaptureStep.operationId)
      (g := fun g name => onStep name (.withStatus .cancelled) ∘ g),
      foldl_onStep (f := .withStatus .cancelled) (fun _ => rfl) fun _ => rfl]
    refine edit_congr fun s hs => if_congr ?_ rfl rfl
    rw [List.mem_map]
    constructor
    · rintro ⟨t, ht, hid⟩
      obtain ⟨ht, hqueued⟩ := List.mem_filter.mp ht
      rw [← h.unique ht hs hid]
      simpa using hqueued
    · intro hqueued
      exact ⟨s, List.mem_filter.mpr ⟨hs, by simpa using hqueued⟩, rfl⟩
  rw [hedit] at hloop
  show Moves _ w ((List.forM _ (fun s : CaptureStep =>
    updateCaptureStep s.operationId (.withStatus .cancelled))
    >>= _) w).2
  rw [Stateful.bind_ok hloop]
  refine .cancel _ ?_ ?_
  · split_ifs <;> rfl
  · by_cases hdone : w.run.isDone
    · exact .inl ⟨hvisible, hdone⟩
    · exact .inr hdone

/-- **Every call is a move.** -/
theorem execute_moves (h : Coherent w) (call : Call) : Moves (call.Careless w.run) w (w.execute call) := by
  cases call with
  | dispatchNext => exact dispatchNext_moves h
  | applyConnectorOutcome => exact applyConnectorOutcome_moves h
  | retryStep => exact retryStep_moves
  | cancel => exact cancel_moves h

end Ai00.Simulation
