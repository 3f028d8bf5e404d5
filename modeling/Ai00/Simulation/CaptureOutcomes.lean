import Ai00.Simulation.CaptureEdits

/-! # Outcomes as functions of a run

What `apply_connector_outcome` makes of a run is a function of the run alone (`afterOutcome`), the
identity where the call raises. Applied to its own result the function changes nothing more
(`afterOutcome_afterOutcome`): a repeated outcome is the outcome applied once.
-/

namespace Ai00.Simulation

variable {w : World} {r : CaptureRun} {s : CaptureStep} {operationId : Str}
  {g : CaptureStep → CaptureStep} {c : Context} {plan : Plan} {capture : PlanStep} {o : Outcome}

/-! ## A plan for one step, twice -/

variable {wasCancelling : Bool}

@[simp] theorem settled_setStatus {status : RunStatus} :
    (r.setStatus status).settled wasCancelling = r.settled wasCancelling := rfl

/-- Settling ends as `cancelled` only for a run that was being cancelled. -/
theorem settled_eq_cancelled (h : r.settled wasCancelling = some .cancelled) : wasCancelling = true := by
  unfold CaptureRun.settled at h
  by_cases hcancelling : wasCancelling = true ∧ ¬ r.hasStatus .running
  · exact hcancelling.1
  · rw [if_neg hcancelling] at h
    split_ifs at h <;> cases h

theorem settled_ne_cancelling :
    r.settled wasCancelling ≠ some .cancelling := by
  unfold CaptureRun.settled
  split_ifs <;> simp

/-- Whether a run was being cancelled matters only where it ends as `cancelled`. -/
theorem settled_of_ne_cancelled (h : r.settled wasCancelling ≠ some .cancelled) :
    r.settled false = r.settled wasCancelling := by
  cases wasCancelling with
  | false => rfl
  | true =>
    unfold CaptureRun.settled at h ⊢
    by_cases hrunning : r.hasStatus .running
    · simp [hrunning]
    · split_ifs at h ⊢ <;> simp_all

/-- **Settling once more finds the same status**, the run being cancelled as it then says. -/
theorem settled_again (h : r.status.isCancelling = false ∨ r.status.isCancelling = wasCancelling) :
    r.settled (r.settle wasCancelling).status.isCancelling = r.settled wasCancelling := by
  unfold CaptureRun.settle
  cases hsettled : r.settled wasCancelling with
  | none =>
    rcases h with h | h
    · have hne : r.settled wasCancelling ≠ some .cancelled := by
        rw [hsettled]
        simp
      rw [Option.elim_none, h, settled_of_ne_cancelled hne, hsettled]
    · rw [Option.elim_none, h, hsettled]
  | some status =>
    by_cases hcancelled : status = .cancelled
    · subst hcancelled
      have hwas := settled_eq_cancelled hsettled
      subst hwas
      exact hsettled
    · have hnot : status.isCancelling = false := by
        have hne : status ≠ .cancelling := by
          rintro rfl
          exact settled_ne_cancelling hsettled
        simp [RunStatus.isCancelling, hcancelled, hne]
      show r.settled status.isCancelling = _
      have hne : r.settled wasCancelling ≠ some .cancelled := by
        rw [hsettled]
        simpa using hcancelled
      rw [hnot, settled_of_ne_cancelled hne, hsettled]

@[simp] theorem step?_settle :
    (r.settle wasCancelling).step? operationId = r.step? operationId := by
  unfold CaptureRun.settle
  cases r.settled wasCancelling <;> rfl

theorem visible_settle {captureRunId : Str} :
    (r.settle wasCancelling).isVisible captureRunId c ↔ r.isVisible captureRunId c := by
  unfold CaptureRun.settle
  cases r.settled wasCancelling <;> rfl

theorem settle_settle (h : r.status.isCancelling = false ∨ r.status.isCancelling = wasCancelling) :
    (r.settle wasCancelling).settle (r.settle wasCancelling).status.isCancelling
      = r.settle wasCancelling := by
  have hagain := settled_again h
  generalize (r.settle wasCancelling).status.isCancelling = again at hagain ⊢
  unfold CaptureRun.settle
  cases hsettled : r.settled wasCancelling with
  | none =>
    rw [Option.elim_none, hagain, hsettled]
    rfl
  | some status =>
    rw [Option.elim_some, settled_setStatus, hagain, hsettled]
    rfl

theorem onStep_onStep {f : CaptureStep → CaptureStep} (hkeep : KeepsId f) (hidem : ∀ s, f (f s) = f s) :
    onStep operationId f ∘ onStep operationId f = onStep operationId f := by
  funext s
  show onStep operationId f (onStep operationId f s) = onStep operationId f s
  unfold onStep
  by_cases h : s.operationId = operationId
  · rw [if_pos h, if_pos ((hkeep s).trans h), hidem]
  · rw [if_neg h, if_neg h]

theorem edit_onStep_edit_onStep {f : CaptureStep → CaptureStep} (hkeep : KeepsId f)
    (hidem : ∀ s, f (f s) = f s) :
    (r.edit (onStep operationId f)).edit (onStep operationId f) = r.edit (onStep operationId f) := by
  rw [edit_edit, onStep_onStep hkeep hidem]

theorem completedBy_settle {a : ArtifactRef} :
    ((r.completedBy operationId a).settle wasCancelling).completedBy operationId a
      = r.completedBy operationId a := by
  have hedit : (r.edit (onStep operationId (CaptureStep.completedWith a))).edit
        (onStep operationId (CaptureStep.completedWith a))
      = r.edit (onStep operationId (CaptureStep.completedWith a)) :=
    edit_onStep_edit_onStep (fun _ => rfl) fun _ => rfl
  have hsteps := congrArg CaptureRun.steps hedit
  unfold CaptureRun.settle
  cases (r.completedBy operationId a).settled wasCancelling with
  | none => exact congrArg (fun steps => ({ r with steps, status := .running } : CaptureRun)) hsteps
  | some status =>
    exact congrArg (fun steps => ({ r with steps, status := .running } : CaptureRun)) hsteps

theorem endedBy_endedBy {p : Projected} :
    (r.endedBy operationId p).endedBy operationId p = r.endedBy operationId p := by
  have hedit : (r.edit (onStep operationId (CaptureStep.withStatus p.stepStatus))).edit
        (onStep operationId (CaptureStep.withStatus p.stepStatus))
      = r.edit (onStep operationId (CaptureStep.withStatus p.stepStatus)) :=
    edit_onStep_edit_onStep (fun _ => rfl) fun _ => rfl
  have hsteps := congrArg CaptureRun.steps hedit
  exact congrArg (fun steps => ({ r with steps, status := p.runStatus } : CaptureRun)) hsteps

/-- **The outcome of a plan for one step, applied to what it made of the run.** -/
theorem afterSingle_afterSingle :
    (r.afterSingle plan capture o c).afterSingle plan capture o c = r.afterSingle plan capture o c := by
  cases hstep : r.step? capture.namedOperation with
  | none =>
    have hsame : r.afterSingle plan capture o c = r := by
      unfold CaptureRun.afterSingle
      rw [hstep]
    rw [hsame, hsame]
  | some s =>
    by_cases hverified : r.isVisible capture.namedRun c ∧ o.fits plan ∧ matchesPreparedPlan s.plan plan = true
    swap
    · have hsame : r.afterSingle plan capture o c = r := by
        unfold CaptureRun.afterSingle
        rw [hstep]
        exact if_neg hverified
      rw [hsame, hsame]
    have hafter : r.afterSingle plan capture o c = r.afterVerified plan capture o s := by
      unfold CaptureRun.afterSingle
      rw [hstep]
      exact if_pos hverified
    -- what is verified once is verified again: the edits leave the plan of the step
    have hagain : ∀ (r' : CaptureRun) (s' : CaptureStep), r'.step? capture.namedOperation = some s' →
        s'.plan = s.plan → (r'.isVisible capture.namedRun c ↔ r.isVisible capture.namedRun c) →
        r'.afterSingle plan capture o c = r'.afterVerified plan capture o s' := by
      intro r' s' hstep' hplan hvisible
      unfold CaptureRun.afterSingle
      rw [hstep']
      exact if_pos ⟨hvisible.mpr hverified.1, hverified.2.1, hplan ▸ hverified.2.2⟩
    rw [hafter]
    unfold CaptureRun.afterVerified
    by_cases hcomplete : o.isComplete plan = true
    · rw [if_pos hcomplete]
      by_cases hdone : s.status = .completed ∧ s.artifactAttached = true
      · rw [if_pos hdone, hagain _ s (step?_settle.trans hstep) rfl visible_settle]
        unfold CaptureRun.afterVerified
        rw [if_pos hcomplete, if_pos hdone]
        exact settle_settle (.inr rfl)
      · rw [if_neg hdone]
        cases himage : o.image? capture with
        | none =>
          rw [Option.elim_none, hafter]
          unfold CaptureRun.afterVerified
          rw [if_pos hcomplete, if_neg hdone, himage]
          rfl
        | some a =>
          rw [Option.elim_some]
          have hstep' : ((r.completedBy capture.namedOperation a).settle
              r.status.isCancelling).step? capture.namedOperation = some (s.completedWith a) := by
            rw [step?_settle]
            exact step?_onStep (fun _ => rfl) hstep
          rw [hagain _ _ hstep' rfl visible_settle]
          unfold CaptureRun.afterVerified
          rw [if_pos hcomplete]
          by_cases hattached : s.artifactAttached = true
          · rw [if_pos ⟨rfl, hattached⟩]
            exact settle_settle (.inl rfl)
          · rw [if_neg fun h => hattached h.2, himage, Option.elim_some, completedBy_settle]
            have hsame : (r.completedBy capture.namedOperation a).settled
                  ((r.completedBy capture.namedOperation a).settle r.status.isCancelling).status.isCancelling
                = (r.completedBy capture.namedOperation a).settled r.status.isCancelling :=
              settled_again (.inl rfl)
            generalize ((r.completedBy capture.namedOperation a).settle
              r.status.isCancelling).status.isCancelling = again at hsame ⊢
            unfold CaptureRun.settle
            rw [hsame]
    · rw [if_neg hcomplete]
      by_cases hattached : s.artifactAttached = true
      · rw [if_pos hattached, hafter]
        unfold CaptureRun.afterVerified
        rw [if_neg hcomplete, if_pos hattached]
      · rw [if_neg hattached]
        have hstep' : (r.endedBy capture.namedOperation o.ending).step? capture.namedOperation
            = some (s.withStatus o.ending.stepStatus) := step?_onStep (fun _ => rfl) hstep
        rw [hagain _ _ hstep' rfl Iff.rfl]
        unfold CaptureRun.afterVerified
        have hattached' : ¬ (s.withStatus o.ending.stepStatus).artifactAttached = true := hattached
        rw [if_neg hcomplete, if_neg hattached', endedBy_endedBy]

/-! ## A plan for several steps -/

def batchEdit (updates : List (Str × StepChange)) : CaptureStep → CaptureStep :=
  updates.foldl (fun g u => onStep u.1 u.2.apply ∘ g) id

theorem batchEdit_concat (updates : List (Str × StepChange)) (u : Str × StepChange) :
    batchEdit (updates ++ [u]) = onStep u.1 u.2.apply ∘ batchEdit updates := by
  unfold batchEdit
  rw [List.foldl_append]
  rfl

theorem StepChange.keepsId (ch : StepChange) : KeepsId ch.apply := fun _ => rfl

theorem batchEdit_cases (updates : List (Str × StepChange)) (operationId : Str) :
    (operationId ∉ updates.map Prod.fst
      ∧ ∀ s : CaptureStep, s.operationId = operationId → batchEdit updates s = s)
    ∨ ∃ ch : StepChange, (∃ u ∈ updates, u.1 = operationId ∧ u.2.status = ch.status)
      ∧ ∀ s : CaptureStep, s.operationId = operationId → batchEdit updates s = ch.apply s := by
  induction updates using List.reverseRecOn with
  | nil => exact .inl ⟨by simp, fun s _ => rfl⟩
  | append_singleton updates u ih =>
    rw [batchEdit_concat]
    by_cases hu : u.1 = operationId
    · refine .inr ?_
      rcases ih with ⟨-, hsame⟩ | ⟨ch, -, hchange⟩
      · refine ⟨u.2, ⟨u, by simp, hu, rfl⟩, fun s hs => ?_⟩
        rw [Function.comp_apply, hsame s hs, onStep, if_pos (hs.trans hu.symm)]
      · refine ⟨⟨u.2.status, u.2.artifactRef.or ch.artifactRef⟩, ⟨u, by simp, hu, rfl⟩, ?_⟩
        intro s hs
        rw [Function.comp_apply, hchange s hs, onStep,
          if_pos (show (ch.apply s).operationId = u.1 from hs.trans hu.symm)]
        simp [StepChange.apply, Option.or_assoc]
    · have hpass : ∀ s : CaptureStep, s.operationId = operationId → onStep u.1 u.2.apply s = s :=
        fun s hs => if_neg fun h => hu (h.symm.trans hs)
      rcases ih with ⟨hnot, hsame⟩ | ⟨ch, ⟨v, hv, hname, hstatus⟩, hchange⟩
      · refine .inl ⟨?_, fun s hs => ?_⟩
        · rw [List.map_append, List.mem_append, not_or]
          exact ⟨hnot, by simpa using fun h => hu h.symm⟩
        · rw [Function.comp_apply, hsame s hs, hpass s hs]
      · refine .inr ⟨ch, ⟨v, List.mem_append_left _ hv, hname, hstatus⟩, fun s hs => ?_⟩
        rw [Function.comp_apply, hchange s hs, hpass (ch.apply s) hs]

theorem batchEdit_keepsId (updates : List (Str × StepChange)) : KeepsId (batchEdit updates) := by
  intro s
  rcases batchEdit_cases updates s.operationId with ⟨-, hsame⟩ | ⟨ch, -, hchange⟩
  · rw [hsame s rfl]
  · rw [hchange s rfl]
    rfl

theorem batchEdit_batchEdit (updates : List (Str × StepChange)) (s : CaptureStep) :
    batchEdit updates (batchEdit updates s) = batchEdit updates s := by
  rcases batchEdit_cases updates s.operationId with ⟨-, hsame⟩ | ⟨ch, -, hchange⟩
  · rw [hsame s rfl, hsame s rfl]
  · rw [hchange s rfl, hchange (ch.apply s) rfl]
    cases ch with
    | mk status artifactRef => cases artifactRef <;> rfl

theorem batchEdit_verified (updates : List (Str × StepChange)) (s : CaptureStep) :
    (batchEdit updates s).plan = s.plan ∧ (batchEdit updates s).artifactAttached = s.artifactAttached := by
  rcases batchEdit_cases updates s.operationId with ⟨-, hsame⟩ | ⟨ch, -, hchange⟩
  · rw [hsame s rfl]
    exact ⟨rfl, rfl⟩
  · rw [hchange s rfl]
    exact ⟨rfl, rfl⟩

def Plan.runIds (p : Plan) : List Str := (p.captures.map PlanStep.namedRun).dedup

/-- The plan is for the one run, which the caller sees, and the results are of its steps. -/
def CaptureRun.takesBatch (r : CaptureRun) (plan : Plan) (o : Outcome) (c : Context) : Prop :=
  (plan.runIds.length = 1 ∧ plan.runIds.headD [] ≠ []) ∧ r.isVisible (plan.runIds.headD []) c
    ∧ o.fits plan

instance (r : CaptureRun) (plan : Plan) (o : Outcome) (c : Context) : Decidable (r.takesBatch plan o c) :=
  inferInstanceAs (Decidable (_ ∧ _))

/-- What the outcome of a plan for several steps makes of the run. -/
def CaptureRun.afterBatch (r : CaptureRun) (plan : Plan) (o : Outcome) (c : Context) : CaptureRun :=
  if r.takesBatch plan o c then
    match batchUpdates r plan o plan.captures with
    | .error _ => r
    | .ok updates =>
      (r.edit (batchEdit updates)).setStatus ((r.edit (batchEdit updates)).batchStatus r.status)
  else r

variable {updates : List (Str × StepChange)}

theorem batchUpdates_mem {captures : List PlanStep}
    (h : batchUpdates r plan o captures = .ok updates) {u : Str × StepChange} (hu : u ∈ updates) :
    ∃ s, r.step? u.1 = some s ∧ s.artifactAttached = false ∧ matchesPreparedPlan s.plan plan = true
      ∧ ∃ capture ∈ captures, capture.namedOperation = u.1 ∧ batchChange plan o capture = .ok u.2 := by
  induction captures generalizing updates with
  | nil =>
    cases h
    cases hu
  | cons capture rest ih =>
    obtain ⟨s, hs, h⟩ := bind_eq_ok.mp h
    obtain ⟨_, hmatch, h⟩ := bind_eq_ok.mp h
    obtain ⟨change, hchange, h⟩ := bind_eq_ok.mp h
    obtain ⟨more, hmore, h⟩ := bind_eq_ok.mp h
    rw [found_eq_ok] at hs
    rw [require_eq_ok] at hmatch
    have hrest : u ∈ more → ∃ s, r.step? u.1 = some s ∧ s.artifactAttached = false
        ∧ matchesPreparedPlan s.plan plan = true ∧ ∃ x ∈ capture :: rest,
          x.namedOperation = u.1 ∧ batchChange plan o x = .ok u.2 := by
      intro hu
      obtain ⟨s, hs, hattached, hmatch, x, hx, hrest⟩ := ih hmore hu
      exact ⟨s, hs, hattached, hmatch, x, List.mem_cons_of_mem _ hx, hrest⟩
    by_cases hattached : s.artifactAttached = true
    · rw [if_pos hattached] at h
      cases h
      exact hrest hu
    · rw [if_neg hattached] at h
      cases h
      rcases List.mem_cons.mp hu with rfl | hu
      · exact ⟨s, hs, Bool.eq_false_of_not_eq_true hattached, hmatch, capture, List.mem_cons_self,
          rfl, hchange⟩
      · exact hrest hu

theorem batchUpdates_covers {captures : List PlanStep}
    (h : batchUpdates r plan o captures = .ok updates) {capture : PlanStep} (hc : capture ∈ captures) :
    ∃ s, r.step? capture.namedOperation = some s ∧ matchesPreparedPlan s.plan plan = true
      ∧ (s.artifactAttached = true ∨ capture.namedOperation ∈ updates.map Prod.fst) := by
  induction captures generalizing updates with
  | nil => cases hc
  | cons first rest ih =>
    obtain ⟨s, hs, h⟩ := bind_eq_ok.mp h
    obtain ⟨_, hmatch, h⟩ := bind_eq_ok.mp h
    obtain ⟨change, -, h⟩ := bind_eq_ok.mp h
    obtain ⟨more, hmore, h⟩ := bind_eq_ok.mp h
    rw [found_eq_ok] at hs
    rw [require_eq_ok] at hmatch
    have hsub : ∀ name, name ∈ more.map Prod.fst → name ∈ updates.map Prod.fst := by
      intro name hname
      split_ifs at h
      · cases h
        exact hname
      · cases h
        exact List.mem_cons_of_mem _ hname
    rcases List.mem_cons.mp hc with rfl | hc
    · refine ⟨s, hs, hmatch, ?_⟩
      by_cases hattached : s.artifactAttached = true
      · exact .inl hattached
      · rw [if_neg hattached] at h
        cases h
        exact .inr List.mem_cons_self
    · obtain ⟨s, hs, hmatch, hor⟩ := ih hmore hc
      exact ⟨s, hs, hmatch, hor.imp_right (hsub _)⟩

theorem batchUpdates_edit (hg : KeepsId g) (hplan : ∀ s, (g s).plan = s.plan)
    (hattached : ∀ s, (g s).artifactAttached = s.artifactAttached) {status : RunStatus}
    (captures : List PlanStep) :
    batchUpdates ((r.edit g).setStatus status) plan o captures = batchUpdates r plan o captures := by
  induction captures with
  | nil => rfl
  | cons capture rest ih =>
    unfold batchUpdates
    rw [step?_setStatus, step?_edit hg, ih]
    cases r.step? capture.namedOperation with
    | none => rfl
    | some s =>
      rw [Option.map_some]
      simp only [found, hplan, hattached, bind, Except.bind]

theorem batchStatus_again (r : CaptureRun) (before : RunStatus) :
    r.batchStatus (r.batchStatus before) = r.batchStatus before := by
  unfold CaptureRun.batchStatus
  by_cases h : before.isCancelling = true
  · rw [if_pos h]
    rfl
  · rw [if_neg h]
    split_ifs <;> simp_all [RunStatus.isCancelling]

theorem afterBatch_of_ok (htakes : r.takesBatch plan o c)
    (h : batchUpdates r plan o plan.captures = .ok updates) :
    r.afterBatch plan o c = (r.edit (batchEdit updates)).setStatus
      ((r.edit (batchEdit updates)).batchStatus r.status) := by
  unfold CaptureRun.afterBatch
  rw [if_pos htakes, h]

/-- **The outcome of a plan for several steps, applied to what it made of the run.** -/
theorem afterBatch_afterBatch :
    (r.afterBatch plan o c).afterBatch plan o c = r.afterBatch plan o c := by
  by_cases htakes : r.takesBatch plan o c
  swap
  · have hsame : r.afterBatch plan o c = r := if_neg htakes
    rw [hsame, hsame]
  cases hupdates : batchUpdates r plan o plan.captures with
  | error e =>
    have hsame : r.afterBatch plan o c = r := by
      unfold CaptureRun.afterBatch
      rw [if_pos htakes, hupdates]
    rw [hsame, hsame]
  | ok updates =>
    have hidem : (r.edit (batchEdit updates)).edit (batchEdit updates) = r.edit (batchEdit updates) := by
      rw [edit_edit]
      exact congrArg r.edit (funext (batchEdit_batchEdit updates))
    have hsteps := congrArg CaptureRun.steps hidem
    have hstatus := batchStatus_again (r.edit (batchEdit updates)) r.status
    rw [afterBatch_of_ok htakes hupdates]
    generalize (r.edit (batchEdit updates)).batchStatus r.status = status at hstatus ⊢
    have hedit : ((r.edit (batchEdit updates)).setStatus status).edit (batchEdit updates)
        = (r.edit (batchEdit updates)).setStatus status :=
      congrArg (fun steps => ({ r with steps, status } : CaptureRun)) hsteps
    have hagain : batchUpdates ((r.edit (batchEdit updates)).setStatus status) plan o plan.captures
        = .ok updates := by
      rw [batchUpdates_edit (batchEdit_keepsId updates) (fun s => (batchEdit_verified updates s).1)
        (fun s => (batchEdit_verified updates s).2), hupdates]
    rw [afterBatch_of_ok (r := (r.edit (batchEdit updates)).setStatus status) htakes hagain, hedit]
    exact congrArg ((r.edit (batchEdit updates)).setStatus status).setStatus hstatus

/-- What `_apply_batch_outcome` leaves. -/
theorem applyBatchOutcome_state :
    (applyBatchOutcome plan o c w).2 = { w with run := w.run.afterBatch plan o c } := by
  unfold applyBatchOutcome
  show ((check (plan.runIds.length = 1 ∧ plan.runIds.headD [] ≠ []) _ >>= _) w).2 = _
  by_cases hone : plan.runIds.length = 1 ∧ plan.runIds.headD [] ≠ []
  swap
  · rw [check_fails hone, CaptureRun.afterBatch, if_neg fun h => hone h.1]
  rw [check_ok hone]
  by_cases hvisible : w.run.isVisible (plan.runIds.headD []) c
  swap
  · have hnot : ¬ w.run.takesBatch plan o c := fun h => hvisible h.2.1
    rw [CaptureRun.afterBatch, if_neg hnot]
    exact getCaptureRun_hidden hvisible
  show ((getCaptureRun (plan.runIds.headD []) c >>= _) w).2 = _
  rw [getCaptureRun_bind hvisible]
  by_cases hfits : o.fits plan
  swap
  · rw [check_fails hfits, CaptureRun.afterBatch, if_neg fun h => hfits h.2.2]
  rw [check_ok hfits]
  cases hupdates : batchUpdates w.run plan o plan.captures with
  | error e =>
    rw [CaptureRun.afterBatch, if_pos ⟨hone, hvisible, hfits⟩, hupdates]
    rfl
  | ok updates =>
    have hpresent : ∀ u ∈ updates, ∃ s, w.run.step? u.1 = some s := by
      intro u hu
      obtain ⟨s, hs, -⟩ := batchUpdates_mem hupdates hu
      exact ⟨s, hs⟩
    have hloop := forM_update_ok Prod.fst (fun u : Str × StepChange => u.2.apply)
      (fun u => u.2.keepsId) updates hpresent
    rw [Stateful.lift_bind_ok rfl, afterBatch_of_ok ⟨hone, hvisible, hfits⟩ hupdates]
    show ((updates.forM (fun u => updateCaptureStep u.1 u.2.apply) >>= _) w).2 = _
    rw [Stateful.bind_ok hloop]
    show ((getCaptureRun (plan.runIds.headD []) c >>= _) (w.edit (batchEdit updates))).2 = _
    rw [getCaptureRun_bind (w := w.edit (batchEdit updates)) hvisible]
    exact getCaptureRun_state _

/-! ## Any plan -/

def CaptureRun.afterOutcome (r : CaptureRun) (plan : Plan) (o : Outcome) (c : Context) : CaptureRun :=
  if o.planId = plan.planId ∧ o.protocol = plan.protocol then
    match plan.captures with
    | [] => r
    | [capture] => r.afterSingle plan capture o c
    | _ => r.afterBatch plan o c
  else r

/-- **An outcome applied twice is the outcome applied once.** -/
theorem afterOutcome_afterOutcome :
    (r.afterOutcome plan o c).afterOutcome plan o c = r.afterOutcome plan o c := by
  unfold CaptureRun.afterOutcome
  split_ifs
  · rcases plan.captures with _ | ⟨capture, _ | ⟨second, rest⟩⟩
    · rfl
    · exact afterSingle_afterSingle
    · exact afterBatch_afterBatch
  · rfl

/-- What `apply_connector_outcome` leaves, on a run whose plans render before they capture. -/
theorem applyConnectorOutcome_state (hrenders : ∀ s ∈ w.run.steps, s.plan.renders) :
    (applyConnectorOutcome plan o c w).2 = { w with run := w.run.afterOutcome plan o c } := by
  unfold applyConnectorOutcome CaptureRun.afterOutcome
  by_cases hsame : o.planId = plan.planId ∧ o.protocol = plan.protocol
  · rw [check_ok hsame, if_pos hsame]
    rcases hcaptures : plan.captures with _ | ⟨capture, _ | ⟨second, rest⟩⟩
    · rfl
    · refine applySingleOutcome_state ?_ hrenders
      have hmem : capture ∈ plan.captures := hcaptures ▸ List.mem_singleton_self _
      exact (List.mem_filter.mp hmem).1
    · exact applyBatchOutcome_state
  · rw [check_fails hsame, if_neg hsame]

end Ai00.Simulation
