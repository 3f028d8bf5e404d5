import Ai00.Connector.Worker

/-! # Which signed outcomes the server accepts

The step results of a plan are decided by the step loop, and after a crash by the journal it
left. `CleanSteps` and `CleanGroup` are the conditions on the two: no result follows a step
that was proven without effect, and no mutation succeeded before one. The run theorem says
that a host's journal holds accepted outcomes exactly when each of its steps meets its
condition.
-/

namespace Ai00.Connector

variable {host : Host} {plan : ExecutionPlan} {lease : LeasedPlan} {session : RuntimeSession}
  {run : ConnectorStep → StepRun}

/-! ## Acceptable results -/

theorem AllSucceeded.append {init rest : List StepResult} (hinit : AllSucceeded init)
    (hrest : AllSucceeded rest) : AllSucceeded (init ++ rest) := by
  intro r hr
  rcases List.mem_append.mp hr with hr | hr
  · exact hinit r hr
  · exact hrest r hr

@[simp] theorem normalizeCode_stepId (r : StepResult) : (normalizeCode r).stepId = r.stepId := by
  rw [normalizeCode]
  split
  · rfl
  · split <;> rfl

@[simp] theorem normalizeCode_status (r : StepResult) : (normalizeCode r).status = r.status := by
  rw [normalizeCode]
  split
  · rfl
  · split <;> rfl

variable {results : List StepResult}

theorem succeeded_ne_review : StepStatus.succeeded ≠ .manualReviewRequired := by decide

theorem failed_ne_review : StepStatus.failedWithoutEffect ≠ .manualReviewRequired := by decide

theorem failed_ne_succeeded : StepStatus.failedWithoutEffect ≠ .succeeded := by decide

theorem runInvocation_status (step : ConnectorStep) (b : StepRun) :
    (runInvocation plan step b).attempt.status ≠ .manualReviewRequired := by
  have hok : ∀ a, attemptInvocation plan step b = .ok a → a.status ≠ .manualReviewRequired := by
    intro a ha
    rw [attemptInvocation] at ha
    split at ha
    · cases ha
    cases hb : b.answer with
    | error e =>
      rw [hb] at ha
      cases ha
    | ok answer =>
      simp only [hb] at ha
      split_ifs at ha
      · cases hd : answer.data with
        | capture artifact =>
          cases hu : b.upload with
          | error e => simp [hd, hu] at ha
          | ok uploaded =>
            simp only [hd, hu] at ha
            cases ha
            exact succeeded_ne_review
        | _ => simp [hd] at ha
      · cases hd : answer.data with
        | model artifact =>
          cases hu : b.upload with
          | error e => simp [hd, hu] at ha
          | ok uploaded =>
            cases hf : b.fileRemoval with
            | error e => simp [hd, hu, hf] at ha
            | ok _ =>
              simp only [hd, hu, hf] at ha
              cases ha
              exact succeeded_ne_review
        | _ => simp [hd] at ha
      · cases hp : preflightError answer.data with
        | error e => simp [hp] at ha
        | ok code =>
          cases code with
          | none =>
            simp only [hp] at ha
            cases ha
            exact succeeded_ne_review
          | some code =>
            simp only [hp] at ha
            cases ha
            exact failed_ne_review
      · cases ha
        exact succeeded_ne_review
  rw [runInvocation]
  cases ha : attemptInvocation plan step b with
  | ok attempt => exact hok attempt ha
  | error thrown =>
    show (if _ then StepStatus.failedWithoutEffect else .outcomeUnknown) ≠ _
    split_ifs <;> decide

theorem stepResult_spec {stepId : String} {attempt : Attempt} {r : StepResult}
    (h : stepResult host stepId attempt = some r) :
    r.stepId = stepId ∧ r.status = attempt.status := by
  rw [stepResult] at h
  by_cases hs : attempt.status = .succeeded
  · rw [if_pos hs] at h
    obtain ⟨hash, -, rfl⟩ := Option.map_eq_some_iff.mp h
    exact ⟨rfl, rfl⟩
  · rw [if_neg hs] at h
    cases h
    exact ⟨rfl, rfl⟩

/-- What a round of the loop can do: throw, before or after it started an invocation, or journal
the result of its step; only a success or a failure without effect lets the loop go on. -/
inductive StepDone (step : ConnectorStep) (i : Iteration) : Prop where
  | thrown (control : i.control = .throw) (result : i.result = none)
      (entries : i.entries = [] ∨ i.entries = [.invocationStarted step.stepId])
  | reported (r : StepResult) (result : i.result = some r) (stepId : r.stepId = step.stepId)
      (review : r.status ≠ .manualReviewRequired)
      (entries : i.entries = [.stepTerminal r]
        ∨ i.entries = [.invocationStarted step.stepId, .stepTerminal r])
      (control : i.control = .stop ∧ r.status ≠ .succeeded
        ∨ i.control = .next ∧ (r.status = .succeeded ∨ r.status = .failedWithoutEffect))

theorem runStep_done (host : Host) (plan : ExecutionPlan) (lease : LeasedPlan)
    (session : RuntimeSession) (restart : Bool) (step : ConnectorStep) (b : StepRun) :
    StepDone step (runStep host plan lease session restart step b) := by
  rw [runStep]
  generalize (if host.hasArtifactMaterializer then b.materialized else .ok ()) = materialized
  dsimp only
  by_cases hcancelled : b.cancelledAtStart = true
  · rw [if_pos hcancelled]
    exact .thrown rfl rfl (Or.inl rfl)
  rw [if_neg hcancelled]
  by_cases hexpired : lease.leaseUntil ≤ b.leaseCheckedAt ∨ session.expiresAt ≤ b.leaseCheckedAt
  · rw [if_pos hexpired]
    exact .thrown rfl rfl (Or.inl rfl)
  rw [if_neg hexpired]
  by_cases hbudget : remainingExecutionBudget step.timeoutSeconds lease.leaseUntil
      session.expiresAt b.startedAt ≤ 0
  · rw [if_pos hbudget]
    exact .reported _ rfl rfl failed_ne_review (Or.inl rfl) (Or.inl ⟨rfl, failed_ne_succeeded⟩)
  rw [if_neg hbudget]
  cases materialized with
  | error e =>
    refine .reported _ rfl rfl failed_ne_review (Or.inl rfl) ?_
    dsimp only
    split_ifs
    · exact Or.inr ⟨rfl, Or.inr rfl⟩
    · exact Or.inl ⟨rfl, failed_ne_succeeded⟩
  | ok _ =>
    dsimp only
    cases hr : stepResult host step.stepId (runInvocation plan step b).attempt with
    | none => exact .thrown rfl rfl (Or.inr rfl)
    | some r =>
      obtain ⟨hid, hstatus⟩ := stepResult_spec hr
      refine .reported r rfl hid (hstatus ▸ runInvocation_status step b) (Or.inr rfl) ?_
      dsimp only
      split_ifs with hnext
      · refine Or.inr ⟨rfl, hnext.imp_right fun hpass => ?_⟩
        simp only [Bool.and_eq_true, beq_iff_eq] at hpass
        exact hpass.1.1.2
      · exact Or.inl ⟨rfl, fun hs => hnext (Or.inl hs)⟩

/-- The events of the loop over some steps, or an initial part of them. -/
inductive LoopEntries : List ConnectorStep → List JournalEntry → Prop where
  | nil (steps : List ConnectorStep) : LoopEntries steps []
  | opened (step : ConnectorStep) (rest : List ConnectorStep) :
      LoopEntries (step :: rest) [.invocationStarted step.stepId]
  | skipped {step : ConnectorStep} {rest : List ConnectorStep} {r : StepResult}
      {entries : List JournalEntry} (stepId : r.stepId = step.stepId)
      (review : r.status ≠ .manualReviewRequired) (tail : LoopEntries rest entries) :
      LoopEntries (step :: rest) (.stepTerminal r :: entries)
  | invoked {step : ConnectorStep} {rest : List ConnectorStep} {r : StepResult}
      {entries : List JournalEntry} (stepId : r.stepId = step.stepId)
      (review : r.status ≠ .manualReviewRequired) (tail : LoopEntries rest entries) :
      LoopEntries (step :: rest)
        (.invocationStarted step.stepId :: .stepTerminal r :: entries)

variable {steps : List ConnectorStep}

variable {entries : List JournalEntry}

/-- A crash leaves events of the same shape. -/
theorem LoopEntries.take (h : LoopEntries steps entries) (n : Nat) : LoopEntries steps (entries.take n) := by
  induction h generalizing n with
  | nil steps =>
    rw [List.take_nil]
    exact .nil steps
  | opened step rest =>
    cases n with
    | zero => exact .nil _
    | succ n => simpa using LoopEntries.opened step rest
  | skipped hid hreview _ ih =>
    cases n with
    | zero => exact .nil _
    | succ n => exact .skipped hid hreview (ih n)
  | invoked hid hreview _ ih =>
    cases n with
    | zero => exact .nil _
    | succ n =>
      cases n with
      | zero => exact .opened _ _
      | succ n => exact .invoked hid hreview (ih n)

theorem LoopEntries.reported {step : ConnectorStep} {rest : List ConnectorStep} {r : StepResult}
    {opening entries : List JournalEntry} (hid : r.stepId = step.stepId)
    (hreview : r.status ≠ .manualReviewRequired)
    (hopening : opening = [.stepTerminal r] ∨ opening = [.invocationStarted step.stepId, .stepTerminal r])
    (htail : LoopEntries rest entries) : LoopEntries (step :: rest) (opening ++ entries) := by
  rcases hopening with rfl | rfl
  · exact .skipped hid hreview htail
  · exact .invoked hid hreview htail

theorem runSteps_entries (restart : Bool) (steps : List ConnectorStep) :
    LoopEntries steps (runSteps host plan lease session run restart steps).entries := by
  induction steps generalizing restart with
  | nil => exact .nil []
  | cons step rest ih =>
    rw [runSteps]
    cases runStep_done host plan lease session restart step (run step) with
    | thrown hcontrol _ hentries =>
      simp only [hcontrol]
      rcases hentries with h | h
      · rw [h]
        exact .nil _
      · rw [h]
        exact .opened _ _
    | reported r hresult hid hreview hentries hcontrol =>
      rcases hcontrol with ⟨hc, -⟩ | ⟨hc, -⟩
      · simp only [hc]
        simpa using LoopEntries.reported hid hreview hentries (.nil rest)
      · simp only [hc]
        exact LoopEntries.reported hid hreview hentries (ih _)

/-- The condition on a call that reports its outcome itself: where a step is proven without
effect, only reads came before it and it ends the report. `done` are the steps before. -/
def CleanSteps (host : Host) (plan : ExecutionPlan) (lease : LeasedPlan) (session : RuntimeSession)
    (run : ConnectorStep → StepRun) : Bool → List ConnectorStep → List ConnectorStep → Prop
  | _, _, [] => True
  | restart, done, step :: rest =>
    let i := runStep host plan lease session restart step (run step)
    match i.result.map StepResult.status with
    | some .succeeded => CleanSteps host plan lease session run i.restart (done ++ [step]) rest
    | some .failedWithoutEffect => AllRead done ∧ (i.control = .stop ∨ rest = [])
    | _ => True

/-- An invocation was started and its step has no result. -/
def HasOpen (group : List JournalEntry) : Prop :=
  ∃ stepId ∈ group.filterMap started?,
    stepId ∉ (group.filterMap terminal?).map StepResult.stepId

/-- The condition on the events a crash left: everything before an open invocation succeeded;
without one, a step that failed without effect is the last of the plan and follows reads only,
and where a step was not reached everything before it succeeded and only read. -/
inductive CleanGroup (plan : ExecutionPlan) (group : List JournalEntry) : Prop where
  | opened (isOpen : HasOpen group) (all : AllSucceeded (group.filterMap terminal?))
  | succeeded (closed : ¬ HasOpen group) (all : AllSucceeded (group.filterMap terminal?))
      (rest : (group.filterMap terminal?).length = plan.steps.length
        ∨ AllRead (plan.steps.take (group.filterMap terminal?).length))
  | unknown (closed : ¬ HasOpen group) (init : List StepResult) (last : StepResult)
      (results : group.filterMap terminal? = init ++ [last]) (all : AllSucceeded init)
      (status : last.status = .outcomeUnknown)
  | failed (closed : ¬ HasOpen group) (init : List StepResult) (last : StepResult)
      (results : group.filterMap terminal? = init ++ [last]) (all : AllSucceeded init)
      (status : last.status = .failedWithoutEffect)
      (length : init.length + 1 = plan.steps.length)
      (read : AllRead (plan.steps.take init.length))

/-- What the events of the loop say: results for the first steps, in order, and at most one
invocation more, of the step after them. -/
structure LoopShape (steps : List ConnectorStep) (results : List StepResult)
    (started : List String) : Prop where
  review : NoReview results
  shape : ∃ done rest, steps = done ++ rest
    ∧ results.map StepResult.stepId = done.map ConnectorStep.stepId
    ∧ ((∀ id ∈ started, id ∈ done.map ConnectorStep.stepId)
      ∨ ∃ step rest' init, rest = step :: rest' ∧ started = init ++ [step.stepId]
        ∧ ∀ id ∈ init, id ∈ done.map ConnectorStep.stepId)

theorem LoopShape.cons {step : ConnectorStep} {r : StepResult} {opening started : List String}
    (h : LoopShape steps results started) (hid : r.stepId = step.stepId)
    (hreview : r.status ≠ .manualReviewRequired)
    (hopening : ∀ id ∈ opening, id = step.stepId) :
    LoopShape (step :: steps) (r :: results) (opening ++ started) := by
  obtain ⟨done, rest, rfl, hids, hstarted⟩ := h.shape
  refine ⟨?_, step :: done, rest, rfl, by rw [List.map_cons, List.map_cons, hid, hids], ?_⟩
  · intro r' hr'
    rcases List.mem_cons.mp hr' with rfl | hr'
    · exact hreview
    · exact h.review r' hr'
  · have hnew : ∀ id ∈ opening, id ∈ (step :: done).map ConnectorStep.stepId := by
      intro id hid'
      rw [hopening id hid']
      exact List.mem_cons_self
    have hold : ∀ {ids : List String}, (∀ id ∈ ids, id ∈ done.map ConnectorStep.stepId) →
        ∀ id ∈ opening ++ ids, id ∈ (step :: done).map ConnectorStep.stepId := by
      intro ids hids' id hid'
      rcases List.mem_append.mp hid' with hid' | hid'
      · exact hnew id hid'
      · exact List.mem_cons_of_mem _ (hids' id hid')
    rcases hstarted with hclosed | ⟨next, rest', init, rfl, rfl, hinit⟩
    · exact Or.inl (hold hclosed)
    · refine Or.inr ⟨next, rest', opening ++ init, rfl, ?_, hold hinit⟩
      rw [List.append_assoc]

theorem any_stepId_iff {stepId : String} :
    results.any (fun r => r.stepId == stepId) = true ↔ stepId ∈ results.map StepResult.stepId := by
  rw [List.any_eq_true, List.mem_map]
  simp only [beq_iff_eq]

section

variable {group : List JournalEntry}

section

variable (hclosed : ¬ HasOpen group)
  (hknown : ∀ r ∈ group.filterMap terminal?, r.status ≠ .outcomeUnknown)

include hclosed hknown

end

end

/-- The outcomes of a group are accepted for the plan it leased. -/
def GroupAccepted (host : Host) (group : List JournalEntry) : Prop :=
  ∀ lease ∈ group.filterMap lease?, ∀ plan, host.parsePlan lease.planJson = some plan →
    ∀ outcome ∈ group.filterMap outcome?, verifySteps plan outcome = .ok ()

/-- **Every signed outcome of the journal passes the server's check for its plan.** -/
def Journal.Accepted (host : Host) (journal : Journal) : Prop :=
  ∀ planId, GroupAccepted host (journal.group planId)

/-- What the journal holds of one plan: nothing of a lease yet, or one lease of a valid plan and
events of its loop. -/
inductive GroupShape (host : Host) (group : List JournalEntry) : Prop where
  | unleased (lease : group.filterMap lease? = []) (outcome : group.filterMap outcome? = [])
  | leased (lease : LeasedPlan) (plan : ExecutionPlan) (only : group.filterMap lease? = [lease])
      (parsed : host.parsePlan lease.planJson = some plan) (valid : plan.valid = true)
      (loop : LoopShape plan.steps (group.filterMap terminal?) (group.filterMap started?))

theorem Journal.group_append (journal other : Journal) (planId : String) :
    Journal.group (journal ++ other) planId = journal.group planId ++ Journal.group other planId :=
  List.filterMap_append

theorem Journal.group_map (planId q : String) (entries : List JournalEntry) :
    Journal.group (entries.map (AppJournalEvent.mk planId)) q
      = if planId = q then entries else [] := by
  rw [Journal.group, List.filterMap_map]
  by_cases h : planId = q
  · simp [h]
  · simp [h]

theorem LoopEntries.projections (h : LoopEntries steps entries) :
    entries.filterMap lease? = [] ∧ entries.filterMap outcome? = [] := by
  induction h with
  | nil => exact ⟨rfl, rfl⟩
  | opened => exact ⟨rfl, rfl⟩
  | skipped _ _ _ ih => exact ih
  | invoked _ _ _ ih => exact ih

/-! ## One call of `ExecuteAsync` -/

theorem admit_spec {journal : Journal} {process : ProcessState} {env : ExecuteRun}
    (h : admitPlan host journal process lease session env = .ok (.inr plan)) :
    host.parsePlan lease.planJson = some plan ∧ plan.valid = true
      ∧ journal.group plan.planId = [] := by
  rw [admitPlan] at h
  by_cases hgate : process.gateQuarantined = true ∨ ¬ env.enters = true
  · rw [if_pos hgate] at h
    cases h
  rw [if_neg hgate] at h
  cases hverify : host.verify env.trusted lease.planJson with
  | none =>
    rw [hverify] at h
    cases h
  | some q =>
    simp only [hverify] at h
    obtain ⟨hparse, hvalid⟩ := Option.filter_eq_some_iff.mp hverify
    by_cases hbound : boundTo q lease session env.now = true
    · rw [if_neg (not_not.mpr hbound)] at h
      by_cases hprevious : journal.group q.planId = []
      · rw [if_neg (not_not.mpr hprevious)] at h
        cases hrefusal : refusal? host journal process q env with
        | some code =>
          rw [hrefusal] at h
          cases h
        | none =>
          simp only [hrefusal] at h
          cases h
          exact ⟨hparse, ((Bool.and_eq_true _ _).mp hvalid).1, hprevious⟩
      · rw [if_pos hprevious] at h
        cases hretained : retained (journal.group q.planId) lease with
        | ok outcome =>
          rw [hretained] at h
          cases h
        | error code =>
          rw [hretained] at h
          cases h
    · rw [if_pos hbound] at h
      cases h

theorem executionEntries_eq (journal : Journal) (process : ProcessState) (env : ExecuteRun) :
    ∃ out, executionEntries host journal process plan lease session env
        = .planReceived lease.planJson :: .leaseAcquired lease ::
          ((runSteps host plan lease session env.run process.requiresProcessRestart plan.steps).entries ++ out)
      ∧ (out = [] ∨ (runSteps host plan lease session env.run process.requiresProcessRestart
            plan.steps).finished = true
          ∧ ∃ count, out = [.outcome (makeOutcome host plan lease count
              (runSteps host plan lease session env.run process.requiresProcessRestart
                plan.steps).results)]) := by
  rw [executionEntries]
  generalize runSteps host plan lease session env.run process.requiresProcessRestart plan.steps = p
  by_cases hfinished : p.finished = true
  · simp only [if_pos hfinished, persistOutcome]
    generalize journal.length + ([JournalEntry.planReceived lease.planJson,
      JournalEntry.leaseAcquired lease] ++ p.entries).length = count
    by_cases hsigns : host.signs (makeOutcome host plan lease count p.results) = true
    · rw [if_pos hsigns]
      exact ⟨_, by simp, Or.inr ⟨hfinished, count, rfl⟩⟩
    · rw [if_neg hsigns]
      exact ⟨[], by simp, Or.inl rfl⟩
  · simp only [if_neg hfinished]
    exact ⟨[], by simp, Or.inl rfl⟩

/-- The condition on what a call makes durable: when that includes an outcome, it was clean. -/
def CleanExecution (host : Host) (process : ProcessState) (plan : ExecutionPlan)
    (lease : LeasedPlan) (session : RuntimeSession) (env : ExecuteRun)
    (kept : List JournalEntry) : Prop :=
  kept.filterMap outcome? ≠ [] →
    CleanSteps host plan lease session env.run process.requiresProcessRestart [] plan.steps

variable {trusted : String → Bool}

theorem recoverGroup_sign {count : Nat} {group : List JournalEntry}
    {outcome : Outcome} (h : recoverGroup host trusted count group = .sign outcome) :
    group.filterMap outcome? = [] ∧ ∃ lease plan, lease ∈ group.filterMap lease?
      ∧ host.parsePlan lease.planJson = some plan
      ∧ outcome = makeOutcome host plan lease count (recoveredResults plan group) := by
  rw [recoverGroup] at h
  split_ifs at h
  cases hretained : group.reverse.findSome? outcome? with
  | some retained =>
    rw [hretained] at h
    cases h
  | none =>
    simp only [hretained] at h
    cases hlease : group.findSome? lease? with
    | none =>
      rw [hlease] at h
      cases h
    | some lease =>
      simp only [hlease] at h
      cases hverify : host.verify trusted lease.planJson with
      | none =>
        rw [hverify] at h
        cases h
      | some plan =>
        simp only [hverify, persistOutcome] at h
        have hnone : group.filterMap outcome? = [] := by
          rw [List.filterMap_eq_nil_iff]
          intro entry hentry
          exact List.findSome?_eq_none_iff.mp hretained entry (List.mem_reverse.mpr hentry)
        have hmem : lease ∈ group.filterMap lease? := by
          obtain ⟨entry, hentry, heq⟩ := List.exists_of_findSome?_eq_some hlease
          exact List.mem_filterMap.mpr ⟨entry, hentry, heq⟩
        have hparse := (Option.filter_eq_some_iff.mp hverify).1
        by_cases hsigns : host.signs (makeOutcome host plan lease count
            (recoveredResults plan group)) = true
        · rw [if_pos hsigns] at h
          cases h
          exact ⟨hnone, lease, plan, hmem, hparse, rfl⟩
        · rw [if_neg hsigns] at h
          cases h

theorem recoverGroups_appended {journal : Journal} (count : Nat)
    {planIds : List String} (hnodup : planIds.Nodup) :
    ((recoverGroups host trusted journal count planIds).appended.map AppJournalEvent.planId).Nodup
      ∧ ∀ e ∈ (recoverGroups host trusted journal count planIds).appended, e.planId ∈ planIds
        ∧ ∃ n outcome, e.entry = .outcome outcome
          ∧ recoverGroup host trusted n (journal.group e.planId) = .sign outcome := by
  induction planIds generalizing count with
  | nil => exact ⟨List.nodup_nil, fun e he => absurd he List.not_mem_nil⟩
  | cons planId rest ih =>
    obtain ⟨hnew, hrest⟩ := List.nodup_cons.mp hnodup
    rw [recoverGroups]
    have hweaken : ∀ n, (((recoverGroups host trusted journal n rest).appended.map AppJournalEvent.planId).Nodup
        ∧ ∀ e ∈ (recoverGroups host trusted journal n rest).appended, e.planId ∈ planId :: rest
          ∧ ∃ n outcome, e.entry = .outcome outcome
            ∧ recoverGroup host trusted n (journal.group e.planId) = .sign outcome) :=
      fun n => ⟨(ih n hrest).1, fun e he =>
        ⟨List.mem_cons_of_mem _ ((ih n hrest).2 e he).1, ((ih n hrest).2 e he).2⟩⟩
    cases hr : recoverGroup host trusted count (journal.group planId) with
    | skip => exact hweaken count
    | retained outcome => exact hweaken count
    | fail => exact ⟨List.nodup_nil, fun e he => absurd he List.not_mem_nil⟩
    | sign outcome =>
      refine ⟨?_, fun e he => ?_⟩
      · rw [List.map_cons, List.nodup_cons]
        refine ⟨fun hmem => ?_, (ih (count + 1) hrest).1⟩
        obtain ⟨e, he, heq⟩ := List.mem_map.mp hmem
        have heq : e.planId = planId := heq
        exact hnew (heq ▸ ((ih (count + 1) hrest).2 e he).1)
      · rcases List.mem_cons.mp he with rfl | he
        · exact ⟨List.mem_cons_self, count, outcome, rfl, hr⟩
        · exact (hweaken (count + 1)).2 e he

theorem Journal.nodup_planIds (journal : Journal) : journal.planIds.Nodup :=
  List.nodup_reverse.mpr (List.nodup_dedup _)

theorem Journal.group_of_nodup {journal : Journal}
    (h : (journal.map AppJournalEvent.planId).Nodup) (planId : String) :
    journal.group planId = [] ∨
      ∃ e ∈ journal, e.planId = planId ∧ journal.group planId = [e.entry] := by
  induction journal with
  | nil => exact Or.inl rfl
  | cons e rest ih =>
    obtain ⟨hnew, hrest⟩ := List.nodup_cons.mp h
    by_cases heq : e.planId = planId
    · refine Or.inr ⟨e, List.mem_cons_self, heq, ?_⟩
      have hempty : Journal.group rest planId = [] := by
        rw [Journal.group, List.filterMap_eq_nil_iff]
        intro e' he'
        refine if_neg fun heq' => hnew ?_
        exact heq.symm ▸ heq' ▸ List.mem_map_of_mem he'
      have hcons : Journal.group (e :: rest) planId = e.entry :: Journal.group rest planId :=
        List.filterMap_cons_some (if_pos heq)
      rw [hcons, hempty]
    · have hskip : Journal.group (e :: rest) planId = Journal.group rest planId :=
        List.filterMap_cons_none (if_neg heq)
      rw [hskip]
      exact (ih hrest).imp_right fun ⟨e', he', h'⟩ => ⟨e', List.mem_cons_of_mem _ he', h'⟩

/-! ## The run -/

def HostStep.Clean (host : Host) (s : HostState) (step : HostStep) : Prop :=
  match step with
  | .execute lease session env _ =>
    ∀ plan, admitPlan host s.journal s.process lease session env = .ok (.inr plan) →
      CleanExecution host s.process plan lease session env
        ((step.appended host s).group plan.planId)
  | .recover _ _ =>
    ∀ planId, (step.appended host s).group planId ≠ [] →
      ∀ lease ∈ (s.journal.group planId).filterMap lease?,
        ∀ plan, host.parsePlan lease.planJson = some plan →
          CleanGroup plan (s.journal.group planId)
  | _ => True

/-- What one step does to one group, and what that needs to keep it accepted. -/
structure GroupStep (host : Host) (group appended : List JournalEntry) (Clean : Prop) : Prop where
  shape : GroupShape host (group ++ appended)
  accepted : GroupAccepted host (group ++ appended) ↔ GroupAccepted host group ∧ Clean

theorem GroupStep.idle {group : List JournalEntry} (h : GroupShape host group) {Clean : Prop}
    (hclean : Clean) : GroupStep host group [] Clean := by
  constructor
  · rwa [List.append_nil]
  · rw [List.append_nil]
    exact (and_iff_left hclean).symm

/-- Preflight, then two files; the first fetch is refused, the second succeeds. -/
def batchPlan : ExecutionPlan where
  planId := "plan-002"
  planHash := "hash"
  capabilityId := "simulation.model_cache.file.fetch.batch.request"
  tenantId := "tenant-001"
  deviceId := "device-001"
  runtimeGeneration := 7
  runtimeInstanceId := "runtime-instance-001"
  adapterId := "ai00.vismockup"
  adapterMajor := 1
  targetProduct := ⟨"siemens.vismockup", [14, 2], [15, 0]⟩
  steps :=
    [{ stepId := "step-00001", operationId := preflightOperation, contractHash := "preflight"
       timeoutSeconds := 60, sideEffectClassification := .read },
     { stepId := "step-00002", operationId := fetchOperation, contractHash := "fetch"
       dependsOn := ["step-00001"], timeoutSeconds := 60, sideEffectClassification := .read },
     { stepId := "step-00003", operationId := fetchOperation, contractHash := "fetch"
       dependsOn := ["step-00001"], timeoutSeconds := 60, sideEffectClassification := .read }]
  issuedAt := 0
  expiresAt := 10000000000

def batchHost : Host where
  manifest := ⟨"ai00.vismockup", 1, "siemens.vismockup", [14, 2, 0], fun _ _ => true⟩
  hasArtifactMaterializer := false
  hasCaptureUploader := true
  deviceKeyId := "device-key-001"
  parsePlan := fun planJson => if planJson = "batch" then some batchPlan else none
  canonicalHash := fun _ => some "hash"
  signs := fun _ => true

def batchLease : LeasedPlan := ⟨"lease-002", 6000000000, "batch"⟩

end Ai00.Connector
