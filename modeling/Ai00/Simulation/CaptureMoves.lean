import Ai00.Simulation.CaptureRuns

/-! # What a call does to a run

`Moves lapse w w'` lists what a call can do to the steps of a run and to its log. The statuses of the
run are as they should be unless there is a lapse. `Call.Careless` says of each call, in the terms of
the run it finds, when it lapses; `execute_moves` is the one place where the calls are opened, and
every invariant goes over `Moves`.
-/

namespace Ai00.Simulation

variable {w w' : World} {r : CaptureRun} {s t : CaptureStep} {operationId : Str} {c : Context}
  {plan : Plan} {capture : PlanStep} {o : Outcome} {f g : CaptureStep → CaptureStep}

/-! ## The invariant of the steps -/

def Event.attachedNames : Event → List Str
  | .attached operationIds => operationIds
  | _ => []

/-- The operations whose artifacts were attached, one entry each time. -/
def World.attachments (w : World) : List Str := w.log.flatMap Event.attachedNames

@[simp] theorem attachments_note {run : CaptureRun} {log : List Event} {e : Event} :
    World.attachments { run, log := log ++ [e] }
      = World.attachments { run, log } ++ e.attachedNames := by
  simp [World.attachments]

/-- What holds of the steps of every run that calls lead to. -/
structure Coherent (w : World) : Prop where
  ids : (w.run.steps.map CaptureStep.operationId).Nodup
  prepared : ∀ s ∈ w.run.steps, Prepared s
  /-- The steps that the plan of a queued step captures are queued with that plan. -/
  together : ∀ s ∈ w.run.steps, s.status = .queued → ∀ name ∈ s.plan.captureNames,
    ∃ t ∈ w.run.steps, t.operationId = name ∧ t.status = .queued ∧ t.plan = s.plan
  attached : ∀ s ∈ w.run.steps, s.artifactAttached = true → s.status = .completed
  once : ∀ s ∈ w.run.steps,
    w.attachments.count s.operationId = if s.artifactAttached = true then 1 else 0

theorem Coherent.step? (h : Coherent w) (hs : s ∈ w.run.steps) :
    w.run.step? s.operationId = some s := step?_of_mem h.ids hs

theorem Coherent.unique (h : Coherent w) (hs : s ∈ w.run.steps) (ht : t ∈ w.run.steps)
    (heq : s.operationId = t.operationId) : s = t := by
  have hfound := h.step? hs
  rw [heq, h.step? ht] at hfound
  exact (Option.some_injective _ hfound).symm

/-! ## Moves -/

/-- The edit of the steps of several operations. -/
def onSteps (names : List Str) (f : CaptureStep → CaptureStep) (s : CaptureStep) : CaptureStep :=
  if s.operationId ∈ names then f s else s

def CaptureStep.attach (s : CaptureStep) : CaptureStep := { s with artifactAttached := true }

def CaptureStep.retriedWith (attempt : Nat) (plan : PlanV1) (s : CaptureStep) : CaptureStep :=
  { s with status := .queued, attempt, plan, artifactRef := none, artifactAttached := false }

/-- What an outcome may write to the steps of a run. -/
structure Reports (r : CaptureRun) (g : CaptureStep → CaptureStep) : Prop where
  keepsId : KeepsId g
  plan : ∀ s, (g s).plan = s.plan
  attempt : ∀ s, (g s).attempt = s.attempt
  attachedFlag : ∀ s, (g s).artifactAttached = s.artifactAttached
  attached : ∀ s ∈ r.steps, s.artifactAttached = true → g s = s
  status : ∀ s ∈ r.steps, g s = s
    ∨ (g s).status ∈ [StepStatus.completed, .failed, .outcomeUnknown, .cancelled]
  /-- Steps that are queued with one plan stay so together. -/
  together : ∀ s ∈ r.steps, ∀ t ∈ r.steps, s.status = .queued → t.status = .queued →
    t.plan = s.plan → (g s).status = .queued → (g t).status = .queued

inductive Moves (lapse : Prop) (w : World) : World → Prop
  | stay : Moves lapse w w
  | queue (s : CaptureStep) (hs : s ∈ w.run.steps) (hqueued : s.status = .queued)
      (hopen : w.run.status.isCancelling = false) :
      Moves lapse w
        { run := (w.run.edit (onSteps s.plan.captureNames (.withStatus .running))).setStatus .running
          log := w.log ++ [.planQueued s.plan] }
  | attach (names : List Str) (status : RunStatus) (hopen : w.run.status.isCancelling = false)
      (hsome : names ≠ []) (hnodup : names.Nodup)
      (hawaits : ∀ name ∈ names, ∃ s ∈ w.run.steps, s.operationId = name
        ∧ s.awaitsAttachment = true)
      (hstatus : lapse ∨ (status = .completed ∧ (w.run.edit (onSteps names .attach)).isDone)
        ∨ (status = w.run.status ∧ ¬ (w.run.edit (onSteps names .attach)).isDone)) :
      Moves lapse w
        { run := (w.run.edit (onSteps names .attach)).setStatus status
          log := w.log ++ [.attached names] }
  | report (g : CaptureStep → CaptureStep) (status : RunStatus) (hreports : Reports w.run g)
      (hcancelling : lapse ∨ (w.run.status.isCancelling = true → status.isCancelling = true))
      (hstatus : w.run.status.isCancelling = true ∨ (status = .completed ↔ (w.run.edit g).isDone)) :
      Moves lapse w { w with run := (w.run.edit g).setStatus status }
  | retry (s : CaptureStep) (attempt : Nat) (plan : PlanV1) (hs : s ∈ w.run.steps)
      (hfailed : s.status = .failed) (hattempt : s.attempt < attempt)
      (hprepared : Prepared (s.retriedWith attempt plan))
      (honly : ∀ name ∈ plan.captureNames, name = s.operationId)
      (hopen : lapse ∨ w.run.status.isCancelling = false) :
      Moves lapse w
        { w with run :=
            (w.run.edit (onStep s.operationId (.retriedWith attempt plan))).setStatus .queued }
  | cancel (status : RunStatus) (hstatus : status.isCancelling = true)
      (hopen : lapse ∨ ¬ w.run.isDone) :
      Moves lapse w
        { run := (w.run.edit (fun s =>
            if s.status = .queued then s.withStatus .cancelled else s)).setStatus status
          log := w.log ++ [.cancelled] }

/-! ## The invariant goes over a move -/

variable {status : RunStatus}

theorem Coherent.edit (h : Coherent w) (hkeep : KeepsId g) {log : List Event}
    (hprepared : ∀ s ∈ w.run.steps, Prepared (g s))
    (htogether : ∀ s ∈ w.run.steps, (g s).status = .queued → ∀ name ∈ (g s).plan.captureNames,
      ∃ t ∈ w.run.steps, t.operationId = name ∧ (g t).status = .queued ∧ (g t).plan = (g s).plan)
    (hattached : ∀ s ∈ w.run.steps, (g s).artifactAttached = true → (g s).status = .completed)
    (honce : ∀ s ∈ w.run.steps, (World.attachments { w with log }).count s.operationId
      = if (g s).artifactAttached = true then 1 else 0) :
    Coherent { run := (w.run.edit g).setStatus status, log } where
  ids := by
    show ((w.run.steps.map g).map CaptureStep.operationId).Nodup
    have hids : CaptureStep.operationId ∘ g = CaptureStep.operationId := funext hkeep
    rw [List.map_map, hids]
    exact h.ids
  prepared := List.forall_mem_map.mpr hprepared
  together := by
    refine List.forall_mem_map.mpr fun s hs hqueued name hname => ?_
    obtain ⟨t, ht, hid, hrest⟩ := htogether s hs hqueued name hname
    exact ⟨g t, List.mem_map_of_mem ht, (hkeep t).trans hid, hrest⟩
  attached := List.forall_mem_map.mpr hattached
  once := by
    refine List.forall_mem_map.mpr fun s hs => ?_
    rw [hkeep s]
    exact honce s hs

theorem onSteps_keepsId {names : List Str} (hf : KeepsId f) : KeepsId (onSteps names f) := by
  intro s
  unfold onSteps
  split_ifs
  · exact hf s
  · rfl

theorem Coherent.queuedWith (h : Coherent w) (hs : s ∈ w.run.steps) (hqueued : s.status = .queued)
    (ht : t ∈ w.run.steps) (hmem : t.operationId ∈ s.plan.captureNames) :
    t.status = .queued ∧ t.plan = s.plan := by
  obtain ⟨u, hu, hid, hu'⟩ := h.together s hs hqueued _ hmem
  rw [← h.unique hu ht hid]
  exact hu'

theorem Coherent.not_attached (h : Coherent w) (hs : s ∈ w.run.steps)
    (hstatus : s.status ≠ .completed) : ¬ s.artifactAttached = true :=
  fun hattached => hstatus (h.attached s hs hattached)

theorem Coherent.queue (h : Coherent w) (hs : s ∈ w.run.steps) (hqueued : s.status = .queued) : Coherent
      { run := (w.run.edit (onSteps s.plan.captureNames (.withStatus .running))).setStatus .running
        log := w.log ++ [.planQueued s.plan] } := by
  have hsame : ∀ t, (onSteps s.plan.captureNames (.withStatus .running) t).plan = t.plan
      ∧ (onSteps s.plan.captureNames (.withStatus .running) t).attempt = t.attempt
      ∧ (onSteps s.plan.captureNames (.withStatus .running) t).artifactAttached
        = t.artifactAttached := by
    intro t
    unfold onSteps
    split_ifs <;> exact ⟨rfl, rfl, rfl⟩
  have hkeep : KeepsId (onSteps s.plan.captureNames (.withStatus .running)) :=
    onSteps_keepsId fun _ => rfl
  refine h.edit hkeep (fun t ht => ?_) (fun t ht hqueued' name hname => ?_) (fun t ht => ?_) fun t ht => ?_
  · exact (h.prepared t ht).of_plan (hsame t).1 (hkeep t) (hsame t).2.1
  · -- a step that stays queued is not of the plan, nor are the steps queued with it
    have hother : t.operationId ∉ s.plan.captureNames := by
      intro hmem
      rw [onSteps, if_pos hmem] at hqueued'
      cases hqueued'
    rw [onSteps, if_neg hother] at hqueued' hname
    obtain ⟨u, hu, hid, hstatus, hplan⟩ := h.together t ht hqueued' name hname
    have hu' : u.operationId ∉ s.plan.captureNames := by
      intro hmem
      rw [← (h.queuedWith hs hqueued hu hmem).2, hplan] at hother
      exact hother (h.prepared t ht).own
    refine ⟨u, hu, hid, ?_⟩
    rw [onSteps, if_neg hu', onSteps, if_neg hother]
    exact ⟨hstatus, hplan⟩
  · intro hattached
    rw [(hsame t).2.2] at hattached
    have hcompleted := h.attached t ht hattached
    have hother : t.operationId ∉ s.plan.captureNames := by
      intro hmem
      rw [(h.queuedWith hs hqueued ht hmem).1] at hcompleted
      cases hcompleted
    rw [onSteps, if_neg hother]
    exact hcompleted
  · rw [attachments_note, (hsame t).2.2]
    simpa [Event.attachedNames] using h.once t ht

theorem CaptureStep.awaitsAttachment_iff :
    s.awaitsAttachment = true ↔ s.status = .completed ∧ s.artifactAttached = false := by
  simp [CaptureStep.awaitsAttachment]

theorem Coherent.attach (h : Coherent w) {names : List Str}
    (hnodup : names.Nodup)
    (hawaits : ∀ name ∈ names, ∃ s ∈ w.run.steps, s.operationId = name ∧ s.awaitsAttachment = true) :
    Coherent { run := (w.run.edit (onSteps names .attach)).setStatus status
               log := w.log ++ [.attached names] } := by
  have hwaiting : ∀ s ∈ w.run.steps, s.operationId ∈ names →
      s.status = .completed ∧ s.artifactAttached = false := by
    intro s hs hmem
    obtain ⟨t, ht, hid, hawaits⟩ := hawaits _ hmem
    rw [← h.unique ht hs hid]
    exact CaptureStep.awaitsAttachment_iff.mp hawaits
  have hsame : ∀ t, (onSteps names .attach t).plan = t.plan ∧ (onSteps names .attach t).attempt = t.attempt
      ∧ (onSteps names .attach t).status = t.status := by
    intro t
    unfold onSteps
    split_ifs <;> exact ⟨rfl, rfl, rfl⟩
  have hkeep : KeepsId (onSteps names .attach) := onSteps_keepsId fun _ => rfl
  refine h.edit hkeep (fun t ht => ?_) (fun t ht hqueued name hname => ?_) (fun t ht => ?_) fun t ht => ?_
  · exact (h.prepared t ht).of_plan (hsame t).1 (hkeep t) (hsame t).2.1
  · rw [(hsame t).2.2] at hqueued
    rw [(hsame t).1] at hname
    obtain ⟨u, hu, hid, hu'⟩ := h.together t ht hqueued name hname
    refine ⟨u, hu, hid, ?_⟩
    rw [(hsame u).2.2, (hsame u).1, (hsame t).1]
    exact hu'
  · intro hattached
    rw [(hsame t).2.2]
    by_cases hmem : t.operationId ∈ names
    · exact (hwaiting t ht hmem).1
    · rw [onSteps, if_neg hmem] at hattached
      exact h.attached t ht hattached
  · rw [attachments_note, List.count_append, h.once t ht, Event.attachedNames]
    by_cases hmem : t.operationId ∈ names
    · rw [(hwaiting t ht hmem).2, onSteps, if_pos hmem, List.count_eq_one_of_mem hnodup hmem]
      rfl
    · rw [onSteps, if_neg hmem, List.count_eq_zero_of_not_mem hmem, Nat.add_zero]

theorem Coherent.report (h : Coherent w) (hg : Reports w.run g) :
    Coherent { w with run := (w.run.edit g).setStatus status } := by
  refine h.edit hg.keepsId (fun s hs => ?_) (fun s hs hqueued name hname => ?_) (fun s hs => ?_) fun s hs => ?_
  · exact (h.prepared s hs).of_plan (hg.plan s) (hg.keepsId s) (hg.attempt s)
  · rw [hg.plan s] at hname
    have hbefore : s.status = .queued := by
      rcases hg.status s hs with heq | hmem
      · exact heq ▸ hqueued
      · rw [hqueued] at hmem
        simp at hmem
    obtain ⟨t, ht, hid, hstatus, hplan⟩ := h.together s hs hbefore name hname
    refine ⟨t, ht, hid, hg.together s hs t ht hbefore hstatus hplan hqueued, ?_⟩
    rw [hg.plan t, hg.plan s, hplan]
  · intro hattached
    rw [hg.attachedFlag s] at hattached
    rw [hg.attached s hs hattached]
    exact h.attached s hs hattached
  · rw [hg.attachedFlag s]
    exact h.once s hs

theorem Coherent.retry (h : Coherent w) {attempt : Nat} {p : PlanV1} (hs : s ∈ w.run.steps)
    (hfailed : s.status = .failed) (hprepared : Prepared (s.retriedWith attempt p))
    (honly : ∀ name ∈ p.captureNames, name = s.operationId) :
    Coherent { w with run :=
      (w.run.edit (onStep s.operationId (.retriedWith attempt p))).setStatus .queued } := by
  have hself : onStep s.operationId (.retriedWith attempt p) s = s.retriedWith attempt p :=
    if_pos rfl
  have hother : ∀ t, t.operationId ≠ s.operationId →
      onStep s.operationId (.retriedWith attempt p) t = t := fun t ht => if_neg ht
  have hsplit : ∀ t ∈ w.run.steps, t = s ∨ t.operationId ≠ s.operationId := by
    intro t ht
    by_cases heq : t.operationId = s.operationId
    · exact .inl (h.unique ht hs heq)
    · exact .inr heq
  have hkeep : KeepsId (onStep s.operationId (.retriedWith attempt p)) := KeepsId.onStep fun _ => rfl
  refine h.edit hkeep (fun t ht => ?_) (fun t ht hqueued name hname => ?_) (fun t ht => ?_) fun t ht => ?_
  · rcases hsplit t ht with rfl | hne
    · rw [hself]
      exact hprepared
    · rw [hother t hne]
      exact h.prepared t ht
  · rcases hsplit t ht with rfl | hne
    · rw [hself] at hname
      refine ⟨t, ht, (honly name hname).symm, ?_⟩
      rw [hself]
      exact ⟨rfl, rfl⟩
    · rw [hother t hne] at hqueued hname
      obtain ⟨u, hu, hid, hstatus, hplan⟩ := h.together t ht hqueued name hname
      have hne' : u.operationId ≠ s.operationId := by
        intro heq
        rw [h.unique hu hs heq, hfailed] at hstatus
        cases hstatus
      refine ⟨u, hu, hid, ?_⟩
      rw [hother u hne', hother t hne]
      exact ⟨hstatus, hplan⟩
  · rcases hsplit t ht with rfl | hne
    · rw [hself]
      nofun
    · rw [hother t hne]
      exact h.attached t ht
  · rcases hsplit t ht with rfl | hne
    · rw [hself]
      have hbefore := h.once t ht
      rw [if_neg (h.not_attached ht (by rw [hfailed]; decide))] at hbefore
      exact hbefore
    · rw [hother t hne]
      exact h.once t ht

theorem Coherent.cancel (h : Coherent w) :
    Coherent { run := (w.run.edit (fun s =>
                if s.status = .queued then s.withStatus .cancelled else s)).setStatus status
               log := w.log ++ [.cancelled] } := by
  have hsame : ∀ t : CaptureStep,
      (if t.status = .queued then t.withStatus .cancelled else t).plan = t.plan
      ∧ (if t.status = .queued then t.withStatus .cancelled else t).attempt = t.attempt
      ∧ (if t.status = .queued then t.withStatus .cancelled else t).operationId = t.operationId
      ∧ (if t.status = .queued then t.withStatus .cancelled else t).artifactAttached
        = t.artifactAttached := by
    intro t
    split_ifs <;> exact ⟨rfl, rfl, rfl, rfl⟩
  refine h.edit (fun t => (hsame t).2.2.1) (fun t ht => ?_) (fun t ht hqueued => ?_)
    (fun t ht => ?_) fun t ht => ?_
  · exact (h.prepared t ht).of_plan (hsame t).1 (hsame t).2.2.1 (hsame t).2.1
  · -- no step stays queued
    split_ifs at hqueued with hstatus
    · cases hqueued
    · exact absurd hqueued hstatus
  · intro hattached
    rw [(hsame t).2.2.2] at hattached
    have hcompleted := h.attached t ht hattached
    rw [if_neg (by rw [hcompleted]; decide)]
    exact hcompleted
  · rw [attachments_note, (hsame t).2.2.2]
    simpa [Event.attachedNames] using h.once t ht

/-- **The invariant of the steps goes over every move.** -/
theorem Moves.coherent {lapse : Prop} (h : Coherent w) (hmoves : Moves lapse w w') : Coherent w' := by
  cases hmoves with
  | stay => exact h
  | queue s hs hqueued => exact h.queue hs hqueued
  | attach names status _ _ hnodup hawaits => exact h.attach hnodup hawaits
  | report g status hreports => exact h.report hreports
  | retry s attempt plan hs hfailed _ hprepared honly => exact h.retry hs hfailed hprepared honly
  | cancel => exact h.cancel

end Ai00.Simulation
