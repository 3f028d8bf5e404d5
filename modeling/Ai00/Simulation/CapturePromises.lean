import Ai00.Simulation.CaptureCalls

/-! # What a capture run promises

The promises of a run over all its calls (`KeepsPromises`), and when they are kept: in every run of
which no call is careless (`capture_promises_kept`). What is attached stays in every run, careless or not.
-/

namespace Ai00.Simulation

variable {w w' : World} {r start : CaptureRun} {s t : CaptureStep} {operationId : Str} {c : Context}
  {plan : Plan} {o : Outcome} {lapse : Prop} {call : Call} {calls past more : List Call}

/-! ## Starting -/

/-- The operations of a new run with their plans. -/
structure Planned (assigned : List (ManifestOperation × PlanV1)) : Prop where
  renders : ∀ x ∈ assigned, x.2.renders
  own : ∀ x ∈ assigned, x.1.operationId ∈ x.2.captureNames
  attempts : ∀ x ∈ assigned, ∀ capture ∈ x.2.captures, capture.payload.attempt = some 1
  together : ∀ x ∈ assigned, x.1.productNodeKeys ≠ [] → ∀ name ∈ x.2.captureNames,
    ∃ y ∈ assigned, y.1.operationId = name ∧ y.1.productNodeKeys ≠ [] ∧ y.2 = x.2

section

variable {contracts : Contracts} {manifest : Option Manifest} {materialized : Bool}
  {captureRunId deviceId : Str} {issuedAt : Int} {continuous : Bool}

variable {assigned : List (ManifestOperation × PlanV1)}

theorem planned_single {m : Manifest}
    (h : ∀ x ∈ assigned, ∃ q : PlanRequest, q.attempt = 1
      ∧ buildCapturePlan contracts m [x.1.operationId] q = .ok x.2) : Planned assigned := by
  have honly : ∀ x ∈ assigned, ∀ name ∈ x.2.captureNames, name = x.1.operationId := by
    intro x hx name hname
    obtain ⟨q, -, hbuilt⟩ := h x hx
    exact List.mem_singleton.mp (((buildCapturePlan_eq_ok hbuilt).2.2.1 name).mp hname).1
  refine ⟨fun x hx => ?_, fun x hx => ?_, fun x hx => ?_, fun x hx hkeys name hname => ?_⟩
  · obtain ⟨q, -, hbuilt⟩ := h x hx
    exact (buildCapturePlan_eq_ok hbuilt).1
  · obtain ⟨q, -, hbuilt⟩ := h x hx
    obtain ⟨name, hname⟩ := List.exists_mem_of_ne_nil _ (buildCapturePlan_eq_ok hbuilt).2.1
    exact honly x hx name hname ▸ hname
  · obtain ⟨q, hattempt, hbuilt⟩ := h x hx
    rw [← hattempt]
    exact (buildCapturePlan_eq_ok hbuilt).2.2.2
  · exact ⟨x, hx, (honly x hx name hname).symm, hkeys, rfl⟩

theorem Planned.batch (h : Planned assigned)
    {m : Manifest} {q : PlanRequest} {batch : PlanV1} (hattempt : q.attempt = 1)
    (hmem : ∀ x ∈ assigned, x.1 ∈ m.operations)
    (hbuilt : buildCapturePlan contracts m (((assigned.map Prod.fst).filter
      (fun o => o.productNodeKeys ≠ [])).map ManifestOperation.operationId) q = .ok batch) :
    Planned (assigned.map fun x => (x.1, if x.1.productNodeKeys = [] then x.2 else batch)) := by
  obtain ⟨hrenders, -, hnames, hattempts⟩ := buildCapturePlan_eq_ok hbuilt
  have hin : ∀ x ∈ assigned, x.1.productNodeKeys ≠ [] → x.1.operationId ∈ batch.captureNames := by
    intro x hx hkeys
    rw [hnames]
    refine ⟨List.mem_map_of_mem (List.mem_filter.mpr ⟨List.mem_map_of_mem hx, ?_⟩),
      List.mem_map_of_mem (hmem x hx)⟩
    exact decide_eq_true hkeys
  refine ⟨List.forall_mem_map.mpr fun x hx => ?_, List.forall_mem_map.mpr fun x hx => ?_,
    List.forall_mem_map.mpr fun x hx => ?_,
    List.forall_mem_map.mpr fun x hx hkeys name hname => ?_⟩
  · dsimp only
    split_ifs
    · exact h.renders x hx
    · exact hrenders
  · dsimp only
    split_ifs with hkeys
    · exact h.own x hx
    · exact hin x hx hkeys
  · dsimp only
    split_ifs
    · exact h.attempts x hx
    · rw [← hattempt]
      exact hattempts
  · dsimp only at hkeys hname ⊢
    rw [if_neg hkeys] at hname ⊢
    obtain ⟨o, ho, hid⟩ := List.mem_map.mp ((hnames name).mp hname).1
    obtain ⟨ho, hkeys'⟩ := List.mem_filter.mp ho
    obtain ⟨y, hy, rfl⟩ := List.mem_map.mp ho
    have hkeys' : y.1.productNodeKeys ≠ [] := of_decide_eq_true hkeys'
    exact ⟨_, List.mem_map_of_mem hy, hid, hkeys', by rw [if_neg hkeys']⟩

def firstStep (x : ManifestOperation × PlanV1) : CaptureStep :=
  { operationId := x.1.operationId, sequence := x.1.sequence
    status := if x.1.productNodeKeys = [] then .skipped else .queued
    expectedSceneHash := x.1.sceneHash, plan := x.2 }

/-- **What `start_capture` creates**: a step for each operation, skipped where there is no product. -/
theorem startCapture_eq_ok
    (h : startCapture contracts manifest materialized captureRunId deviceId issuedAt c continuous = .ok start) :
    ∃ assigned : List (ManifestOperation × PlanV1), Planned assigned
      ∧ (assigned.map fun x => x.1.operationId).Nodup ∧ start.steps = assigned.map firstStep
      ∧ start.status
        = if ∀ x ∈ assigned, x.1.productNodeKeys = [] then .completed else .queued := by
  obtain ⟨tenantId, -, h⟩ := bind_eq_ok.mp h
  obtain ⟨_, -, h⟩ := bind_eq_ok.mp h
  obtain ⟨m, -, h⟩ := bind_eq_ok.mp h
  obtain ⟨_, -, h⟩ := bind_eq_ok.mp h
  obtain ⟨_, -, h⟩ := bind_eq_ok.mp h
  obtain ⟨_, -, h⟩ := bind_eq_ok.mp h
  obtain ⟨singles, hsingles, h⟩ := bind_eq_ok.mp h
  obtain ⟨hlength, hbuilt⟩ := List.forall₂_iff_zip.mp (forall₂_of_mapM hsingles)
  rw [List.length_zipIdx] at hlength
  have hfst : ((laterFirst m.operations).zip singles).map Prod.fst = laterFirst m.operations :=
    List.map_fst_zip (le_of_eq hlength)
  have hmem : ∀ x ∈ (laterFirst m.operations).zip singles, x.1 ∈ m.operations := fun x hx =>
    (List.mem_insertionSort _).mp (List.of_mem_zip hx).1
  have hown : ∀ x ∈ (laterFirst m.operations).zip singles, ∃ q : PlanRequest, q.attempt = 1
      ∧ buildCapturePlan contracts m [x.1.operationId] q = .ok x.2 := by
    intro x hx
    have hzip : (laterFirst m.operations).zip singles
        = ((laterFirst m.operations).zipIdx.zip singles).map (Prod.map Prod.fst id) := by
      rw [← List.zip_map_left, List.zipIdx_map_fst]
    rw [hzip] at hx
    obtain ⟨⟨⟨o, index⟩, p⟩, hpair, rfl⟩ := List.mem_map.mp hx
    exact ⟨_, rfl, hbuilt hpair⟩
  have hsingle := planned_single hown
  have hcaptured : (∀ x ∈ (laterFirst m.operations).zip singles, x.1.productNodeKeys = [])
      ↔ (laterFirst m.operations).filter (fun o => o.productNodeKeys ≠ []) = [] := by
    rw [List.filter_eq_nil_iff]
    simp only [decide_eq_true_eq, not_not]
    conv_rhs => rw [← hfst, List.forall_mem_map]
  by_cases hbatch : continuous = true ∧ (laterFirst m.operations).filter (fun o => o.productNodeKeys ≠ []) ≠ []
  · simp only [if_pos hbatch] at h
    simp only [bind_eq_ok] at h
    obtain ⟨batch, hbuilt, plans, hplans, _, hids, h⟩ := h
    rw [require_eq_ok] at hids
    cases hplans
    cases h
    have hzip : (laterFirst m.operations).zip (((laterFirst m.operations).zip singles).map
          fun x => if x.1.productNodeKeys = [] then x.2 else batch)
        = ((laterFirst m.operations).zip singles).map
          fun x => (x.1, if x.1.productNodeKeys = [] then x.2 else batch) := by
      have hboth := List.zip_map' (f := Prod.fst)
        (g := fun x => if x.1.productNodeKeys = [] then x.2 else batch)
        (l := (laterFirst m.operations).zip singles)
      rwa [hfst] at hboth
    rw [← hfst] at hbuilt
    refine ⟨_, hsingle.batch rfl hmem hbuilt, ?_, congrArg (List.map firstStep) hzip, ?_⟩
    · rw [← hfst, List.map_map] at hids
      rw [List.map_map]
      exact hids
    · refine if_congr ?_ rfl rfl
      rw [List.forall_mem_map]
      exact hcaptured.symm
  · simp only [if_neg hbatch] at h
    obtain ⟨plans, hplans, h⟩ := bind_eq_ok.mp h
    obtain ⟨_, hids, h⟩ := bind_eq_ok.mp h
    rw [require_eq_ok] at hids
    cases hplans
    cases h
    refine ⟨_, hsingle, ?_, rfl, ?_⟩
    · rw [← hfst, List.map_map] at hids
      exact hids
    · exact if_congr hcaptured.symm rfl rfl

theorem coherent_start
    (h : startCapture contracts manifest materialized captureRunId deviceId issuedAt c continuous
      = .ok start) : Coherent { run := start } := by
  obtain ⟨assigned, hplanned, hids, hsteps, -⟩ := startCapture_eq_ok h
  have hqueued : ∀ x : ManifestOperation × PlanV1, (firstStep x).status = .queued ↔
      x.1.productNodeKeys ≠ [] := by
    intro x
    unfold firstStep
    split_ifs with hkeys <;> simp [hkeys]
  refine ⟨?_, ?_, ?_, ?_, ?_⟩
  · rw [hsteps, List.map_map]
    exact hids
  · rw [hsteps]
    exact List.forall_mem_map.mpr fun x hx =>
      ⟨hplanned.renders x hx, hplanned.own x hx, hplanned.attempts x hx⟩
  · rw [hsteps]
    refine List.forall_mem_map.mpr fun x hx hstatus name hname => ?_
    obtain ⟨y, hy, hid, hkeys, hplan⟩ := hplanned.together x hx ((hqueued x).mp hstatus) name hname
    exact ⟨firstStep y, List.mem_map_of_mem hy, hid, (hqueued y).mpr hkeys, hplan⟩
  · rw [hsteps]
    exact List.forall_mem_map.mpr fun x _ hattached => by cases hattached
  · rw [hsteps]
    exact List.forall_mem_map.mpr fun x _ => rfl

end

/-! ## The status of the run -/

structure Sound (w : World) : Prop where
  coherent : Coherent w
  cancelled : .cancelled ∈ w.log → w.run.status.isCancelling = true
  completed : w.run.status = .completed ↔ w.run.isDone

theorem sound_start {contracts : Contracts} {manifest : Option Manifest} {materialized : Bool}
    {captureRunId deviceId : Str} {issuedAt : Int} {continuous : Bool}
    (h : startCapture contracts manifest materialized captureRunId deviceId issuedAt c continuous
      = .ok start) : Sound { run := start } := by
  refine ⟨coherent_start h, nofun, ?_⟩
  obtain ⟨assigned, -, -, hsteps, hstatus⟩ := startCapture_eq_ok h
  have hdone : start.isDone ↔ ∀ x ∈ assigned, x.1.productNodeKeys = [] := by
    unfold CaptureRun.isDone
    rw [hsteps, List.forall_mem_map]
    refine forall₂_congr fun x _ => ?_
    unfold firstStep CaptureStep.isDone
    split_ifs with hkeys <;> simp [hkeys]
  rw [hdone]
  show start.status = _ ↔ _
  rw [hstatus]
  split_ifs with hkeys
  · exact iff_of_true rfl hkeys
  · exact iff_of_false (by decide) hkeys

theorem ne_completed_of_cancelling {status : RunStatus} (h : status.isCancelling = true) :
    status ≠ .completed := by
  rintro rfl
  cases h

/-- What an outcome writes does not make a run done. -/
theorem Reports.not_isDone {g : CaptureStep → CaptureStep} (hg : Reports r g) (h : ¬ r.isDone) :
    ¬ (r.edit g).isDone := by
  intro hdone
  refine h fun s hs => ?_
  have hdone := hdone _ (List.mem_map_of_mem hs)
  rcases hg.status s hs with heq | hstatus
  · rwa [heq] at hdone
  · rcases hdone with hskipped | ⟨hcompleted, hattached⟩
    · rw [hskipped] at hstatus
      simp at hstatus
    · rw [hg.attachedFlag s] at hattached
      rw [hg.attached s hs hattached] at hcompleted
      exact .inr ⟨hcompleted, hattached⟩

theorem Sound.not_cancelled (h : Sound w) (hopen : w.run.status.isCancelling = false) :
    .cancelled ∉ w.log := by
  intro hmem
  rw [h.cancelled hmem] at hopen
  cases hopen

theorem mem_note {log : List Event} {e : Event} (he : e ≠ .cancelled)
    (h : .cancelled ∈ log ++ [e]) : .cancelled ∈ log := by
  rcases List.mem_append.mp h with h | h
  · exact h
  · exact absurd (List.mem_singleton.mp h).symm he

/-- **The status of a run stays right where no call lapses.** -/
theorem Moves.sound (h : Sound w) (hmoves : Moves lapse w w') (hcareful : ¬ lapse) : Sound w' := by
  have hcoherent := hmoves.coherent h.coherent
  cases hmoves with
  | stay => exact h
  | queue s hs hqueued hopen =>
    refine ⟨hcoherent, fun hmem => ?_, iff_of_false (fun hstatus => by cases hstatus) ?_⟩
    · exact absurd (mem_note (by simp) hmem) (h.not_cancelled hopen)
    · refine CaptureRun.not_isDone (List.mem_map_of_mem hs) ?_
      rw [onSteps, if_pos (h.coherent.prepared s hs).own]
      exact CaptureStep.not_isDone_of_status (by simp [CaptureStep.withStatus])
  | attach names status hopen hsome hnodup hawaits hstatus =>
    refine ⟨hcoherent, fun hmem => ?_, ?_⟩
    · exact absurd (mem_note (by simp) hmem) (h.not_cancelled hopen)
    · rcases hstatus.resolve_left hcareful with ⟨hstatus, hdone⟩ | ⟨hstatus, hnot⟩
      · exact iff_of_true hstatus hdone
      · refine iff_of_false (fun hcompleted => ?_) hnot
        -- a run with an artifact to attach is not done
        obtain ⟨name, hname⟩ := List.exists_mem_of_ne_nil _ hsome
        obtain ⟨s, hs, -, hawaits⟩ := hawaits name hname
        obtain ⟨hstep, hunattached⟩ := CaptureStep.awaitsAttachment_iff.mp hawaits
        rcases h.completed.mp (hstatus.symm.trans hcompleted) s hs with hskipped | ⟨-, hattached⟩
        · rw [hstep] at hskipped
          cases hskipped
        · rw [hunattached] at hattached
          cases hattached
  | report g status hreports hcancelling hstatus =>
    have hkeeps := hcancelling.resolve_left hcareful
    refine ⟨hcoherent, fun hmem => hkeeps (h.cancelled hmem), ?_⟩
    rcases hstatus with hstatus | hstatus
    · have hnot : ¬ w.run.isDone :=
        fun hdone => ne_completed_of_cancelling hstatus (h.completed.mpr hdone)
      exact iff_of_false (ne_completed_of_cancelling (hkeeps hstatus)) (hreports.not_isDone hnot)
    · exact hstatus
  | retry s attempt plan hs hfailed hattempt hprepared honly hopen =>
    have hopen := hopen.resolve_left hcareful
    refine ⟨hcoherent, fun hmem => absurd hmem (h.not_cancelled hopen),
      iff_of_false (fun hstatus => by cases hstatus) ?_⟩
    refine CaptureRun.not_isDone (List.mem_map_of_mem hs) ?_
    rw [onStep, if_pos rfl]
    exact CaptureStep.not_isDone_of_status (by simp [CaptureStep.retriedWith])
  | cancel status hstatus hopen =>
    refine ⟨hcoherent, fun _ => hstatus, iff_of_false (ne_completed_of_cancelling hstatus) ?_⟩
    intro hdone
    refine hopen.resolve_left hcareful fun s hs => ?_
    have hdone := hdone _ (List.mem_map_of_mem hs)
    split_ifs at hdone with hqueued
    · exact absurd hdone (CaptureStep.not_isDone_of_status (by simp [CaptureStep.withStatus]))
    · exact hdone

/-- The call is not careless where the run makes it. -/
def Careful (w : World) (call : Call) : Prop := ¬ call.Careless w.run

instance : Decidable (Careful w call) := inferInstanceAs (Decidable (¬ _))

theorem sound_of_careful (hstart : Sound { run := start }) (hpast : past <+: calls)
    (hcareful : ∀ past call, past ++ [call] <+: calls → Careful (runAfter start past) call) : Sound (runAfter start past) :=
  Successive.after_invariant hstart
    (fun _ call h hallowed => (execute_moves h.coherent call).sound h hallowed)
    fun past call hcall => hcareful past call (hcall.trans hpast)

/-! ## What stays in every run -/

theorem coherent_execute (w : World) (call : Call) (h : Coherent w) : Coherent (w.execute call) :=
  (execute_moves h call).coherent h

/-- The steps with an artifact attached are as before. -/
def Frozen (w w' : World) : Prop :=
  ∀ operationId s, w.run.step? operationId = some s → s.artifactAttached = true →
    w'.run.step? operationId = some s

theorem frozen_edit {g : CaptureStep → CaptureStep} {log : List Event} {status : RunStatus}
    (hkeep : KeepsId g) (h : ∀ s ∈ w.run.steps, s.artifactAttached = true → g s = s) :
    Frozen w { run := (w.run.edit g).setStatus status, log } := by
  intro operationId s hs hattached
  show ((w.run.edit g).setStatus status).step? operationId = _
  rw [step?_setStatus, step?_edit hkeep, hs, Option.map_some, h s (mem_of_step? hs) hattached]

/-- **An attached step does not change in a move.** -/
theorem Moves.frozen (h : Coherent w) (hmoves : Moves lapse w w') : Frozen w w' := by
  cases hmoves with
  | stay => exact fun _ _ hs _ => hs
  | queue s hs hqueued =>
    refine frozen_edit (onSteps_keepsId fun _ => rfl) fun t ht hattached => if_neg fun hmem => ?_
    have hcompleted := h.attached t ht hattached
    rw [(h.queuedWith hs hqueued ht hmem).1] at hcompleted
    cases hcompleted
  | attach names status _ _ _ hawaits =>
    refine frozen_edit (onSteps_keepsId fun _ => rfl) fun t ht hattached => if_neg fun hmem => ?_
    obtain ⟨u, hu, hid, hawaits⟩ := hawaits _ hmem
    rw [h.unique hu ht hid, CaptureStep.awaitsAttachment_iff, hattached] at hawaits
    cases hawaits.2
  | report g status hreports => exact frozen_edit hreports.keepsId hreports.attached
  | retry s attempt plan hs hfailed =>
    have hkeep : KeepsId (onStep s.operationId (.retriedWith attempt plan)) :=
      KeepsId.onStep fun _ => rfl
    refine frozen_edit hkeep fun t ht hattached => if_neg fun hid => ?_
    rw [h.unique ht hs hid] at hattached
    exact h.not_attached hs (by rw [hfailed]; decide) hattached
  | cancel status =>
    refine frozen_edit (fun t => by split_ifs <;> rfl) fun t ht hattached => if_neg fun hqueued => ?_
    have hcompleted := h.attached t ht hattached
    rw [hqueued] at hcompleted
    cases hcompleted

theorem frozen_after (h : Coherent w) : Frozen w (Successive.after World.execute w calls) :=
  Successive.after_related (I := Coherent) (fun _ _ _ hs _ => hs)
    (fun _ _ _ hfirst hsecond operationId s hs hattached =>
      hsecond operationId s (hfirst operationId s hs hattached) hattached)
    h coherent_execute fun _ call h => (execute_moves h call).frozen h

/-- **The outcome of the plan of an earlier attempt does not change the step.** -/
theorem stale_outcome (h : Coherent w) (hprepared : Prepared s) (hid : s.operationId = operationId)
    (ht : w.run.step? operationId = some t) (hlater : s.attempt < t.attempt)
    (hmatch : matchesPreparedPlan s.plan plan = true) :
    (w.run.afterOutcome plan o c).step? operationId = some t := by
  have hnames := captureNames_of_matches hmatch
  -- the captures of the plan name an attempt, which is not the present one
  have hdiffers : matchesPreparedPlan t.plan plan ≠ true := by
    intro hmatch'
    obtain ⟨capture, hcapture, -⟩ := List.mem_map.mp hprepared.own
    have hcapture' : capture ∈ t.plan.captures := by
      unfold PlanV1.captures at hcapture ⊢
      rwa [← steps_of_matches hmatch', steps_of_matches hmatch]
    have hattempt := (h.prepared t (mem_of_step? ht)).attempts capture hcapture'
    rw [hprepared.attempts capture hcapture] at hattempt
    exact absurd (Option.some_injective _ hattempt) (Nat.ne_of_lt hlater)
  have hown : operationId ∈ plan.captures.map PlanStep.namedOperation := by
    rw [← hnames, ← hid]
    exact hprepared.own
  unfold CaptureRun.afterOutcome
  split_ifs
  swap
  · exact ht
  rcases hcaptures : plan.captures with _ | ⟨capture, _ | ⟨second, rest⟩⟩
  · exact ht
  · rw [hcaptures, List.map_singleton, List.mem_singleton] at hown
    subst hown
    dsimp only
    unfold CaptureRun.afterSingle
    rw [ht]
    dsimp only
    rw [if_neg fun hverified => hdiffers hverified.2.2]
    exact ht
  · dsimp only
    unfold CaptureRun.afterBatch
    split_ifs
    swap
    · exact ht
    cases hupdates : batchUpdates w.run plan o plan.captures with
    | error e => exact ht
    | ok updates =>
      obtain ⟨x, hx, hname⟩ := List.mem_map.mp hown
      obtain ⟨u, hu, hmatch', -⟩ := batchUpdates_covers hupdates hx
      rw [hname, ht] at hu
      cases hu
      exact absurd hmatch' hdiffers

/-! ## The promises -/

def World.sent (w : World) : List Event := w.log.filter (· ≠ .cancelled)

structure KeepsPromises (start : CaptureRun) (calls : List Call) : Prop where
  /-- A step whose artifact is attached never changes again … -/
  frozen : ∀ past more, past ++ more <+: calls →
    Frozen (runAfter start past) (runAfter start (past ++ more))
  /-- … and its artifact was attached once. -/
  once : ∀ past, past <+: calls → ∀ s ∈ (runAfter start past).run.steps,
    (runAfter start past).attachments.count s.operationId = if s.artifactAttached = true then 1 else 0
  /-- An outcome of an earlier attempt never changes a step that was retried. -/
  stale : ∀ past more, past ++ more <+: calls → ∀ operationId s t,
    (runAfter start past).run.step? operationId = some s →
    (runAfter start (past ++ more)).run.step? operationId = some t → s.attempt < t.attempt →
    ∀ plan o c, matchesPreparedPlan s.plan plan = true →
      ((runAfter start (past ++ more)).execute (.applyConnectorOutcome plan o c)).run.step? operationId
        = some t
  /-- After a cancel nothing is sent out, and the run is not running or completed again. -/
  cancelled : ∀ past more, past ++ more <+: calls → .cancelled ∈ (runAfter start past).log →
    (runAfter start (past ++ more)).sent = (runAfter start past).sent
      ∧ (runAfter start (past ++ more)).run.status ≠ .running
      ∧ (runAfter start (past ++ more)).run.status ≠ .completed
  /-- The run is completed exactly when every step is skipped or completed and attached. -/
  completed : ∀ past, past <+: calls →
    ((runAfter start past).run.status = .completed ↔ (runAfter start past).run.isDone)
  /-- An outcome applied twice is applied once. -/
  repeated : ∀ past, past <+: calls → ∀ plan o c,
    ((runAfter start past).execute (.applyConnectorOutcome plan o c)).execute
        (.applyConnectorOutcome plan o c)
      = (runAfter start past).execute (.applyConnectorOutcome plan o c)

theorem Moves.log_grows (hmoves : Moves lapse w w') {e : Event} (he : e ∈ w.log) : e ∈ w'.log := by
  cases hmoves with
  | stay => exact he
  | queue => exact List.mem_append_left _ he
  | attach => exact List.mem_append_left _ he
  | report => exact he
  | retry => exact he
  | cancel => exact List.mem_append_left _ he

theorem Moves.silent (hcancelled : w.run.status.isCancelling = true) (hmoves : Moves lapse w w')
    (hcareful : ¬ lapse) : w'.sent = w.sent := by
  have hclosed : w.run.status.isCancelling ≠ false := by
    rw [hcancelled]
    decide
  cases hmoves with
  | stay => rfl
  | queue _ _ _ hopen => exact absurd hopen hclosed
  | attach _ _ hopen => exact absurd hopen hclosed
  | report => rfl
  | retry _ _ _ _ _ _ _ _ hopen => exact absurd (hopen.resolve_left hcareful) hclosed
  | cancel => simp [World.sent]

theorem repeated_outcome (h : Coherent w) :
    (w.execute (.applyConnectorOutcome plan o c)).execute (.applyConnectorOutcome plan o c)
      = w.execute (.applyConnectorOutcome plan o c) := by
  have hfirst : w.execute (.applyConnectorOutcome plan o c)
      = { w with run := w.run.afterOutcome plan o c } :=
    applyConnectorOutcome_state fun s hs => (h.prepared s hs).renders
  have hcoherent := coherent_execute w (.applyConnectorOutcome plan o c) h
  rw [hfirst] at hcoherent ⊢
  refine (applyConnectorOutcome_state fun s hs => (hcoherent.prepared s hs).renders).trans ?_
  rw [afterOutcome_afterOutcome]

/-- **In a run without a careless call every promise is kept.** -/
theorem capture_promises_kept {contracts : Contracts} {manifest : Option Manifest} {materialized : Bool}
    {captureRunId deviceId : Str} {issuedAt : Int} {continuous : Bool}
    (hstart : startCapture contracts manifest materialized captureRunId deviceId issuedAt c continuous
      = .ok start)
    (hcareful : ∀ past call, past ++ [call] <+: calls → Careful (runAfter start past) call) : KeepsPromises start calls := by
  have hsound : ∀ past, past <+: calls → Sound (runAfter start past) := fun past hpast =>
    sound_of_careful (sound_start hstart) hpast hcareful
  have hafter : ∀ past more, runAfter start (past ++ more)
      = Successive.after World.execute (runAfter start past) more :=
    fun past more => Successive.after_append _ _ _ _
  have hpast : ∀ {past more : List Call}, past ++ more <+: calls → past <+: calls :=
    fun h => (List.prefix_append _ _).trans h
  refine ⟨fun past more h => ?_, fun past h => (hsound past h).coherent.once,
    fun past more h operationId s t hs ht hlater plan o c hmatch => ?_,
    fun past more h hcancelled => ?_, fun past h => (hsound past h).completed,
    fun past h plan o c => repeated_outcome (hsound past h).coherent⟩
  · rw [hafter]
    exact frozen_after (hsound past (hpast h)).coherent
  · have hcoherent := (hsound _ h).coherent
    have hprepared := (hsound past (hpast h)).coherent.prepared s (mem_of_step? hs)
    show (applyConnectorOutcome plan o c (runAfter start (past ++ more))).2.run.step? _ = _
    rw [applyConnectorOutcome_state fun s hs => (hcoherent.prepared s hs).renders]
    exact stale_outcome hcoherent hprepared (operationId_of_step? hs) ht hlater hmatch
  · have hlater : ∀ rest call, rest ++ [call] <+: more →
        Careful (Successive.after World.execute (runAfter start past) rest) call := by
      intro rest call hrest
      rw [← hafter]
      refine hcareful _ _ ?_
      rw [List.append_assoc]
      exact ((List.prefix_append_right_inj past).mpr hrest).trans h
    have hlast : Sound (runAfter start (past ++ more))
        ∧ .cancelled ∈ (runAfter start (past ++ more)).log
        ∧ (runAfter start (past ++ more)).sent = (runAfter start past).sent := by
      rw [hafter]
      refine Successive.after_invariant
        (I := fun w => Sound w ∧ .cancelled ∈ w.log ∧ w.sent = (runAfter start past).sent)
        ⟨hsound past (hpast h), hcancelled, rfl⟩ ?_ hlater
      rintro w call ⟨hw, hmem, hsent⟩ hcareful
      have hmoves := execute_moves hw.coherent call
      exact ⟨hmoves.sound hw hcareful, hmoves.log_grows hmem,
        (hmoves.silent (hw.cancelled hmem) hcareful).trans hsent⟩
    have hstatus := hlast.1.cancelled hlast.2.1
    refine ⟨hlast.2.2, fun hrunning => ?_, ne_completed_of_cancelling hstatus⟩
    rw [hrunning] at hstatus
    cases hstatus

/-! ## Runs -/

section

private def contracts : Contracts := ⟨"render".toList, fun _ => []⟩

private def operation (name : String) (sequence : Nat) : ManifestOperation :=
  { operationId := name.toList, sequence, productNodeKeys := ["node".toList]
    sceneHash := [], details := fun _ => [] }

private def manifest : Manifest :=
  { environmentId := "env".toList, environmentVersion := 1, manifestHash := "hash".toList
    bopVersionGid := "bop".toList, revision := 1
    operations := [operation "a" 1, operation "b" 2]
    connectorRequirement :=
      { adapterId := "vismockup".toList, adapterMajor := 1, targetProduct := ⟨[], [], []⟩
        operations := [(.sceneRender, "render".toList), (.sceneVerify, "verify".toList),
          (.viewCapture, "capture".toList)] } }

private def context : Context :=
  ⟨"user".toList, some "team".toList, "cv2_1".toList, "sha256:1".toList⟩

private def image (name : String) : ArtifactRef := ⟨name.toList, 1, [], "image/png".toList⟩

/-- Everything that is asked for is done. -/
private def ports (attached : List String) : Ports :=
  { manifest := some manifest, queuePlan := .ok (), attachScreenshot := .ok ()
    attachScreenshots := .ok (attached.map fun name =>
      ⟨some name.toList, some "bop".toList, some "run".toList, some (image name)⟩) }

private def dispatch (attached : List String) : Call :=
  .dispatchNext "run".toList "approval".toList (ports attached) context

private def retry (name : String) : Call :=
  .retryStep contracts "run".toList name.toList (some manifest) "retry".toList 0 context

private def planFor (names : List String) (planId : String) (attempt : Nat) : Option PlanV1 :=
  (buildCapturePlan contracts manifest (names.map String.toList)
    { planId := planId.toList, deviceId := [], tenantId := "team".toList, userId := "user".toList
      issuedAt := 0, captureRunId := "run".toList, attempt, continuous := 1 < names.length
      capabilityVersionGid := "cv2_1".toList, businessDefinitionHash := "sha256:1".toList }).toOption

/-- The outcome of a plan in which the steps for some operations were completed, the others not. -/
private def reported (names : List String) (planId : String) (attempt : Nat) (done : List String) :
    Option Call := do
  let plan ← planFor names planId attempt
  let status (s : PlanStep) : WireStatus :=
    if s.namedOperation ∈ done.map String.toList then .completed else .failed
  pure (.applyConnectorOutcome (.v1 plan)
    { planId := plan.planId, protocol := .v1
      status := if names.length = done.length then .completed else .failed
      steps := plan.steps.map fun s =>
        { stepId := s.stepId, status := status s
          artifact := .valid ⟨s.namedOperation, 1, [], "image/png".toList⟩ } } context)

private def started (continuous : Bool) : Except Error CaptureRun :=
  startCapture contracts (some manifest) true "run".toList [] 0 context continuous

private theorem started_eq_ok {continuous : Bool} (h : start ∈ (started continuous).toOption) :
    started continuous = .ok start := by
  cases hstarted : started continuous with
  | ok r =>
    rw [hstarted] at h
    cases h
    rfl
  | error e =>
    rw [hstarted] at h
    cases h

/-- A step fails, is retried and completed, and the run is cancelled before the other one starts. -/
private def retriedCalls : List Call :=
  [some (dispatch []), reported ["b"] "run" 1 [], some (retry "b"), some (dispatch []),
    reported ["b"] "retry" 2 ["b"], reported ["b"] "run" 1 ["b"], some (dispatch []),
    some (.cancel "run".toList context), some (dispatch [])].reduceOption

theorem capture_promises_kept_retried : ∃ start, started false = .ok start
    ∧ KeepsPromises start retriedCalls := by
  have hrun : ∃ start ∈ (started false).toOption, ∀ i (hi : i < retriedCalls.length),
      Careful (runAfter start (retriedCalls.take i)) retriedCalls[i] := by
    decide +kernel
  obtain ⟨start, hstart, hcareful⟩ := hrun
  have hstart := started_eq_ok hstart
  exact ⟨start, hstart, capture_promises_kept hstart (Successive.forall_prefix_iff.mpr hcareful)⟩

/-- One step of a batch is completed, the other one fails and is retried, and the batch attached. -/
private def partCalls : List Call :=
  [some (dispatch []), reported ["a", "b"] "run" 1 ["a"], some (retry "b"),
    some (dispatch ["a"])].reduceOption

/-- **The run is completed while a step of it is queued.** -/
theorem completed_while_queued : ∃ start, started true = .ok start
    ∧ ¬ KeepsPromises start partCalls := by
  have hrun : ∃ start ∈ (started true).toOption,
      (runAfter start partCalls).run.status = .completed
        ∧ (runAfter start partCalls).run.hasStatus .queued := by
    decide +kernel
  obtain ⟨start, hstart, hcompleted, s, hs, hqueued⟩ := hrun
  refine ⟨start, started_eq_ok hstart, fun hkeeps => ?_⟩
  have hdone := (hkeeps.completed partCalls (List.prefix_refl _)).mp hcompleted s hs
  exact s.not_isDone_of_status (by simp [hqueued]) hdone

end

end Ai00.Simulation
