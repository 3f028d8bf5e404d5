import Ai00.Connector.ServerTransactions

/-! # The lifecycle of plans on the server

Whatever the order of the transactions on a device, at most one plan is out (leased, executing or
of unknown outcome), each plan is leased at most once and to the session it was queued under, the
runtime generation never decreases, and a plan that has ended stays as it ended.

Two facts carry this. Every transaction but `lease_v2_plan` only moves plans towards their end
(`RowKept`): nothing becomes queued again and nothing becomes leased. And `lease_v2_plan` leases
one queued plan of the caller's session, after it has found no plan out.
-/

namespace Ai00.Connector

/-! ## What happens to a row -/

/-- A status stays, or a queued plan ends without a lease, or a plan that is out gets another
status that is not a new lease. -/
inductive StatusKept (s : PlanStatus) : PlanStatus → Prop where
  | same : StatusKept s s
  | dropped {t : PlanStatus} (queued : s = .queued) (settled : t.settled = true) : StatusKept s t
  | out {t : PlanStatus} (unresolved : s.unresolved = true)
      (ends : t.unresolved = true ∨ t.settled = true) (lease : t ≠ .leased) : StatusKept s t

variable {s : PlanStatus}

theorem settled_ne_queued (h : s.settled = true) : s ≠ .queued := by
  rintro rfl
  cases h

theorem settled_of_not_unresolved (h : s.settled = true) :
    s.unresolved = false := by
  cases s <;> first | rfl | cases h

theorem StatusKept.unresolved {s t : PlanStatus} (h : StatusKept s t)
    (ht : t.unresolved = true) : s.unresolved = true := by
  cases h with
  | same => exact ht
  | dropped _ hsettled =>
    rw [settled_of_not_unresolved hsettled] at ht
    cases ht
  | out hunresolved _ _ => exact hunresolved

theorem StatusKept.settled {s t : PlanStatus} (h : StatusKept s t) (hs : s.settled = true) :
    t = s := by
  cases h with
  | same => rfl
  | dropped hqueued _ => exact absurd hqueued (settled_ne_queued hs)
  | out hunresolved _ _ =>
    rw [settled_of_not_unresolved hs] at hunresolved
    cases hunresolved

theorem StatusKept.ne_queued {s t : PlanStatus} (h : StatusKept s t) (hs : s ≠ .queued) :
    t ≠ .queued := by
  cases h with
  | same => exact hs
  | dropped hqueued _ => exact absurd hqueued hs
  | out _ hends _ =>
    rintro rfl
    rcases hends with h | h <;> cases h

theorem StatusKept.trans {s t u : PlanStatus} (h : StatusKept s t) (h' : StatusKept t u) :
    StatusKept s u := by
  cases h' with
  | same => exact h
  | dropped hqueued hsettled =>
    cases h with
    | same => exact .dropped hqueued hsettled
    | dropped _ ht => exact absurd hqueued (settled_ne_queued ht)
    | out _ hends _ =>
      rw [hqueued] at hends
      rcases hends with h | h <;> cases h
  | out hunresolved hends hlease => exact .out (h.unresolved hunresolved) hends hlease

def RuntimePlan.result (p : RuntimePlan) : Option StoredOutcome × Option String :=
  (p.outcome, p.outcomeHash)

/-- A row keeps its plan and its session; with `Quiet`, its outcome too. -/
structure RowKept (Quiet : Prop) (p q : RuntimePlan) : Prop where
  planId : q.planId = p.planId
  session : q.session = p.session
  status : StatusKept p.status q.status
  outcome : Quiet → q.result = p.result

/-- The table after changes of its rows. -/
def PlansKept (Quiet : Prop) (plans kept : List RuntimePlan) : Prop :=
  ∃ f : RuntimePlan → RuntimePlan, kept = plans.map f ∧ ∀ p ∈ plans, RowKept Quiet p (f p)

section

variable {Quiet : Prop} {plans kept last : List RuntimePlan}

theorem RowKept.refl (p : RuntimePlan) : RowKept Quiet p p := ⟨rfl, rfl, .same, fun _ => rfl⟩

theorem PlansKept.refl (plans : List RuntimePlan) : PlansKept Quiet plans plans :=
  ⟨id, (List.map_id plans).symm, fun p _ => .refl p⟩

theorem PlansKept.trans (h : PlansKept Quiet plans kept) (h' : PlansKept Quiet kept last) :
    PlansKept Quiet plans last := by
  obtain ⟨f, rfl, hf⟩ := h
  obtain ⟨g, rfl, hg⟩ := h'
  refine ⟨g ∘ f, List.map_map, fun p hp => ?_⟩
  have first := hf p hp
  have second := hg (f p) (List.mem_map_of_mem hp)
  exact ⟨second.planId.trans first.planId, second.session.trans first.session,
    first.status.trans second.status, fun hq => (second.outcome hq).trans (first.outcome hq)⟩

theorem plansKept_update {selects : RuntimePlan → Bool} {change : RuntimePlan → RuntimePlan}
    (h : ∀ p ∈ plans, selects p = true → RowKept Quiet p (change p)) :
    PlansKept Quiet plans (Rows.update selects change plans) := by
  refine ⟨_, rfl, fun p hp => ?_⟩
  split_ifs with hselects
  · exact h p hp hselects
  · exact .refl p

theorem PlansKept.planIds (h : PlansKept Quiet plans kept) :
    kept.map RuntimePlan.planId = plans.map RuntimePlan.planId := by
  obtain ⟨f, rfl, hf⟩ := h
  rw [List.map_map]
  exact List.map_congr_left fun p hp => (hf p hp).planId

theorem PlansKept.out_le (h : PlansKept Quiet plans kept) :
    kept.countP (fun p => p.status.unresolved) ≤ plans.countP (fun p => p.status.unresolved) := by
  obtain ⟨f, rfl, hf⟩ := h
  rw [List.countP_map]
  exact List.countP_mono_left fun p hp hout => (hf p hp).status.unresolved hout

end

/-! ## What a call does -/

/-- What every call but a lease does: the generation does not decrease, rows are kept, and at
most one plan is queued, under the session of the device. With `Quiet` no outcome changes. -/
structure Effect (Quiet : Prop) (db next : ServerDb) : Prop where
  generation : db.device.generation ≤ next.device.generation
  plans : ∃ kept new, next.plans = kept ++ new ∧ PlansKept Quiet db.plans kept
    ∧ (new = [] ∨ ∃ p, new = [p] ∧ p.status = .queued ∧ p.result = (none, none)
      ∧ p.planId ∉ db.plans.map RuntimePlan.planId ∧ db.device.sessionKey = some p.session)
  outbox : Quiet → next.outbox = db.outbox

/-- What a lease does to the row of its plan. -/
structure RowLeased (l : PlanLease) (p q : RuntimePlan) : Prop where
  queued : p.status = .queued
  planId : p.planId = l.planId ∧ q.planId = p.planId
  session : p.session = l.session ∧ q.session = p.session
  leased : q.status = .leased
  outcome : q.result = p.result

/-- What `lease_v2_plan` does: overdue plans are swept, and then, when none is out, one queued
plan of the session is leased. -/
structure LeaseEffect (db next : ServerDb) (lease : Option PlanLease) : Prop where
  device : next.device = db.device
  outbox : next.outbox = db.outbox
  plans : ∃ swept, PlansKept True db.plans swept ∧
    (lease = none ∧ next.plans = swept
      ∨ ∃ l p q, lease = some l ∧ db.device.sessionKey = some l.session
        ∧ (∀ r ∈ swept, r.status.unresolved = false) ∧ p ∈ swept ∧ RowLeased l p q
        ∧ next.plans = swept.map (fun r => if r.planId = p.planId then q else r))

theorem unlessRaise_eq_ok_iff {p : Prop} [Decidable p] {code : String} : unlessRaise p code = .ok () ↔ p := by
  rw [unlessRaise]
  split_ifs with h
  · exact iff_of_true rfl h
  · exact iff_of_false (fun h => by cases h) h

theorem running_unresolved (h : (s == .leased || s == .executing) = true) :
    s.unresolved = true := by
  rw [Bool.or_eq_true, beq_iff_eq, beq_iff_eq] at h
  rcases h with rfl | rfl <;> rfl

variable {now : Ticks}

theorem reviewed_unresolved {plan : RuntimePlan}
    (h : plan.status = .outcomeUnknown ∨ plan.status = .manualReviewRequired
      ∨ plan.abandonedLease now = true) : plan.status.unresolved = true := by
  rcases h with h | h | h
  · rw [h]; rfl
  · rw [h]; rfl
  · rw [RuntimePlan.abandonedLease, Bool.and_eq_true] at h
    exact running_unresolved h.1

section

variable {env : ServerEnv} {db next : ServerDb} {device : RuntimeDevice}

theorem lockedRuntime_eq_ok (h : lockedRuntime db = .ok device) : device = db.device := by
  rw [lockedRuntime] at h
  split_ifs at h
  exact (Except.ok.inj h).symm

variable {instanceId token : String} {generation : Nat}

theorem authenticatedRuntime_eq_ok
    (h : authenticatedRuntime env db generation instanceId token now = .ok device) :
    device = db.device ∧ device.sessionKey = some ⟨generation, instanceId, env.sha256 token⟩ := by
  obtain ⟨locked, hlocked, h⟩ := bind_eq_ok.mp h
  obtain ⟨_, hsession, h⟩ := bind_eq_ok.mp h
  cases h
  obtain ⟨hgeneration, hkey, -⟩ := unlessRaise_eq_ok_iff.mp hsession
  refine ⟨lockedRuntime_eq_ok hlocked, ?_⟩
  rw [RuntimeDevice.sessionKey, hkey, hgeneration]
  rfl

theorem kept_retireRestartSafeReadPlans (now : Ticks) (processRestarted : Bool) :
    PlansKept True db.plans (retireRestartSafeReadPlans db now processRestarted).plans := by
  refine plansKept_update fun p _ hselects => ?_
  simp only [Bool.and_eq_true] at hselects
  exact ⟨rfl, rfl, .out hselects.1.1 (Or.inr rfl) nofun, fun _ => rfl⟩

theorem kept_retireQueuedPlans : PlansKept True db.plans (retireQueuedPlans db device).plans := by
  refine plansKept_update fun p _ hselects => ?_
  simp only [Bool.and_eq_true, beq_iff_eq] at hselects
  exact ⟨rfl, rfl, .dropped hselects.1.1.2 rfl, fun _ => rfl⟩

theorem Effect.of_kept {Quiet : Prop} (hgeneration : db.device.generation ≤ next.device.generation)
    (hplans : PlansKept Quiet db.plans next.plans) (houtbox : Quiet → next.outbox = db.outbox) :
    Effect Quiet db next :=
  ⟨hgeneration, ⟨next.plans, [], (List.append_nil _).symm, hplans, Or.inl rfl⟩, houtbox⟩

theorem installRuntimeSession_spec {now expiresAt : Ticks}
    (h : installRuntimeSession env db device generation instanceId now expiresAt token = .ok next) :
    next.device.generation = generation ∧ PlansKept True db.plans next.plans
      ∧ next.outbox = db.outbox := by
  obtain ⟨_, -, h⟩ := bind_eq_ok.mp h
  obtain ⟨_, -, h⟩ := bind_eq_ok.mp h
  cases h
  exact ⟨rfl, kept_retireQueuedPlans, rfl⟩

variable {legacy : Bool}

theorem register_effect {now expiresAt : Ticks}
    (h : registerRuntimeSession env db legacy generation instanceId now expiresAt token
      = .ok next) : Effect True db next := by
  obtain ⟨device, hdevice, h⟩ := bind_eq_ok.mp h
  obtain ⟨_, hgeneration, h⟩ := bind_eq_ok.mp h
  obtain ⟨_, -, h⟩ := bind_eq_ok.mp h
  obtain ⟨_, -, h⟩ := bind_eq_ok.mp h
  obtain ⟨_, -, h⟩ := bind_eq_ok.mp h
  obtain ⟨installed, hinstalled, h⟩ := bind_eq_ok.mp h
  cases h
  obtain ⟨hnew, hplans, houtbox⟩ := installRuntimeSession_spec hinstalled
  rw [unlessRaise_eq_ok_iff, lockedRuntime_eq_ok hdevice] at hgeneration
  refine .of_kept ?_ ((kept_retireRestartSafeReadPlans now false).trans hplans) fun _ => houtbox
  show _ ≤ installed.device.generation
  omega

theorem restart_effect {priorInstance priorToken instanceId token : String} {now expiresAt : Ticks}
    (h : restartRuntimeSession env db legacy generation priorInstance priorToken instanceId now
      expiresAt token = .ok next) : Effect True db next := by
  obtain ⟨device, hdevice, h⟩ := bind_eq_ok.mp h
  obtain ⟨_, -, h⟩ := bind_eq_ok.mp h
  obtain ⟨rfl, hsession⟩ := authenticatedRuntime_eq_ok hdevice
  obtain ⟨hnew, hplans, houtbox⟩ := installRuntimeSession_spec h
  obtain ⟨session, -, hkey⟩ := Option.map_eq_some_iff.mp hsession
  have hgeneration : db.device.generation = generation := congrArg SessionKey.generation hkey
  refine .of_kept ?_ ((kept_retireRestartSafeReadPlans now true).trans hplans) fun _ => houtbox
  omega

theorem renew_effect {now expiresAt : Ticks}
    (h : renewRuntime env db generation instanceId token now expiresAt = .ok next) :
    Effect True db next := by
  obtain ⟨device, hdevice, h⟩ := bind_eq_ok.mp h
  obtain ⟨_, -, h⟩ := bind_eq_ok.mp h
  cases h
  obtain ⟨rfl, -⟩ := authenticatedRuntime_eq_ok hdevice
  exact .of_kept (le_refl _) (.refl _) fun _ => rfl

theorem takeover_effect {expectedGeneration newGeneration : Nat}
    {expected : Option (String × String)} {instanceId actorId reason token : String}
    {requireRegistration : Bool} {now expiresAt : Ticks}
    (h : forceTakeover env db legacy expectedGeneration newGeneration expected instanceId actorId
      reason requireRegistration now expiresAt token = .ok next) : Effect True db next := by
  obtain ⟨_, -, h⟩ := bind_eq_ok.mp h
  obtain ⟨device, hdevice, h⟩ := bind_eq_ok.mp h
  obtain ⟨_, hgeneration, h⟩ := bind_eq_ok.mp h
  obtain ⟨_, -, h⟩ := bind_eq_ok.mp h
  obtain ⟨_, -, h⟩ := bind_eq_ok.mp h
  obtain ⟨installed, hinstalled, h⟩ := bind_eq_ok.mp h
  obtain ⟨hnew, hplans, houtbox⟩ := installRuntimeSession_spec hinstalled
  rw [unlessRaise_eq_ok_iff, lockedRuntime_eq_ok hdevice] at hgeneration
  have hle : db.device.generation ≤ installed.device.generation := by omega
  split_ifs at h
  all_goals
    cases h
    exact .of_kept hle hplans fun _ => houtbox

theorem registerReconciliation_effect {recoveryInstanceId planId tokenHash : String} {now expiresAt : Ticks}
    (h : registerReconciliationSession db generation recoveryInstanceId planId tokenHash now
      expiresAt = .ok next) : Effect True db next := by
  obtain ⟨_, -, h⟩ := bind_eq_ok.mp h
  obtain ⟨_, -, h⟩ := bind_eq_ok.mp h
  obtain ⟨_, -, h⟩ := bind_eq_ok.mp h
  obtain ⟨device, -, h⟩ := bind_eq_ok.mp h
  obtain ⟨_, -, h⟩ := bind_eq_ok.mp h
  obtain ⟨_, -, h⟩ := bind_eq_ok.mp h
  obtain ⟨_, -, h⟩ := bind_eq_ok.mp h
  obtain ⟨_, -, h⟩ := bind_eq_ok.mp h
  split at h
  · cases h
  · cases h
    refine .of_kept (le_refl _) (plansKept_update fun p _ hselects => ?_) fun _ => rfl
    simp only [Bool.and_eq_true] at hselects
    exact ⟨rfl, rfl, .out (running_unresolved hselects.1.2) (Or.inl rfl) nofun, fun _ => rfl⟩

theorem open_kept (h : s.open = true) : StatusKept s .failedWithoutEffect := by
  rw [PlanStatus.open, Bool.or_eq_true, beq_iff_eq] at h
  rcases h with h | h
  · exact .dropped h rfl
  · exact .out h (Or.inr rfl) (by decide)

theorem insert_effect {plan : PlanDocument} {takenElsewhere : Bool}
    {sessionToken expectedTokenHash : Option String}
    (h : insertV2Plan env db plan takenElsewhere sessionToken expectedTokenHash now = .ok next) :
    Effect True db next := by
  obtain ⟨_, -, h⟩ := bind_eq_ok.mp h
  obtain ⟨device, hdevice, h⟩ := bind_eq_ok.mp h
  obtain rfl := lockedRuntime_eq_ok hdevice
  obtain ⟨_, -, h⟩ := bind_eq_ok.mp h
  split at h
  · cases h
  · rename_i session hsession
    simp only [bind_eq_ok] at h
    obtain ⟨_, -, _, -, _, -, h⟩ := h
    split at h
    · simp only [bind_eq_ok] at h
      obtain ⟨_, -, _, -, _, -, h⟩ := h
      cases h
      exact .of_kept (le_refl _) (.refl _) fun _ => rfl
    · rename_i hnew
      obtain ⟨_, -, h⟩ := bind_eq_ok.mp h
      obtain ⟨retired, -, h⟩ := bind_eq_ok.mp h
      cases h
      refine ⟨le_refl _, ⟨_, _, rfl, plansKept_update fun p _ hselects => ?_,
        Or.inr ⟨_, rfl, rfl, rfl, ?_, hsession⟩⟩, fun _ => rfl⟩
      · rw [Bool.and_eq_true] at hselects
        exact ⟨rfl, rfl, open_kept hselects.2, fun _ => rfl⟩
      · intro hmem
        obtain ⟨p, hp, hid⟩ := List.mem_map.mp hmem
        have := List.find?_eq_none.mp hnew p hp
        simp [hid] at this

theorem eq_of_planId_eq {plans : List RuntimePlan} (hids : (plans.map RuntimePlan.planId).Nodup)
    {p q : RuntimePlan} (hp : p ∈ plans) (hq : q ∈ plans) (h : p.planId = q.planId) : p = q :=
  List.inj_on_of_nodup_map hids hp hq h

variable {submission : Submission}

theorem admitsOutcome_unresolved {plan : RuntimePlan}
    (h : admitsOutcome plan now submission = .ok ()) : plan.status.unresolved = true := by
  have of_running : plan.status = .leased ∨ plan.status = .executing →
      plan.status.unresolved = true := fun h => running_unresolved (by simpa using h)
  unfold admitsOutcome at h
  dsimp only at h
  split_ifs at h with hevidence
  · rcases unlessRaise_eq_ok_iff.mp h with h | h | h
    · rw [h]; rfl
    · rw [h]; rfl
    · exact of_running h.1
  · obtain ⟨_, -, h⟩ := bind_eq_ok.mp h
    exact of_running (unlessRaise_eq_ok_iff.mp h).1

theorem planStatus_ends (s : StepStatus) :
    (s.planStatus.unresolved = true ∨ s.planStatus.settled = true) ∧ s.planStatus ≠ .leased := by
  cases s <;> decide

theorem writingSession_device {recovery : Option RecoveryRow}
    (h : writingSession env db generation instanceId token now submission
      = .ok (device, recovery)) : device = db.device := by
  obtain ⟨locked, hlocked, h⟩ := bind_eq_ok.mp h
  split_ifs at h
  · obtain ⟨_, -, h⟩ := bind_eq_ok.mp h
    cases h
    exact lockedRuntime_eq_ok hlocked
  · obtain ⟨authenticated, hauthenticated, h⟩ := bind_eq_ok.mp h
    cases h
    exact (authenticatedRuntime_eq_ok hauthenticated).1

/-- **What a write does.** It repeats an earlier one, or it gives one plan that was out its
outcome, together with the intent to project it. -/
theorem write_spec (h : writeV2Outcome env db generation instanceId token now submission = .ok next) :
    next = db ∨ ∃ current ∈ db.plans, current.status.unresolved = true ∧
      ∃ (stored : StoredOutcome) (reconciledAt : Option Ticks),
        projectionIntent db.outbox current.document current.planId
          (env.sha256 (env.encode stored)) now = .ok next.outbox
        ∧ next.device.generation = db.device.generation
        ∧ next.plans = Rows.update (fun p => p.planId == current.planId)
          (fun p => { p with
            status := stored.overallStatus.planStatus, outcome := some stored
            outcomeHash := some (env.sha256 (env.encode stored))
            reconciledAt := reconciledAt }) db.plans := by
  obtain ⟨_, -, h⟩ := bind_eq_ok.mp h
  obtain ⟨⟨device, recovery⟩, hsession, h⟩ := bind_eq_ok.mp h
  obtain rfl := writingSession_device hsession
  obtain ⟨_, -, h⟩ := bind_eq_ok.mp h
  split at h
  · cases h
  · rename_i current hcurrent
    obtain ⟨_, -, h⟩ := bind_eq_ok.mp h
    obtain ⟨_, -, h⟩ := bind_eq_ok.mp h
    obtain ⟨_, -, h⟩ := bind_eq_ok.mp h
    obtain ⟨stored, -, h⟩ := bind_eq_ok.mp h
    dsimp only at h
    split at h
    · cases h
      exact Or.inl rfl
    · simp only [bind_eq_ok] at h
      obtain ⟨_, -, _, hadmits, outbox, hintent, h⟩ := h
      cases h
      exact Or.inr ⟨current, List.mem_of_find?_eq_some hcurrent, admitsOutcome_unresolved hadmits,
        stored, _, hintent, rfl, rfl⟩

theorem write_effect (hids : (db.plans.map RuntimePlan.planId).Nodup)
    (h : writeV2Outcome env db generation instanceId token now submission = .ok next) :
    Effect False db next := by
  rcases write_spec h with rfl | ⟨current, hcurrent, hout, stored, reconciledAt, -, hgeneration, hplans⟩
  · exact .of_kept (le_refl _) (.refl _) False.elim
  · refine .of_kept hgeneration.ge ?_ False.elim
    rw [hplans]
    refine plansKept_update fun p hp hselects => ?_
    rw [beq_iff_eq] at hselects
    obtain rfl := eq_of_planId_eq hids hp hcurrent hselects
    obtain ⟨hends, hlease⟩ := planStatus_ends stored.overallStatus
    exact ⟨rfl, rfl, .out hout hends hlease, False.elim⟩

theorem acknowledge_effect {o : Outcome}
    (h : acknowledgeV2Outcome env db generation instanceId token now o = .ok next) :
    Effect True db next := by
  obtain ⟨_, -, h⟩ := bind_eq_ok.mp h
  obtain ⟨_, -, h⟩ := bind_eq_ok.mp h
  obtain ⟨_, -, h⟩ := bind_eq_ok.mp h
  split at h
  · cases h
  · obtain ⟨_, -, h⟩ := bind_eq_ok.mp h
    obtain ⟨_, -, h⟩ := bind_eq_ok.mp h
    cases h
    exact .of_kept (le_refl _) (.refl _) fun _ => rfl

theorem resolve_effect (hids : (db.plans.map RuntimePlan.planId).Nodup) {request : Disposition}
    {actorId tenantId : String}
    (h : resolveManualRecovery env db request actorId tenantId now = .ok next) :
    Effect True db next := by
  obtain ⟨_, -, h⟩ := bind_eq_ok.mp h
  obtain ⟨_, -, h⟩ := bind_eq_ok.mp h
  obtain ⟨_, -, h⟩ := bind_eq_ok.mp h
  split at h
  · cases h
  · rename_i plan hplan
    simp only [bind_eq_ok] at h
    obtain ⟨_, -, _, -, _, -, _, -, h⟩ := h
    split at h
    · obtain ⟨_, -, h⟩ := bind_eq_ok.mp h
      cases h
      exact .of_kept (le_refl _) (.refl _) fun _ => rfl
    · simp only [bind_eq_ok] at h
      obtain ⟨_, hstatus, _, -, _, -, h⟩ := h
      cases h
      refine .of_kept (le_refl _) (plansKept_update fun p hp hselects => ?_) fun _ => rfl
      have hfound := List.find?_some hplan
      rw [beq_iff_eq] at hselects hfound
      obtain rfl := eq_of_planId_eq hids hp (List.mem_of_find?_eq_some hplan)
        (hselects.trans hfound.symm)
      have hout := reviewed_unresolved (unlessRaise_eq_ok_iff.mp hstatus)
      exact ⟨rfl, rfl, .out hout (Or.inr rfl) nofun, fun _ => rfl⟩

theorem kept_sweepOverdue (now : Ticks) : PlansKept True db.plans (sweepOverdue db device now).plans := by
  refine PlansKept.trans (plansKept_update fun p _ hselects => ?_)
    (plansKept_update fun p _ hselects => ?_)
  · simp only [Bool.and_eq_true] at hselects
    exact ⟨rfl, rfl, .out (running_unresolved hselects.1.2) (Or.inl rfl) nofun, fun _ => rfl⟩
  · simp only [Bool.and_eq_true, beq_iff_eq] at hselects
    exact ⟨rfl, rfl, .dropped hselects.1.2 rfl, fun _ => rfl⟩

theorem not_hasUnresolvedPlans (h : ¬ hasUnresolvedPlans db legacy = true) :
    ∀ p ∈ db.plans, p.status.unresolved = false := by
  rw [hasUnresolvedPlans, Bool.or_eq_true, not_or, List.any_eq_true] at h
  intro p hp
  rw [← Bool.not_eq_true]
  exact fun hout => h.1 ⟨p, hp, hout⟩

/-- **What a lease does.** -/
theorem lease_effect (hids : (db.plans.map RuntimePlan.planId).Nodup) {leaseSeconds : Int}
    {leaseId : String} {lease : Option PlanLease}
    (h : leaseV2Plan env db legacy generation instanceId token now leaseSeconds leaseId
      = .ok (next, lease)) : LeaseEffect db next lease := by
  obtain ⟨device, hdevice, h⟩ := bind_eq_ok.mp h
  obtain ⟨rfl, hsession⟩ := authenticatedRuntime_eq_ok hdevice
  have hswept : PlansKept True db.plans (sweepOverdue db db.device now).plans :=
    kept_sweepOverdue now
  dsimp only at h
  split at h
  · cases h
    exact ⟨rfl, rfl, _, hswept, Or.inl ⟨rfl, rfl⟩⟩
  · rename_i hnone
    split at h
    · cases h
      exact ⟨rfl, rfl, _, hswept, Or.inl ⟨rfl, rfl⟩⟩
    · rename_i current hcurrent
      obtain ⟨_, -, h⟩ := bind_eq_ok.mp h
      cases h
      have hmem := (List.perm_insertionSort leasedBefore _).mem_iff.mp
        (List.mem_of_mem_head? hcurrent)
      obtain ⟨hin, hcandidate⟩ := List.mem_filter.mp hmem
      simp only [Bool.and_eq_true, beq_iff_eq] at hcandidate
      obtain ⟨⟨howns, hqueued⟩, -⟩ := hcandidate
      have howned := howns
      rw [RuntimeDevice.owns, hsession, beq_iff_eq] at howned
      let leaseUntil := min (now + max 1 (min leaseSeconds maxPlanLeaseSeconds) * 10000000)
        (min (db.device.sessionExpiresAt.getD now) current.expiresAt)
      refine ⟨rfl, rfl, _, hswept, Or.inr ⟨_, current, { current with
          status := .leased, leaseId := some leaseId, leaseUntil := some leaseUntil
          attempts := current.attempts + 1 },
        rfl, hsession, not_hasUnresolvedPlans hnone, hin,
        ⟨hqueued, ⟨rfl, rfl⟩, ⟨(Option.some.inj howned).symm, rfl⟩, rfl, rfl⟩, ?_⟩⟩
      refine List.map_congr_left fun r hr => ?_
      by_cases hid : r.planId = current.planId
      · obtain rfl := eq_of_planId_eq (hswept.planIds.symm ▸ hids) hr hin hid
        rw [if_pos rfl, if_pos (by simp [howns, hqueued])]
      · rw [if_neg hid, if_neg (by simp [hid])]

end

/-! ## Runs -/

/-- What holds of the rows after any run, with the leases given so far. -/
structure Lifecycle (db : ServerDb) (log : List PlanLease) : Prop where
  ids : (db.plans.map RuntimePlan.planId).Nodup
  exclusive : db.plans.countP (fun p => p.status.unresolved) ≤ 1
  once : (log.map PlanLease.planId).Nodup
  leased : ∀ l ∈ log, ∃ p ∈ db.plans, p.planId = l.planId ∧ p.session = l.session
    ∧ p.status ≠ .queued

/-- What any calls make of the rows that are there: each keeps its plan and its session, and ends
once. -/
structure Onward (db next : ServerDb) : Prop where
  generation : db.device.generation ≤ next.device.generation
  kept : ∀ p ∈ db.plans, ∃ q ∈ next.plans, q.planId = p.planId ∧ q.session = p.session
    ∧ (p.status.settled = true → q.status = p.status)

section

variable {db next : ServerDb} {log : List PlanLease}

theorem PlansKept.lifecycle {Quiet : Prop} {kept : List RuntimePlan}
    (h : PlansKept Quiet db.plans kept) (hdb : Lifecycle db log) :
    Lifecycle { db with plans := kept } log := by
  refine ⟨h.planIds.symm ▸ hdb.ids, h.out_le.trans hdb.exclusive, hdb.once, fun l hl => ?_⟩
  obtain ⟨p, hp, hid, hsession, hstatus⟩ := hdb.leased l hl
  obtain ⟨f, rfl, hf⟩ := h
  have hrow := hf p hp
  exact ⟨f p, List.mem_map_of_mem hp, hrow.planId.trans hid, hrow.session.trans hsession,
    hrow.status.ne_queued hstatus⟩

theorem Effect.lifecycle {Quiet : Prop} (h : Effect Quiet db next) (hdb : Lifecycle db log) :
    Lifecycle next log := by
  obtain ⟨kept, new, hplans, hkept, hnew⟩ := h.plans
  have hold := hkept.lifecycle hdb
  rcases hnew with rfl | ⟨p, rfl, hqueued, -, hfresh, -⟩
  · rw [List.append_nil] at hplans
    exact ⟨hplans ▸ hold.ids, hplans ▸ hold.exclusive, hold.once, hplans ▸ hold.leased⟩
  · rw [← hkept.planIds] at hfresh
    refine ⟨?_, ?_, hold.once, fun l hl => ?_⟩
    · rw [hplans]
      exact Rows.nodup_map_concat hold.ids hfresh
    · rw [hplans, List.countP_append]
      have hone : [p].countP (fun p => p.status.unresolved) = 0 := by
        simp [hqueued, PlanStatus.unresolved]
      rw [hone]
      exact hold.exclusive
    · obtain ⟨q, hq, hrow⟩ := hold.leased l hl
      exact ⟨q, by rw [hplans]; exact List.mem_append_left _ hq, hrow⟩

theorem PlansKept.onward {Quiet : Prop} {plans kept : List RuntimePlan}
    (h : PlansKept Quiet plans kept) {p : RuntimePlan} (hp : p ∈ plans) :
    ∃ q ∈ kept, q.planId = p.planId ∧ q.session = p.session
      ∧ StatusKept p.status q.status := by
  obtain ⟨f, rfl, hf⟩ := h
  have hrow := hf p hp
  exact ⟨f p, List.mem_map_of_mem hp, hrow.planId, hrow.session, hrow.status⟩

theorem LeaseEffect.lifecycle {lease : Option PlanLease} (h : LeaseEffect db next lease)
    (hdb : Lifecycle db log) : Lifecycle next (log ++ lease.toList) := by
  obtain ⟨swept, hswept, ⟨rfl, hplans⟩ | ⟨l, p, q, rfl, -, hnone, hp, hrow, hplans⟩⟩ := h.plans
  · have hold := hswept.lifecycle hdb
    rw [Option.toList_none, List.append_nil]
    exact ⟨hplans ▸ hold.ids, hplans ▸ hold.exclusive, hold.once, hplans ▸ hold.leased⟩
  · have hold := hswept.lifecycle hdb
    -- the rows of the plans leased before are not the row of this one
    have hother : ∀ r ∈ swept, r.status ≠ .queued → r.planId ≠ p.planId := by
      intro r hr hstatus hid
      obtain rfl := eq_of_planId_eq hold.ids hr hp hid
      exact hstatus hrow.queued
    have hfresh : l.planId ∉ log.map PlanLease.planId := by
      intro hmem
      obtain ⟨prior, hprior, hid⟩ := List.mem_map.mp hmem
      obtain ⟨r, hr, hrid, -, hstatus⟩ := hold.leased prior hprior
      exact hother r hr hstatus (hrid.trans (hid.trans hrow.planId.1.symm))
    refine ⟨?_, ?_, ?_, ?_⟩
    · have hids : next.plans.map RuntimePlan.planId = swept.map RuntimePlan.planId := by
        rw [hplans, List.map_map]
        refine List.map_congr_left fun r _ => ?_
        by_cases hid : r.planId = p.planId
        · simp only [Function.comp_apply, if_pos hid]
          exact hrow.planId.2.trans hid.symm
        · simp only [Function.comp_apply, if_neg hid]
      exact hids ▸ hold.ids
    · have hcount : next.plans.countP (fun r => r.status.unresolved)
          ≤ (swept.map RuntimePlan.planId).count p.planId := by
        rw [hplans, List.countP_map, List.count, List.countP_map]
        refine List.countP_mono_left fun r hr hout => ?_
        by_cases hid : r.planId = p.planId
        · simp [hid]
        · simp only [Function.comp_apply, if_neg hid, hnone r hr] at hout
          cases hout
      exact hcount.trans (List.nodup_iff_count_le_one.mp hold.ids _)
    · rw [Option.toList_some]
      exact Rows.nodup_map_concat hold.once hfresh
    · intro l' hl'
      rw [hplans]
      rcases List.mem_append.mp hl' with hl' | hl'
      · obtain ⟨r, hr, hrid, hsession, hstatus⟩ := hold.leased l' hl'
        refine ⟨r, List.mem_map.mpr ⟨r, hr, if_neg (hother r hr hstatus)⟩, hrid, hsession, hstatus⟩
      · rw [Option.toList_some, List.mem_singleton] at hl'
        subst hl'
        refine ⟨q, List.mem_map.mpr ⟨p, hp, if_pos rfl⟩, hrow.planId.2.trans hrow.planId.1,
          hrow.session.2.trans hrow.session.1, ?_⟩
        rw [hrow.leased]
        decide

theorem Effect.onward {Quiet : Prop} (h : Effect Quiet db next) : Onward db next := by
  obtain ⟨kept, new, hplans, hkept, -⟩ := h.plans
  refine ⟨h.generation, fun p hp => ?_⟩
  obtain ⟨q, hq, hid, hsession, hstatus⟩ := hkept.onward hp
  exact ⟨q, by rw [hplans]; exact List.mem_append_left _ hq, hid, hsession, hstatus.settled⟩

theorem LeaseEffect.onward {lease : Option PlanLease} (h : LeaseEffect db next lease)
    (hids : (db.plans.map RuntimePlan.planId).Nodup) : Onward db next := by
  refine ⟨h.device ▸ le_refl _, fun r hr => ?_⟩
  obtain ⟨swept, hswept, ⟨-, hplans⟩ | ⟨l, p, q, -, -, -, hp, hrow, hplans⟩⟩ := h.plans
  · obtain ⟨r', hr', hid, hsession, hstatus⟩ := hswept.onward hr
    exact ⟨r', hplans ▸ hr', hid, hsession, hstatus.settled⟩
  · obtain ⟨r', hr', hid, hsession, hstatus⟩ := hswept.onward hr
    rw [hplans]
    by_cases hleased : r'.planId = p.planId
    · obtain rfl := eq_of_planId_eq (hswept.planIds.symm ▸ hids) hr' hp hleased
      refine ⟨q, List.mem_map.mpr ⟨r', hr', if_pos rfl⟩, hrow.planId.2.trans hid,
        hrow.session.2.trans hsession, fun hsettled => ?_⟩
      have hkept := hstatus.settled hsettled
      rw [hrow.queued] at hkept
      exact absurd hkept.symm (settled_ne_queued hsettled)
    · exact ⟨r', List.mem_map.mpr ⟨r', hr', if_neg hleased⟩, hid, hsession, hstatus.settled⟩

theorem Onward.refl (db : ServerDb) : Onward db db :=
  ⟨le_refl _, fun p hp => ⟨p, hp, rfl, rfl, fun _ => rfl⟩⟩

theorem Onward.trans {last : ServerDb} (h : Onward db next) (h' : Onward next last) :
    Onward db last := by
  refine ⟨h.generation.trans h'.generation, fun p hp => ?_⟩
  obtain ⟨q, hq, hid, hsession, hstatus⟩ := h.kept p hp
  obtain ⟨r, hr, hid', hsession', hstatus'⟩ := h'.kept q hq
  refine ⟨r, hr, hid'.trans hid, hsession'.trans hsession, fun hsettled => ?_⟩
  have hq := hstatus hsettled
  exact (hstatus' (hq ▸ hsettled)).trans hq

end

/-- The call may change an outcome. -/
def ServerCall.isWrite : ServerCall → Bool
  | .write .. => true
  | _ => false

theorem Effect.mono {P Q : Prop} {db next : ServerDb} (h : Effect P db next) (hQ : Q → P) :
    Effect Q db next := by
  obtain ⟨kept, new, hplans, ⟨f, rfl, hf⟩, hnew⟩ := h.plans
  refine ⟨h.generation, ⟨_, new, hplans, ⟨f, rfl, fun p hp => ?_⟩, hnew⟩, h.outbox ∘ hQ⟩
  have hrow := hf p hp
  exact ⟨hrow.planId, hrow.session, hrow.status, hrow.outcome ∘ hQ⟩

section

variable {env : ServerEnv} {db next : ServerDb} {lease : Option PlanLease}

theorem map_none_eq_ok {x : Except String ServerDb}
    (h : x.map (·, (none : Option PlanLease)) = .ok (next, lease)) : x = .ok next ∧ lease = none := by
  cases x with
  | ok value =>
    cases h
    exact ⟨rfl, rfl⟩
  | error e => cases h

/-- **What any call does.** -/
theorem run_effect (hids : (db.plans.map RuntimePlan.planId).Nodup) {call : ServerCall}
    (h : call.run env db = .ok (next, lease)) :
    (lease = none ∧ Effect (call.isWrite = false) db next) ∨ LeaseEffect db next lease := by
  have quiet : Effect True db next → Effect (call.isWrite = false) db next :=
    fun heffect => heffect.mono fun _ => trivial
  cases call with
  | lease => exact Or.inr (lease_effect hids h)
  | register =>
    obtain ⟨hcall, rfl⟩ := map_none_eq_ok h
    exact Or.inl ⟨rfl, quiet (register_effect hcall)⟩
  | restart =>
    obtain ⟨hcall, rfl⟩ := map_none_eq_ok h
    exact Or.inl ⟨rfl, quiet (restart_effect hcall)⟩
  | renew =>
    obtain ⟨hcall, rfl⟩ := map_none_eq_ok h
    exact Or.inl ⟨rfl, quiet (renew_effect hcall)⟩
  | takeover =>
    obtain ⟨hcall, rfl⟩ := map_none_eq_ok h
    exact Or.inl ⟨rfl, quiet (takeover_effect hcall)⟩
  | registerReconciliation =>
    obtain ⟨hcall, rfl⟩ := map_none_eq_ok h
    exact Or.inl ⟨rfl, quiet (registerReconciliation_effect hcall)⟩
  | insert =>
    obtain ⟨hcall, rfl⟩ := map_none_eq_ok h
    exact Or.inl ⟨rfl, quiet (insert_effect hcall)⟩
  | acknowledge =>
    obtain ⟨hcall, rfl⟩ := map_none_eq_ok h
    exact Or.inl ⟨rfl, quiet (acknowledge_effect hcall)⟩
  | resolve =>
    obtain ⟨hcall, rfl⟩ := map_none_eq_ok h
    exact Or.inl ⟨rfl, quiet (resolve_effect hids hcall)⟩
  | write =>
    obtain ⟨hcall, rfl⟩ := map_none_eq_ok h
    exact Or.inl ⟨rfl, (write_effect hids hcall).mono nofun⟩

theorem Effect.refl {Quiet : Prop} (db : ServerDb) : Effect Quiet db db :=
  .of_kept (le_refl _) (.refl _) fun _ => rfl

theorem after_effect (hids : (db.plans.map RuntimePlan.planId).Nodup) (call : ServerCall) :
    ((db.after env call).2 = none ∧ Effect (call.isWrite = false) db (db.after env call).1)
      ∨ LeaseEffect db (db.after env call).1 (db.after env call).2 := by
  rcases h : call.run env db with e | ⟨next, lease⟩
  · rw [ServerDb.after, h]
    exact Or.inl ⟨rfl, .refl db⟩
  · rw [ServerDb.after, h]
    exact run_effect hids h

/-- Calls one after another, with the leases they give. -/
def serverRun (env : ServerEnv) : ServerDb → List ServerCall → ServerDb × List PlanLease
  | db, [] => (db, [])
  | db, call :: calls =>
    let (next, lease) := db.after env call
    let (last, leases) := serverRun env next calls
    (last, lease.toList ++ leases)

theorem after_lifecycle {log : List PlanLease} (h : Lifecycle db log) (call : ServerCall) :
    Lifecycle (db.after env call).1 (log ++ (db.after env call).2.toList) ∧ Onward db (db.after env call).1 := by
  rcases after_effect h.ids call with ⟨hlease, heffect⟩ | heffect
  · rw [hlease, Option.toList_none, List.append_nil]
    exact ⟨heffect.lifecycle h, heffect.onward⟩
  · exact ⟨heffect.lifecycle h, heffect.onward h.ids⟩

theorem serverRun_lifecycle {log : List PlanLease} (h : Lifecycle db log)
    (calls : List ServerCall) :
    Lifecycle (serverRun env db calls).1 (log ++ (serverRun env db calls).2)
      ∧ Onward db (serverRun env db calls).1 := by
  induction calls generalizing db log with
  | nil =>
    rw [serverRun, List.append_nil]
    exact ⟨h, .refl db⟩
  | cons call calls ih =>
    obtain ⟨hstep, honward⟩ : Lifecycle (db.after env call).1 _ ∧ _ := after_lifecycle h call
    obtain ⟨hrest, honward'⟩ := ih hstep
    rw [List.append_assoc] at hrest
    exact ⟨hrest, honward.trans honward'⟩

/-- A row is new only by a call that queues it under the session of the device. -/
def QueuedUnderSession (db next : ServerDb) : Prop :=
  ∀ q ∈ next.plans, (∃ p ∈ db.plans, q.planId = p.planId ∧ q.session = p.session)
    ∨ (q.status = .queued ∧ db.device.sessionKey = some q.session)

theorem PlansKept.origin {Quiet : Prop} {plans kept : List RuntimePlan}
    (h : PlansKept Quiet plans kept) {q : RuntimePlan} (hq : q ∈ kept) :
    ∃ p ∈ plans, q.planId = p.planId ∧ q.session = p.session := by
  obtain ⟨f, rfl, hf⟩ := h
  obtain ⟨p, hp, rfl⟩ := List.mem_map.mp hq
  exact ⟨p, hp, (hf p hp).planId, (hf p hp).session⟩

theorem after_queuedUnderSession (hids : (db.plans.map RuntimePlan.planId).Nodup)
    (call : ServerCall) : QueuedUnderSession db (db.after env call).1 := by
  intro r hr
  rcases after_effect hids call with ⟨-, heffect⟩ | heffect
  · obtain ⟨kept, new, hplans, hkept, hnew⟩ := heffect.plans
    rw [hplans] at hr
    rcases List.mem_append.mp hr with hr | hr
    · exact Or.inl (hkept.origin hr)
    · rcases hnew with rfl | ⟨p, rfl, hqueued, -, -, hsession⟩
      · cases hr
      · rw [List.mem_singleton] at hr
        exact Or.inr (hr ▸ ⟨hqueued, hsession⟩)
  · obtain ⟨swept, hswept, ⟨-, hplans⟩ | ⟨l, p, q, -, -, -, hp, hrow, hplans⟩⟩ := heffect.plans
    · exact Or.inl (hswept.origin (hplans ▸ hr))
    · rw [hplans] at hr
      obtain ⟨r', hr', rfl⟩ := List.mem_map.mp hr
      by_cases hid : r'.planId = p.planId
      · obtain ⟨p', hp', hid', hsession⟩ := hswept.origin hp
        rw [if_pos hid]
        exact Or.inl ⟨p', hp', hrow.planId.2.trans hid', hrow.session.2.trans hsession⟩
      · rw [if_neg hid]
        exact Or.inl (hswept.origin hr')

/-- **The lifecycle of plans**, after any calls on a device with any further calls, at any times.
At most one plan is out; each plan is leased at most once, to the session of its row, which is the
session of the device when the plan was queued and when it is leased; the generation does not
decrease; and a plan that has ended keeps its status. -/
theorem plan_lifecycle (env : ServerEnv) (device : RuntimeDevice) (calls more : List ServerCall)
    (call : ServerCall) :
    let (db, leases) := serverRun env { device := device } calls
    let (next, lease) := db.after env call
    let (last, _) := serverRun env db more
    (db.plans.map RuntimePlan.planId).Nodup
      ∧ db.plans.countP (fun p => p.status.unresolved) ≤ 1
      ∧ (leases.map PlanLease.planId).Nodup
      ∧ (∀ l ∈ leases, ∃ p ∈ db.plans, p.planId = l.planId ∧ p.session = l.session)
      ∧ (∀ l, lease = some l → db.device.sessionKey = some l.session)
      ∧ QueuedUnderSession db next
      ∧ Onward db last := by
  have hempty : Lifecycle { device := device } [] :=
    ⟨List.nodup_nil, Nat.zero_le _, List.nodup_nil, nofun⟩
  obtain ⟨h, -⟩ : Lifecycle (serverRun env { device := device } calls).1 _ ∧ _ :=
    serverRun_lifecycle hempty calls
  rw [List.nil_append] at h
  refine ⟨h.ids, h.exclusive, h.once, fun l hl => ?_, fun l hl => ?_,
    after_queuedUnderSession h.ids call, (serverRun_lifecycle h more).2⟩
  · obtain ⟨p, hp, hid, hsession, -⟩ := h.leased l hl
    exact ⟨p, hp, hid, hsession⟩
  · replace hl : (ServerDb.after env (serverRun env { device := device } calls).1 call).2
        = some l := hl
    rcases after_effect h.ids call with ⟨hnone, -⟩ | heffect
    · rw [hnone] at hl
      cases hl
    · obtain ⟨swept, -, ⟨hnone, -⟩ | ⟨l', p, q, hlease, hsession, -⟩⟩ := heffect.plans
      · rw [hnone] at hl
        cases hl
      · rw [hlease] at hl
        cases hl
        exact hsession

end

end Ai00.Connector
