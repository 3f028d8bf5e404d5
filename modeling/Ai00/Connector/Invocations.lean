import Ai00.Connector.SignedOutcomes

/-! # Each step is invoked at most once

A call of `ExecuteAsync` is a sequence of actions: appends to the journal, and calls of the
adapter between them. A crash keeps an initial part of the actions, so an append that became
durable just before the crash is not followed by what the worker would have done next.

A plan is run only while the journal holds nothing of it, and the first action of a run is an
append. So a second run never reaches the adapter, whatever crashed in between, and within one
run the steps are distinct. `Recover` reports what was started and not finished as unknown.
-/

namespace Ai00.Connector

/-! ## Actions -/

/-- A journal event made durable, or a call of the adapter for a step. -/
inductive HostAction where
  | append (entry : JournalEntry)
  | invoke (stepId : String)

def appended? : HostAction → Option JournalEntry
  | .append entry => some entry
  | .invoke _ => none

def invoked? : HostAction → Option String
  | .append _ => none
  | .invoke stepId => some stepId

/-- The invocation of a step reaches `adapter.ExecuteAsync`: only a local open that was
interrupted throws before. -/
def callsAdapter (plan : ExecutionPlan) (run : ConnectorStep → StepRun) (stepId : String) : Bool :=
  match plan.steps.find? (fun step => step.stepId == stepId) with
  | some step => !(step.operationId == localOpenOperation && (run step).localOpenInterrupted)
  | none => false

/-- An event with the call that follows it: the adapter is called right after
`invocation_started`. -/
def entryActions (plan : ExecutionPlan) (run : ConnectorStep → StepRun) (entry : JournalEntry) :
    List HostAction :=
  match started? entry with
  | some stepId =>
    .append entry :: if callsAdapter plan run stepId then [.invoke stepId] else []
  | none => [.append entry]

def executionActions (host : Host) (journal : Journal) (process : ProcessState)
    (plan : ExecutionPlan) (lease : LeasedPlan) (session : RuntimeSession) (env : ExecuteRun) :
    List HostAction :=
  (executionEntries host journal process plan lease session env).flatMap
    (entryActions plan env.run)

/-! ## Runs with their calls -/

structure TracedState where
  host : HostState := {}
  /-- the adapter calls so far, as plan and step -/
  calls : List (String × String) := []

/-- A step whose crash counts actions, as a step whose crash counts events, with the adapter
calls it made. -/
def HostStep.traced (host : Host) (s : HostState) (step : HostStep) :
    HostStep × List (String × String) :=
  match step with
  | .execute lease session env crash =>
    match admitPlan host s.journal s.process lease session env with
    | .ok (.inr plan) =>
      let actions := executionActions host s.journal s.process plan lease session env
      let done := match crash with
        | some n => actions.take n
        | none => actions
      (.execute lease session env (crash.map (fun _ => (done.filterMap appended?).length)),
        (done.filterMap invoked?).map (fun stepId => (plan.planId, stepId)))
    | _ => (step, [])
  | _ => (step, [])

def TracedState.step (host : Host) (s : TracedState) (step : HostStep) : TracedState where
  host := s.host.step host (step.traced host s.host).1
  calls := s.calls ++ (step.traced host s.host).2

/-- The state after the steps, from an empty journal; crashes count actions. -/
def tracedRun (host : Host) (steps : List HostStep) : TracedState :=
  steps.foldl (TracedState.step host) {}

/-! ## Actions and events -/

section

variable {host : Host} {plan : ExecutionPlan} {lease : LeasedPlan} {session : RuntimeSession}
  {run : ConnectorStep → StepRun}

theorem filterMap_appended (entries : List JournalEntry) :
    (entries.flatMap (entryActions plan run)).filterMap appended? = entries := by
  induction entries with
  | nil => rfl
  | cons entry rest ih =>
    rw [List.flatMap_cons, List.filterMap_append, ih]
    have hone : (entryActions plan run entry).filterMap appended? = [entry] := by
      unfold entryActions
      split
      · split_ifs <;> rfl
      · rfl
    rw [hone]
    rfl

theorem filterMap_invoked (entries : List JournalEntry) :
    ((entries.flatMap (entryActions plan run)).filterMap invoked?).Sublist
      (entries.filterMap started?) := by
  induction entries with
  | nil => exact List.Sublist.slnil
  | cons entry rest ih =>
    rw [List.flatMap_cons, List.filterMap_append]
    cases hstarted : started? entry with
    | none =>
      rw [List.filterMap_cons_none hstarted, entryActions, hstarted]
      exact ih
    | some stepId =>
      rw [List.filterMap_cons_some hstarted, entryActions, hstarted]
      dsimp only
      split_ifs
      · exact ih.cons_cons stepId
      · exact ih.cons stepId

/-- The events of an initial part of the actions are an initial part of the events. -/
theorem appended_take (entries : List JournalEntry) (n : Nat) :
    ((entries.flatMap (entryActions plan run)).take n).filterMap appended?
      = entries.take (((entries.flatMap (entryActions plan run)).take n).filterMap appended?).length := by
  have hprefixed := (List.take_prefix n (entries.flatMap (entryActions plan run))).filterMap appended?
  rw [filterMap_appended] at hprefixed
  exact List.prefix_iff_eq_take.mp hprefixed

theorem appended_ne_nil {entries : List JournalEntry} {n : Nat}
    (h : ((entries.flatMap (entryActions plan run)).take n).filterMap invoked? ≠ []) :
    ((entries.flatMap (entryActions plan run)).take n).filterMap appended? ≠ [] := by
  cases n with
  | zero => exact absurd rfl h
  | succ n =>
    cases entries with
    | nil => exact absurd rfl h
    | cons entry rest =>
      rw [List.flatMap_cons, entryActions]
      cases started? entry <;> exact List.cons_ne_nil _ _

theorem LoopEntries.started_sublist {steps : List ConnectorStep} {entries : List JournalEntry}
    (h : LoopEntries steps entries) :
    (entries.filterMap started?).Sublist (steps.map ConnectorStep.stepId) := by
  induction h with
  | nil => exact List.nil_sublist _
  | opened step rest => exact (List.nil_sublist _).cons_cons _
  | skipped _ _ _ ih => exact ih.cons _
  | invoked _ _ _ ih => exact ih.cons_cons _

theorem executionEntries_started (hvalid : plan.valid = true) (journal : Journal)
    (process : ProcessState) (env : ExecuteRun) :
    ((executionEntries host journal process plan lease session env).filterMap started?).Nodup := by
  obtain ⟨out, heq, hout⟩ := @executionEntries_eq host plan lease session journal process env
  have hnone : out.filterMap started? = [] := by
    rcases hout with rfl | ⟨-, count, rfl⟩ <;> rfl
  have hstarted : (executionEntries host journal process plan lease session env).filterMap started?
      = (runSteps host plan lease session env.run process.requiresProcessRestart
          plan.steps).entries.filterMap started? := by
    rw [heq]
    show List.filterMap started? (_ ++ out) = _
    rw [List.filterMap_append, hnone, List.append_nil]
  rw [hstarted]
  exact (ExecutionPlan.nodup_of_valid hvalid).sublist (runSteps_entries _ _).started_sublist

/-- A loop that ended without an exception journaled a result for each invocation. -/
theorem runSteps_closed {restart : Bool} {steps : List ConnectorStep}
    (h : (runSteps host plan lease session run restart steps).finished = true) :
    ∀ id ∈ (runSteps host plan lease session run restart steps).entries.filterMap started?,
      id ∈ ((runSteps host plan lease session run restart steps).entries.filterMap
        terminal?).map StepResult.stepId := by
  induction steps generalizing restart with
  | nil => exact fun id hid => absurd hid List.not_mem_nil
  | cons step rest ih =>
    rw [runSteps] at h ⊢
    cases runStep_done host plan lease session restart step (run step) with
    | thrown hcontrol =>
      simp only [hcontrol] at h
      cases h
    | reported r hresult hid hreview hentries hcontrol =>
      have hclosed : ∀ {opening tail : List JournalEntry},
          (opening = [.stepTerminal r] ∨ opening = [.invocationStarted step.stepId, .stepTerminal r]) →
          (∀ id ∈ tail.filterMap started?, id ∈ (tail.filterMap terminal?).map StepResult.stepId) →
          ∀ id ∈ (opening ++ tail).filterMap started?,
            id ∈ ((opening ++ tail).filterMap terminal?).map StepResult.stepId := by
        rintro opening tail (rfl | rfl) htail id hstarted
        · exact List.mem_cons_of_mem _ (htail id hstarted)
        · rcases List.mem_cons.mp hstarted with rfl | hstarted
          · exact hid ▸ List.mem_cons_self
          · exact List.mem_cons_of_mem _ (htail id hstarted)
      rcases hcontrol with ⟨hc, -⟩ | ⟨hc, -⟩
      · simp only [hc]
        have hopening := @hclosed _ [] hentries fun id hid => absurd hid List.not_mem_nil
        rwa [List.append_nil] at hopening
      · simp only [hc] at h ⊢
        exact hclosed hentries (ih h)

end

/-! ## What an outcome tells of an open invocation -/

def UnknownIn (outcome : Outcome) (stepId : String) : Prop :=
  (∃ r ∈ outcome.steps, r.stepId = stepId ∧ r.status = .outcomeUnknown)
    ∧ ∀ r ∈ outcome.steps, r.stepId = stepId → r.status = .outcomeUnknown

/-- Every outcome of a group reports as unknown what was started and had no result when the
outcome was signed. -/
def Told (group : List JournalEntry) : Prop :=
  ∀ before outcome after, group = before ++ .outcome outcome :: after →
    ∀ stepId ∈ group.filterMap started?,
      stepId ∉ (before.filterMap terminal?).map StepResult.stepId → UnknownIn outcome stepId

section

variable {host : Host} {plan : ExecutionPlan} {lease : LeasedPlan} {group : List JournalEntry}

theorem told_of_no_outcome (h : group.filterMap outcome? = []) : Told group := by
  intro before outcome after hsplit
  rw [hsplit, List.filterMap_append] at h
  exact absurd (List.append_eq_nil_iff.mp h).2 (List.cons_ne_nil _ _)

theorem Told.append {entry : JournalEntry} (h : Told group) (hstarted : started? entry = none)
    (hentry : ∀ outcome, entry = .outcome outcome → ∀ stepId ∈ group.filterMap started?,
      stepId ∉ (group.filterMap terminal?).map StepResult.stepId → UnknownIn outcome stepId) :
    Told (group ++ [entry]) := by
  intro before outcome after hsplit stepId hid hopen
  rw [List.filterMap_append, List.filterMap_cons_none hstarted, List.filterMap_nil, List.append_nil] at hid
  rcases List.eq_nil_or_concat after with rfl | ⟨front, last, rfl⟩
  · -- the outcome is the new event
    obtain ⟨rfl, hlast⟩ := List.append_inj' hsplit rfl
    exact hentry outcome (List.singleton_inj.mp hlast) stepId hid hopen
  · -- the outcome was there before
    rw [List.concat_eq_append] at hsplit
    have hbefore : group ++ [entry] = (before ++ .outcome outcome :: front) ++ [last] := by
      simpa using hsplit
    exact h before outcome front (List.append_inj' hbefore rfl).1 stepId hid hopen

variable {stepId : String}

/-- An open invocation stays reported as unknown while recovery adds the others. -/
theorem foldl_addOpen_unknown {started : List String} {results : List StepResult}
    (hmem : stepId ∈ started ∨ ∃ r ∈ results, r.stepId = stepId ∧ r.status = .outcomeUnknown)
    (honly : ∀ r ∈ results, r.stepId = stepId → r.status = .outcomeUnknown) :
    (∃ r ∈ started.foldl addOpen results, r.stepId = stepId ∧ r.status = .outcomeUnknown)
      ∧ ∀ r ∈ started.foldl addOpen results, r.stepId = stepId → r.status = .outcomeUnknown := by
  induction started generalizing results with
  | nil =>
    refine ⟨?_, honly⟩
    exact hmem.resolve_left List.not_mem_nil
  | cons id rest ih =>
    rw [List.foldl_cons]
    have hgrown : ∀ r ∈ addOpen results id, r ∈ results ∨ r = openResult id := by
      intro r hr
      unfold addOpen at hr
      split_ifs at hr
      · exact Or.inl hr
      · exact (List.mem_append.mp hr).imp_right List.mem_singleton.mp
    apply ih
    · rcases hmem with hmem | ⟨r, hr, hid, hstatus⟩
      · rcases List.mem_cons.mp hmem with rfl | hmem
        · right
          unfold addOpen
          split_ifs with hknown
          · obtain ⟨r, hr, hid⟩ := List.mem_map.mp (any_stepId_iff.mp hknown)
            exact ⟨r, hr, hid, honly r hr hid⟩
          · exact ⟨_, List.mem_append_right _ List.mem_cons_self, rfl, rfl⟩
        · exact Or.inl hmem
      · right
        refine ⟨r, ?_, hid, hstatus⟩
        unfold addOpen
        split_ifs
        · exact hr
        · exact List.mem_append_left _ hr
    · intro r hr hid
      rcases hgrown r hr with hr | rfl
      · exact honly r hr hid
      · rfl

theorem recoveredResults_unknown (hstarted : stepId ∈ group.filterMap started?)
    (hopen : stepId ∉ (group.filterMap terminal?).map StepResult.stepId) :
    (∃ r ∈ recoveredResults plan group, r.stepId = stepId ∧ r.status = .outcomeUnknown)
      ∧ ∀ r ∈ recoveredResults plan group, r.stepId = stepId → r.status = .outcomeUnknown := by
  have hfold := foldl_addOpen_unknown (Or.inl hstarted)
    fun r hr hid => absurd (List.mem_map.mpr ⟨r, hr, hid⟩) hopen
  obtain ⟨r, hr, -, hstatus⟩ := hfold.1
  have hunknown : ((group.filterMap started?).foldl addOpen (group.filterMap terminal?)).any
      (fun r => r.status == .outcomeUnknown) = true :=
    List.any_eq_true.mpr ⟨r, hr, beq_iff_eq.mpr hstatus⟩
  unfold recoveredResults
  simp only [if_pos hunknown]
  exact hfold

theorem unknownIn_makeOutcome {results : List StepResult} {count : Nat}
    (h : (∃ r ∈ results, r.stepId = stepId ∧ r.status = .outcomeUnknown)
      ∧ ∀ r ∈ results, r.stepId = stepId → r.status = .outcomeUnknown) :
    UnknownIn (makeOutcome host plan lease count results) stepId := by
  obtain ⟨⟨r, hr, hid, hstatus⟩, honly⟩ := h
  refine ⟨⟨normalizeCode r, List.mem_map_of_mem hr, ?_, ?_⟩, fun s hs hid => ?_⟩
  · rw [normalizeCode_stepId, hid]
  · rw [normalizeCode_status, hstatus]
  · obtain ⟨r, hr, rfl⟩ := List.mem_map.mp hs
    rw [normalizeCode_stepId] at hid
    rw [normalizeCode_status]
    exact honly r hr hid

/-- What a run leaves tells: its outcome comes last, when nothing is open. -/
theorem told_executionEntries_take {session : RuntimeSession} {journal : Journal}
    {process : ProcessState} {env : ExecuteRun} (n : Nat) :
    Told ((executionEntries host journal process plan lease session env).take n) := by
  obtain ⟨out, heq, hout⟩ := @executionEntries_eq host plan lease session journal process env
  rw [heq]
  generalize hp : runSteps host plan lease session env.run process.requiresProcessRestart plan.steps = p at hout
  have hloop : (JournalEntry.planReceived lease.planJson :: .leaseAcquired lease
      :: p.entries).filterMap outcome? = [] := by
    have := (@runSteps_entries host plan lease session env.run process.requiresProcessRestart
      plan.steps).projections.2
    rw [hp] at this
    exact this
  have hnone : ∀ m, Told ((JournalEntry.planReceived lease.planJson :: .leaseAcquired lease
      :: p.entries).take m) := by
    intro m
    apply told_of_no_outcome
    rw [List.filterMap_eq_nil_iff] at hloop ⊢
    exact fun entry hentry => hloop entry (List.mem_of_mem_take hentry)
  show Told ((JournalEntry.planReceived lease.planJson :: .leaseAcquired lease :: p.entries ++ out).take n)
  rcases hout with rfl | ⟨hfinished, count, rfl⟩
  · rw [List.append_nil]
    exact hnone n
  · rw [List.take_append]
    cases hrest : n - (JournalEntry.planReceived lease.planJson :: .leaseAcquired lease :: p.entries).length with
    | zero =>
      rw [List.take_zero, List.append_nil]
      exact hnone n
    | succ k =>
      have hall : (JournalEntry.planReceived lease.planJson :: .leaseAcquired lease
          :: p.entries).length ≤ n := by omega
      rw [List.take_of_length_le hall, List.take_succ_cons, List.take_nil]
      have hfull := hnone n
      rw [List.take_of_length_le hall] at hfull
      refine hfull.append rfl fun outcome _ stepId hid hopen => ?_
      rw [← hp] at hfinished
      have hclosed := runSteps_closed hfinished
      rw [hp] at hclosed
      exact absurd (hclosed stepId hid) hopen

end

/-! ## The run -/

section

variable {host : Host}

/-- The invariant of a run: outcomes tell, no call was made twice, and the journal knows the plan
of every call. -/
structure TracedState.Sound (s : TracedState) : Prop where
  told : ∀ planId, Told (s.host.journal.group planId)
  calls : s.calls.Nodup
  journaled : ∀ call ∈ s.calls, s.host.journal.group call.1 ≠ []

/-- What one step adds to a run: events that keep every group telling, and new calls, for plans
the journal did not know before and knows now. -/
structure Adds (s : HostState) (events : Journal) (calls : List (String × String)) : Prop where
  told : ∀ planId, Told (s.journal.group planId) → Told (s.journal.group planId
    ++ events.group planId)
  fresh : ∀ call ∈ calls, s.journal.group call.1 = []
  known : ∀ call ∈ calls, events.group call.1 ≠ []
  nodup : calls.Nodup

theorem adds_nothing (s : HostState) : Adds s [] [] where
  told planId h := by
    show Told (_ ++ [])
    rwa [List.append_nil]
  fresh _ h := absurd h List.not_mem_nil
  known _ h := absurd h List.not_mem_nil
  nodup := List.nodup_nil

theorem adds_mark (s : HostState) (planId : String) (kind : Mark) :
    Adds s [⟨planId, kind.entry⟩] [] := by
  refine { adds_nothing s with
    told := fun q h => ?_
    known := fun _ hmem => absurd hmem List.not_mem_nil }
  show Told (_ ++ Journal.group ([kind.entry].map (AppJournalEvent.mk planId)) q)
  rw [Journal.group_map]
  split_ifs
  · cases kind <;> exact h.append rfl nofun
  · rwa [List.append_nil]

theorem adds_recover (s : HostState) (trusted : String → Bool) (n : Nat) :
    Adds s ((recover host trusted s.journal).appended.take n) [] := by
  refine { adds_nothing s with
    told := fun planId h => ?_
    known := fun _ hmem => absurd hmem List.not_mem_nil }
  obtain ⟨hnodup, hsigned⟩ := @recoverGroups_appended host trusted s.journal s.journal.length _
    s.journal.nodup_planIds
  have htaken : (((recover host trusted s.journal).appended.take n).map AppJournalEvent.planId).Nodup := by
    rw [List.map_take]
    exact hnodup.sublist (List.take_sublist _ _)
  rcases Journal.group_of_nodup htaken planId with hnil | ⟨e, he, hid, hone⟩
  · rw [hnil, List.append_nil]
    exact h
  · obtain ⟨-, count, outcome, hentry, hsign⟩ := hsigned e (List.mem_of_mem_take he)
    rw [hid] at hsign
    obtain ⟨-, lease, plan, -, -, rfl⟩ := recoverGroup_sign hsign
    rw [hone, hentry]
    refine h.append rfl fun outcome heq stepId hstarted hopen => ?_
    cases heq
    exact unknownIn_makeOutcome (recoveredResults_unknown hstarted hopen)

theorem adds_execute (s : HostState) {lease : LeasedPlan} {session : RuntimeSession}
    {env : ExecuteRun} {plan : ExecutionPlan}
    (hadmits : admitPlan host s.journal s.process lease session env = .ok (.inr plan)) (n : Nat) :
    Adds s
      (((executionEntries host s.journal s.process plan lease session env).take
        (((executionActions host s.journal s.process plan lease session env).take n).filterMap
          appended?).length).map (AppJournalEvent.mk plan.planId))
      ((((executionActions host s.journal s.process plan lease session env).take n).filterMap
        invoked?).map (fun stepId => (plan.planId, stepId))) := by
  obtain ⟨-, hvalid, hempty⟩ := admit_spec hadmits
  have hcall : ∀ call ∈ (((executionActions host s.journal s.process plan lease session env).take
      n).filterMap invoked?).map (fun stepId => (plan.planId, stepId)), call.1 = plan.planId := by
    intro call hmem
    obtain ⟨stepId, -, rfl⟩ := List.mem_map.mp hmem
    rfl
  refine ⟨fun q h => ?_, fun call hmem => ?_, fun call hmem => ?_, ?_⟩
  · rw [Journal.group_map]
    split_ifs with hq
    · rw [← hq, hempty]
      exact told_executionEntries_take _
    · rwa [List.append_nil]
  · rw [hcall call hmem, hempty]
  · have hinvoked := List.ne_nil_of_mem hmem
    rw [ne_eq, List.map_eq_nil_iff] at hinvoked
    rw [hcall call hmem, Journal.group_map, if_pos rfl, executionActions, ← appended_take]
    exact appended_ne_nil hinvoked
  · refine List.Nodup.map (fun a b h => (Prod.mk.inj h).2) ?_
    have hstarted := @executionEntries_started host plan lease session hvalid s.journal s.process env
    refine hstarted.sublist ?_
    exact ((List.take_sublist _ _).filterMap _).trans (filterMap_invoked _)

theorem adds_step (s : HostState) (step : HostStep) :
    Adds s ((step.traced host s).1.appended host s) (step.traced host s).2 := by
  cases step with
  | restart => exact adds_nothing s
  | mark planId kind => exact adds_mark s planId kind
  | recover trusted crash =>
    cases crash with
    | some n => exact adds_recover s trusted n
    | none =>
      have hall := @adds_recover host s trusted (recover host trusted s.journal).appended.length
      rwa [List.take_length] at hall
  | execute lease session env crash =>
    unfold HostStep.traced
    cases hadmits : admitPlan host s.journal s.process lease session env with
    | error code =>
      simp only [HostStep.appended, hadmits]
      exact adds_nothing s
    | ok admitted =>
      cases admitted with
      | inl outcome =>
        simp only [HostStep.appended, hadmits]
        exact adds_nothing s
      | inr plan =>
        cases crash with
        | some n =>
          simp only [HostStep.appended, hadmits, Option.map_some]
          exact adds_execute s hadmits n
        | none =>
          simp only [HostStep.appended, hadmits, Option.map_none]
          have hall := adds_execute s hadmits
            (executionActions host s.journal s.process plan lease session env).length
          rw [List.take_length, executionActions, filterMap_appended, List.take_length] at hall
          exact hall

theorem TracedState.Sound.step {s : TracedState} (h : s.Sound) (step : HostStep) :
    (s.step host step).Sound := by
  have hadds := @adds_step host s.host step
  have happend : ∀ planId, (s.step host step).host.journal.group planId = s.host.journal.group planId
        ++ ((step.traced host s.host).1.appended host s.host).group planId :=
    fun planId => Journal.group_append _ _ _
  constructor
  · intro planId
    rw [happend]
    exact hadds.told planId (h.told planId)
  · show (s.calls ++ (step.traced host s.host).2).Nodup
    refine List.nodup_append.mpr ⟨h.calls, hadds.nodup, fun call hold other hnew heq => ?_⟩
    exact h.journaled call hold (heq ▸ hadds.fresh other hnew)
  · intro call hmem
    rw [happend]
    rcases List.mem_append.mp hmem with hold | hnew
    · exact List.append_ne_nil_of_left_ne_nil (h.journaled call hold) _
    · exact List.append_ne_nil_of_right_ne_nil _ (hadds.known call hnew)

theorem tracedRun_sound (host : Host) (steps : List HostStep) : (tracedRun host steps).Sound := by
  induction steps using List.reverseRecOn with
  | nil =>
    refine ⟨fun planId => told_of_no_outcome rfl, List.nodup_nil, ?_⟩
    exact fun _ h => absurd h List.not_mem_nil
  | append_singleton steps last ih =>
    unfold tracedRun
    rw [List.foldl_append]
    exact ih.step last

/-- **The adapter is invoked at most once for each step of each plan**, whatever leases come again
and wherever the host crashes; and an invocation the journal left open is reported as unknown. -/
theorem invoked_at_most_once (host : Host) (steps : List HostStep) :
    (∀ call, (tracedRun host steps).calls.count call ≤ 1)
      ∧ ∀ planId before outcome after,
        (tracedRun host steps).host.journal.group planId = before ++ .outcome outcome :: after →
        ∀ stepId, .invocationStarted stepId ∈ (tracedRun host steps).host.journal.group planId →
          (∀ r, .stepTerminal r ∈ before → r.stepId ≠ stepId) →
          (∃ r ∈ outcome.steps, r.stepId = stepId ∧ r.status = .outcomeUnknown)
            ∧ ∀ r ∈ outcome.steps, r.stepId = stepId →
              r.status ≠ .succeeded ∧ r.status ≠ .failedWithoutEffect := by
  have hsound := tracedRun_sound host steps
  refine ⟨fun call => List.nodup_iff_count_le_one.mp hsound.calls call, ?_⟩
  intro planId before outcome after hsplit stepId hstarted hopen
  have hmem : stepId ∈ ((tracedRun host steps).host.journal.group planId).filterMap started? :=
    List.mem_filterMap.mpr ⟨_, hstarted, rfl⟩
  have hmissing : stepId ∉ (before.filterMap terminal?).map StepResult.stepId := by
    intro hfound
    obtain ⟨r, hr, hid⟩ := List.mem_map.mp hfound
    obtain ⟨entry, hentry, hterminal⟩ := List.mem_filterMap.mp hr
    cases entry with
    | stepTerminal other =>
      cases hterminal
      exact hopen r hentry hid
    | _ => cases hterminal
  obtain ⟨hreported, honly⟩ := hsound.told planId before outcome after hsplit stepId hmem hmissing
  refine ⟨hreported, fun r hr hid => ?_⟩
  rw [honly r hr hid]
  decide

end

/-- The host crashes while the adapter runs the first step; the lease is delivered again before
and after recovery. -/
def interruptedRun : List HostStep :=
  let session : RuntimeSession :=
    ⟨"device-001", "tenant-001", 7, "runtime-instance-001", 7000000000⟩
  let env : ExecuteRun := { now := 1, run := fun _ => { answer := .ok ⟨true, .element (.obj [])⟩ } }
  [.execute batchLease session env (some 4), .execute batchLease session env none,
    .recover (fun _ => true) none, .execute batchLease session env none]

theorem interrupted_step_unknown :
    (tracedRun batchHost interruptedRun).calls = [("plan-002", "step-00001")]
      ∧ ∃ outcome ∈ ((tracedRun batchHost interruptedRun).host.journal.group
          "plan-002").filterMap outcome?,
        ∃ r ∈ outcome.steps, r.stepId = "step-00001" ∧ r.status = .outcomeUnknown := by
  refine ⟨by decide +kernel, _, List.mem_cons_self, ?_⟩
  exact ((invoked_at_most_once batchHost interruptedRun).2 "plan-002"
    [.planReceived "batch", .leaseAcquired batchLease, .invocationStarted "step-00001"] _ [] rfl
    "step-00001" (List.mem_of_getElem? (show _[2]? = _ from rfl)) (by simp)).1

end Ai00.Connector
