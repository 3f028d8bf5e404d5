import Ai00.Agent.OrchestrationRuns
import Ai00.Basic.Successive

/-! # What the log of a run says

The log of a run agrees with its row (`LogAgrees`): its numbers are 1, 2, 3, …, its status events lead
from the started event to the status of the row, and the row has a finish time exactly in a final
status. The payload of a caller is merged over the `from` and `to` of the event, so that an advance
keeps this as far as the payload does not name these keys with other values (`Honest`).
-/

namespace Ai00.Agent

open KeyedRows

variable {s s' : RunStore} {r run : OrchRun} {e : OrchRunEvent} {c : CallContext}

/-! ## Logs -/

def RunStore.eventsOf (s : RunStore) (runGid : Str) : List OrchRunEvent :=
  s.events.filter fun e => e.runGid = runGid

/-- Status events lead from one status to another along the transitions of a run. -/
inductive Replays : Str → List OrchRunEvent → Str → Prop
  | nil (status : Str) : Replays status [] status
  | cons {a b status : Str} {e : OrchRunEvent} {events : List OrchRunEvent}
      (htype : e.eventType = "status_changed".toList)
      (hfrom : lookup Prod.fst "from".toList e.payload = some ("from".toList, .str a))
      (hto : lookup Prod.fst "to".toList e.payload = some ("to".toList, .str b))
      (hmove : b ∈ runTransitions a) (hrest : Replays b events status) :
      Replays a (e :: events) status

theorem Replays.concat {a b status : Str} {events : List OrchRunEvent} (h : Replays a events b)
    (htype : e.eventType = "status_changed".toList)
    (hfrom : lookup Prod.fst "from".toList e.payload = some ("from".toList, .str b))
    (hto : lookup Prod.fst "to".toList e.payload = some ("to".toList, .str status))
    (hmove : status ∈ runTransitions b) : Replays a (events ++ [e]) status := by
  induction h with
  | nil b => exact .cons htype hfrom hto hmove (.nil status)
  | cons htype' hfrom' hto' hmove' _ ih => exact .cons htype' hfrom' hto' hmove' (ih hfrom hmove)

structure LogAgrees (r : OrchRun) (events : List OrchRunEvent) : Prop where
  numbers : events.map OrchRunEvent.sequenceNo = List.range' 1 events.length
  replay : ∃ started changes, events = started :: changes
    ∧ started.eventType = "started".toList ∧ Replays running changes r.status
  finish : r.finishedAt ≠ none ↔ Terminal r.status

/-- The invariant of the tables. -/
structure RunStore.Sound (s : RunStore) : Prop where
  gids : (s.runs.map OrchRun.gid).Nodup
  owned : ∀ e ∈ s.events, ∃ r ∈ s.runs,
    r.gid = e.runGid ∧ r.tenantGid = e.tenantGid ∧ r.projectGid = e.projectGid
  logs : ∀ r ∈ s.runs, LogAgrees r (s.eventsOf r.gid)

/-! ## Payloads -/

def Leaves (payload : List (Str × Json)) (key value : Str) : Prop :=
  ∀ v, (key, v) ∈ payload → v = .str value

theorem lookup_upsertAll_of_leaves {payload rows : List (Str × Json)} {key value : Str}
    (hleaves : Leaves payload key value) (hrows : lookup Prod.fst key rows = some (key, .str value)) :
    lookup Prod.fst key (upsertAll Prod.fst payload rows) = some (key, .str value) := by
  rw [lookup_upsertAll, hrows]
  cases hfound : lookup Prod.fst key payload.reverse with
  | none => rfl
  | some entry =>
    have hkey : entry.1 = key := key_of_lookup hfound
    have hin : entry ∈ payload := List.mem_reverse.mp (mem_of_lookup hfound)
    have hvalue := hleaves entry.2 (hkey ▸ hin)
    rw [Option.some_or, ← hkey, ← hvalue]

/-! ## Events that are inserted -/

theorem mem_of_run? {gid tenant project : Str} (h : s.run? gid tenant project = some r) :
    r ∈ s.runs ∧ r.gid = gid ∧ r.tenantGid = tenant ∧ r.projectGid = project := by
  refine ⟨List.mem_of_find?_eq_some h, ?_⟩
  simpa [and_assoc] using List.find?_some h

theorem run?_ne_none (hr : r ∈ s.runs) : s.run? r.gid r.tenantGid r.projectGid ≠ none := by
  intro hnone
  have hall := List.find?_eq_none.mp hnone r hr
  simp at hall

theorem insertRunEvent_ok (hr : r ∈ s.runs) (hrun : r.gid = e.runGid)
    (htenant : r.tenantGid = e.tenantGid) (hproject : r.projectGid = e.projectGid)
    (h : s.insertRunEvent e = .ok s') : s' = { s with events := s.events ++ [e] } := by
  obtain ⟨row, hrow⟩ : ∃ row, s.run? e.runGid e.tenantGid e.projectGid = some row := by
    rw [← hrun, ← htenant, ← hproject]
    exact Option.ne_none_iff_exists'.mp (run?_ne_none hr)
  unfold RunStore.insertRunEvent at h
  rw [hrow] at h
  obtain ⟨_, -, h⟩ := bind_eq_ok.mp h
  exact (Except.ok.inj h).symm

theorem eventsOf_concat (s : RunStore) (runs : List OrchRun) (e : OrchRunEvent) (gid : Str) :
    RunStore.eventsOf ⟨runs, s.events ++ [e]⟩ gid
      = s.eventsOf gid ++ if e.runGid = gid then [e] else [] := by
  unfold RunStore.eventsOf
  rw [List.filter_append]
  by_cases h : e.runGid = gid <;> simp [h]

/-! ## Starting -/

theorem createRunWithStartedEvent_ok {a : StartArguments} {gid : Str}
    (h : createRunWithStartedEvent c a s = .ok (s', gid)) :
    ∃ r e, s' = ⟨s.runs ++ [r], s.events ++ [e]⟩ ∧ (∀ row ∈ s.runs, row.gid ≠ r.gid)
      ∧ r.gid = e.runGid ∧ r.tenantGid = e.tenantGid ∧ r.projectGid = e.projectGid
      ∧ r.status = running ∧ r.finishedAt = none
      ∧ e.sequenceNo = 1 ∧ e.eventType = "started".toList := by
  obtain ⟨⟨tenant, project⟩, -, h⟩ := bind_eq_ok.mp h
  simp only [bind_eq_ok] at h
  obtain ⟨_, -, closed, -, _, -, s₁, hrun, s₂, hevent, h⟩ := h
  cases h
  obtain ⟨_, hnew, hrun⟩ := bind_eq_ok.mp hrun
  cases hrun
  obtain rfl := insertRunEvent_ok (List.mem_append_right _ (List.mem_singleton_self _)) rfl rfl rfl hevent
  exact ⟨_, _, rfl, require_eq_ok.mp hnew, rfl, rfl, rfl, rfl, rfl, rfl, rfl⟩

theorem RunStore.Sound.started (h : s.Sound) (hnew : ∀ row ∈ s.runs, row.gid ≠ r.gid)
    (hrun : r.gid = e.runGid) (htenant : r.tenantGid = e.tenantGid)
    (hproject : r.projectGid = e.projectGid) (hstatus : r.status = running)
    (hfinish : r.finishedAt = none) (hnumber : e.sequenceNo = 1)
    (htype : e.eventType = "started".toList) :
    RunStore.Sound ⟨s.runs ++ [r], s.events ++ [e]⟩ where
  gids := by
    rw [List.map_append, List.map_singleton, ← List.concat_eq_append, List.nodup_concat]
    refine ⟨fun hin => ?_, h.gids⟩
    obtain ⟨row, hrow, heq⟩ := List.mem_map.mp hin
    exact hnew row hrow heq
  owned x hx := by
    rcases List.mem_append.mp hx with hx | hx
    · obtain ⟨row, hrow, hrest⟩ := h.owned x hx
      exact ⟨row, List.mem_append_left _ hrow, hrest⟩
    · obtain rfl := List.mem_singleton.mp hx
      exact ⟨r, List.mem_append_right _ (List.mem_singleton_self _), hrun, htenant, hproject⟩
  logs row hrow := by
    rw [eventsOf_concat]
    rcases List.mem_append.mp hrow with hrow | hrow
    · have hother : e.runGid ≠ row.gid := fun heq => hnew row hrow (heq.symm.trans hrun.symm)
      rw [if_neg hother, List.append_nil]
      exact h.logs row hrow
    · obtain rfl := List.mem_singleton.mp hrow
      -- no event is of a run that was not there
      have hnone : s.eventsOf row.gid = [] := by
        refine List.filter_eq_nil_iff.mpr fun x hx heq => ?_
        obtain ⟨owner, howner, hgid, -⟩ := h.owned x hx
        exact hnew owner howner (hgid.trans (of_decide_eq_true heq))
      rw [hnone, if_pos hrun.symm]
      refine ⟨by simp [hnumber], ⟨e, [], rfl, htype, hstatus ▸ .nil running⟩, ?_⟩
      rw [hfinish, hstatus]
      decide

/-! ## Advancing -/

/-- The greatest of the numbers of a log is their number. -/
theorem foldl_max_range (n : ℕ) : (List.range' 1 n).foldl max 0 = n := by
  induction n with
  | zero => rfl
  | succ n ih =>
    rw [List.range'_1_concat, List.foldl_append, ih]
    simp
    omega

theorem RunStore.Sound.eq_of_gid (h : s.Sound) (hr : r ∈ s.runs) (hrun : run ∈ s.runs)
    (heq : r.gid = run.gid) : r = run := List.inj_on_of_nodup_map h.gids hr hrun heq

theorem RunStore.Sound.lastSequenceNo_eq (h : s.Sound) (hr : r ∈ s.runs) :
    s.lastSequenceNo r.gid r.tenantGid r.projectGid = (s.eventsOf r.gid).length := by
  have hsame : (s.events.filter fun e =>
      e.runGid = r.gid && e.tenantGid = r.tenantGid && e.projectGid = r.projectGid)
        = s.eventsOf r.gid := by
    refine List.filter_congr fun e he => ?_
    by_cases hgid : e.runGid = r.gid
    · obtain ⟨owner, howner, hrun, htenant, hproject⟩ := h.owned e he
      obtain rfl := h.eq_of_gid howner hr (hrun.trans hgid)
      simp [hgid, htenant, hproject]
    · simp [hgid]
  unfold RunStore.lastSequenceNo
  rw [hsame, (h.logs r hr).numbers, foldl_max_range]

def OrchRun.moved (r : OrchRun) (target : Str) (now : ℤ) : OrchRun :=
  { r with status := target, finishedAt := if Terminal target then some now else none }

theorem transitionRunWithEvent_ok (hs : s.Sound) {a : AdvanceArguments} {n : ℕ}
    (h : transitionRunWithEvent c a s = .ok (s', n)) :
    ∃ run e, run ∈ s.runs ∧ run.gid = a.runGid ∧ a.targetStatus ∈ runTransitions run.status
      ∧ s' = ⟨s.runs.map fun r => if r.gid = run.gid then run.moved a.targetStatus c.now else r, s.events ++ [e]⟩
      ∧ e.runGid = run.gid ∧ e.tenantGid = run.tenantGid ∧ e.projectGid = run.projectGid
      ∧ e.sequenceNo = (s.eventsOf run.gid).length + 1 ∧ e.eventType = "status_changed".toList
      ∧ e.payload = eventPayload run.status a.targetStatus a.payload := by
  obtain ⟨⟨tenant, project⟩, -, h⟩ := bind_eq_ok.mp h
  simp only [bind_eq_ok] at h
  obtain ⟨run, hrun, _, hmove, s₂, hevent, h⟩ := h
  cases h
  obtain ⟨hfound, -⟩ := Option.filter_eq_some_iff.mp (found_eq_ok.mp hrun)
  obtain ⟨hmem, hgid, rfl, rfl⟩ := mem_of_run? hfound
  have hruns : (s.setStatus a.runGid run.tenantGid run.projectGid a.targetStatus c.now).runs
      = s.runs.map fun r => if r.gid = run.gid then run.moved a.targetStatus c.now else r := by
    refine List.map_congr_left fun r hr => ?_
    rw [hgid]
    by_cases heq : r.gid = a.runGid
    · obtain rfl := hs.eq_of_gid hr hmem (heq.trans hgid.symm)
      rw [if_pos ⟨heq, rfl, rfl⟩, if_pos heq]
      rfl
    · rw [if_neg fun hall => heq hall.1, if_neg heq]
  have hthere : run.moved a.targetStatus c.now
      ∈ (s.setStatus a.runGid run.tenantGid run.projectGid a.targetStatus c.now).runs := by
    rw [hruns]
    exact List.mem_map.mpr ⟨run, hmem, if_pos rfl⟩
  obtain rfl := insertRunEvent_ok hthere (by exact hgid) (by rfl) (by rfl) hevent
  refine ⟨run, _, hmem, hgid, require_eq_ok.mp hmove,
    congrArg (fun runs => (⟨runs, _⟩ : RunStore)) hruns, hgid.symm, rfl, rfl, ?_, rfl, rfl⟩
  rw [← hs.lastSequenceNo_eq hmem, hgid]

theorem RunStore.Sound.advanced (h : s.Sound) (hrun : run ∈ s.runs) {target : Str} {now : ℤ}
    {payload : List (Str × Json)} (hmove : target ∈ runTransitions run.status)
    (hgid : e.runGid = run.gid) (htenant : e.tenantGid = run.tenantGid)
    (hproject : e.projectGid = run.projectGid)
    (hnumber : e.sequenceNo = (s.eventsOf run.gid).length + 1)
    (htype : e.eventType = "status_changed".toList)
    (hpayload : e.payload = eventPayload run.status target payload)
    (hfrom : Leaves payload "from".toList run.status) (hto : Leaves payload "to".toList target) :
    RunStore.Sound ⟨s.runs.map fun r => if r.gid = run.gid then run.moved target now else r,
      s.events ++ [e]⟩ where
  gids := by
    rw [List.map_map]
    have hsame : ∀ r ∈ s.runs, (OrchRun.gid ∘ fun r : OrchRun =>
        if r.gid = run.gid then run.moved target now else r) r = r.gid := by
      intro r hr
      rw [Function.comp_apply]
      split_ifs with heq
      · exact heq.symm
      · rfl
    rw [List.map_congr_left hsame]
    exact h.gids
  owned x hx := by
    obtain ⟨owner, howner, hrest⟩ : ∃ r ∈ s.runs,
        r.gid = x.runGid ∧ r.tenantGid = x.tenantGid ∧ r.projectGid = x.projectGid := by
      rcases List.mem_append.mp hx with hx | hx
      · exact h.owned x hx
      · obtain rfl := List.mem_singleton.mp hx
        exact ⟨run, hrun, hgid.symm, htenant.symm, hproject.symm⟩
    refine ⟨_, List.mem_map_of_mem howner, ?_⟩
    split_ifs with heq
    · obtain rfl := h.eq_of_gid howner hrun heq
      exact hrest
    · exact hrest
  logs row hrow := by
    obtain ⟨r, hr, rfl⟩ := List.mem_map.mp hrow
    rw [eventsOf_concat]
    by_cases heq : r.gid = run.gid
    · obtain rfl := h.eq_of_gid hr hrun heq
      rw [if_pos rfl]
      show LogAgrees (r.moved target now) (s.eventsOf r.gid ++ if e.runGid = r.gid then [e] else [])
      rw [if_pos hgid]
      obtain ⟨started, changes, hevents, hstarted, hreplay⟩ := (h.logs r hr).replay
      refine ⟨?_, ⟨started, changes ++ [e], ?_, hstarted, ?_⟩, ?_⟩
      · rw [List.map_append, (h.logs r hr).numbers, List.map_singleton, hnumber, List.length_append,
          List.length_singleton, List.range'_1_concat, Nat.add_comm 1]
      · rw [hevents, List.cons_append]
      · refine hreplay.concat htype ?_ ?_ hmove
        · rw [hpayload]
          exact lookup_upsertAll_of_leaves hfrom rfl
        · rw [hpayload]
          exact lookup_upsertAll_of_leaves hto rfl
      · show (if Terminal target then some now else none) ≠ none ↔ Terminal target
        split_ifs with hterminal <;> simp [hterminal]
    · rw [if_neg heq, if_neg fun hsame => heq (hsame.symm.trans hgid), List.append_nil]
      exact h.logs r hr

/-! ## Runs -/

/-- The payload of an advance does not name another status than the one that the run leaves or
enters. -/
def Honest (s : RunStore) : RuntimeCall → Prop
  | .start _ _ => True
  | .advance _ a => ∀ r ∈ s.runs, r.gid = a.runGid →
      Leaves a.payload "from".toList r.status ∧ Leaves a.payload "to".toList a.targetStatus

theorem next_cases (h : s.Sound) (call : RuntimeCall) : s.next call = s
    ∨ (∃ r e, s.next call = ⟨s.runs ++ [r], s.events ++ [e]⟩ ∧ (∀ row ∈ s.runs, row.gid ≠ r.gid)
      ∧ r.gid = e.runGid ∧ r.tenantGid = e.tenantGid ∧ r.projectGid = e.projectGid
      ∧ r.status = running ∧ r.finishedAt = none
      ∧ e.sequenceNo = 1 ∧ e.eventType = "started".toList)
    ∨ ∃ c a run e, call = .advance c a ∧ run ∈ s.runs ∧ run.gid = a.runGid
      ∧ a.targetStatus ∈ runTransitions run.status
      ∧ s.next call = ⟨s.runs.map fun r =>
          if r.gid = run.gid then run.moved a.targetStatus c.now else r, s.events ++ [e]⟩
      ∧ e.runGid = run.gid ∧ e.tenantGid = run.tenantGid ∧ e.projectGid = run.projectGid
      ∧ e.sequenceNo = (s.eventsOf run.gid).length + 1 ∧ e.eventType = "status_changed".toList
      ∧ e.payload = eventPayload run.status a.targetStatus a.payload := by
  cases call with
  | start c a =>
    rcases hresult : createRunWithStartedEvent c a s with error | ⟨s', gid⟩
    · exact Or.inl (by simp only [RunStore.next, hresult])
    · have hnext : s.next (.start c a) = s' := by simp only [RunStore.next, hresult]
      exact Or.inr (Or.inl (hnext ▸ createRunWithStartedEvent_ok hresult))
  | advance c a =>
    rcases hresult : transitionRunWithEvent c
        { a with itemGid := none, capabilityCallId := none, evidenceId := none } s
      with error | ⟨s', n⟩
    · exact Or.inl (by simp only [RunStore.next, hresult])
    · have hnext : s.next (.advance c a) = s' := by simp only [RunStore.next, hresult]
      obtain ⟨run, e, hrest⟩ := transitionRunWithEvent_ok h hresult
      exact Or.inr (Or.inr ⟨c, a, run, e, rfl, hnext ▸ hrest⟩)

theorem RunStore.Sound.next (h : s.Sound) {call : RuntimeCall} (hhonest : Honest s call) :
    (s.next call).Sound := by
  rcases next_cases h call with heq | ⟨r, e, heq, hnew, hrun, htenant, hproject, hstatus, hfinish,
    hnumber, htype⟩ | ⟨c, a, run, e, rfl, hrun, hgid, hmove, heq, he, htenant, hproject, hnumber,
    htype, hpayload⟩
  · rw [heq]
    exact h
  · rw [heq]
    exact h.started hnew hrun htenant hproject hstatus hfinish hnumber htype
  · rw [heq]
    obtain ⟨hfrom, hto⟩ := hhonest run hrun hgid
    exact h.advanced hrun hmove he htenant hproject hnumber htype hpayload hfrom hto

theorem runTransitions_of_terminal {status : Str} (h : Terminal status) :
    runTransitions status = [] := by
  rcases h with rfl | rfl <;> decide

/-- A run in a final status keeps its row and its log. -/
theorem RunStore.Sound.closed (h : s.Sound) (call : RuntimeCall) (hr : r ∈ s.runs)
    (hterminal : Terminal r.status) :
    r ∈ (s.next call).runs ∧ (s.next call).eventsOf r.gid = s.eventsOf r.gid := by
  rcases next_cases h call with heq | ⟨new, e, heq, hnew, hrun, -⟩ | ⟨c, a, run, e, -, hrun, -, hmove, heq, he, -⟩
  · rw [heq]
    exact ⟨hr, rfl⟩
  · have hother : e.runGid ≠ r.gid := fun hsame => hnew r hr (hsame.symm.trans hrun.symm)
    rw [heq, eventsOf_concat, if_neg hother, List.append_nil]
    exact ⟨List.mem_append_left _ hr, rfl⟩
  · have hother : r.gid ≠ run.gid := by
      intro hsame
      obtain rfl := h.eq_of_gid hr hrun hsame
      rw [runTransitions_of_terminal hterminal] at hmove
      cases hmove
    rw [heq, eventsOf_concat, if_neg fun hsame => hother (hsame.symm.trans he), List.append_nil]
    exact ⟨List.mem_map.mpr ⟨r, hr, if_neg hother⟩, rfl⟩

def KeepsLogs (s : RunStore) : Prop :=
  ∀ r ∈ s.runs, LogAgrees r (s.eventsOf r.gid)
    ∧ (Terminal r.status → ∀ call, r ∈ (s.next call).runs
      ∧ (s.next call).eventsOf r.gid = s.eventsOf r.gid)

/-- **Honest payloads keep the logs**: in a run of calls whose advances name no other status, the log
of every run agrees with its row in every state. -/
theorem orchestration_logs_kept (calls : List RuntimeCall)
    (hhonest : ∀ past call, past ++ [call] <+: calls →
      Honest (Successive.after RunStore.next ⟨[], []⟩ past) call) :
    KeepsLogs (Successive.after RunStore.next ⟨[], []⟩ calls) := by
  have hempty : RunStore.Sound ⟨[], []⟩ :=
    ⟨List.nodup_nil, fun e he => absurd he List.not_mem_nil,
      fun r hr => absurd hr List.not_mem_nil⟩
  have hsound := Successive.after_invariant (I := RunStore.Sound) hempty
    (fun s call h hallowed => h.next hallowed) hhonest
  exact fun r hr => ⟨hsound.logs r hr, fun hterminal call => hsound.closed call hr hterminal⟩

/-! ## A payload with a status of its own -/

def ownTables : OrchTables where
  panoramas := [⟨"p".toList, "t".toList, "q".toList, "u".toList⟩]
  versions := [⟨"v".toList, "p".toList, "t".toList, "q".toList, "published".toList⟩]
  workspaces := []

/-- A start and an advance to `succeeded` with the given payload. -/
def succeedingCalls (payload : List (Str × Json)) : List RuntimeCall :=
  [.start ⟨ownTables, "r".toList, "e1".toList, 10⟩
      ⟨"p".toList, "v".toList, .obj [], "u".toList, some "t".toList, some "q".toList⟩,
    .advance ⟨ownTables, "r2".toList, "e2".toList, 20⟩
      ⟨"r".toList, succeeded, "u".toList, "user".toList, "u".toList, payload, none, none, none,
        some "t".toList, some "q".toList⟩]

theorem orchestration_logs_kept_reason :
    (Successive.after RunStore.next ⟨[], []⟩
        (succeedingCalls [("reason".toList, .str "done".toList)])).runs.map OrchRun.status = [succeeded]
      ∧ KeepsLogs (Successive.after RunStore.next ⟨[], []⟩
        (succeedingCalls [("reason".toList, .str "done".toList)])) := by
  refine ⟨by decide +kernel, orchestration_logs_kept _ ?_⟩
  refine Successive.forall_prefix_iff.mpr fun i hi => ?_
  match i, hi with
  | 0, _ => exact trivial
  | 1, _ =>
    intro r _ _
    constructor <;> intro v hv <;> simp at hv

/-- The row of the run is `succeeded`, and its log ends in `failed`. -/
theorem log_ends_elsewhere : ¬ ∀ calls, KeepsLogs (Successive.after RunStore.next ⟨[], []⟩ calls) := by
  intro hkeeps
  let s := Successive.after RunStore.next ⟨[], []⟩ (succeedingCalls [("to".toList, .str failed)])
  have hrow : s.runs.map (fun r => (r.gid, r.status)) = [("r".toList, succeeded)] := by decide +kernel
  have hlog : (s.eventsOf "r".toList).map (fun e =>
      (lookup Prod.fst "to".toList e.payload).bind fun entry => Json.asStr entry.2)
        = [none, some failed] := by decide +kernel
  obtain ⟨r, hr, hpair⟩ := List.mem_map.mp (hrow ▸ List.mem_singleton_self ("r".toList, succeeded))
  obtain ⟨hgid, hstatus⟩ := Prod.mk.inj hpair
  obtain ⟨started, changes, hevents, -, hreplay⟩ := (hkeeps _ r hr).1.replay
  rw [show r.gid = "r".toList from hgid] at hevents
  rw [hevents, List.map_cons, List.cons.injEq] at hlog
  obtain ⟨e, rest, rfl, hfailed, hrest⟩ := List.map_eq_cons_iff.mp hlog.2
  obtain rfl := List.map_eq_nil_iff.mp hrest
  cases hreplay with
  | cons _ _ hto _ hend =>
    cases hend
    rw [hto, show r.status = succeeded from hstatus] at hfailed
    exact absurd (Option.some.inj hfailed) (by decide)

end Ai00.Agent
