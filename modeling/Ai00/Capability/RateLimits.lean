import Ai00.Basic.KeyedRows
import Ai00.Basic.Python
import Ai00.Basic.SlidingWindow
import Ai00.Basic.Successive

/-! # The rate limiter in memory

`InMemoryRateLimiter` of `reliability.py`. For each scope it keeps the calls it has accepted, with
the instant and the cost of each, and accepts another one as long as those of the last
`window_seconds` stay within the limit (`accepts_iff`). A window is half open, as in the comparison of the code: a
call leaves it at the very instant at which it is `window_seconds` old.

Readings of the clock are exact numbers: taking whole seconds from a float loses nothing that the
comparison could see, as long as the reading is not negative and below 2⁵³.
-/

namespace Ai00.Capability

open KeyedRows SlidingWindow

/-! ## Data -/

/-- A call of `consume`, at an instant of the clock. -/
structure ConsumeCall where
  now : ℚ
  scope : Str
  cost : ℤ
deriving DecidableEq

def ConsumeCall.event (call : ConsumeCall) : SlidingWindow.Event ℚ := ⟨call.now, call.cost⟩

/-- An entry of `_usage`. -/
structure ScopeUsage where
  scope : Str
  events : List (SlidingWindow.Event ℚ)

structure InMemoryRateLimiter where
  limit : ℤ
  windowSeconds : ℤ
  usage : List ScopeUsage

namespace InMemoryRateLimiter

/-! ## `consume` -/

section

variable (limiter : InMemoryRateLimiter)

/-- `self._usage.setdefault(scope, deque())`. -/
def events (scope : Str) : List (SlidingWindow.Event ℚ) :=
  ((lookup ScopeUsage.scope scope limiter.usage).map ScopeUsage.events).getD []

def setEvents (scope : Str) (events : List (SlidingWindow.Event ℚ)) : InMemoryRateLimiter :=
  { limiter with usage := upsert ScopeUsage.scope ⟨scope, events⟩ limiter.usage }

/-- What a call at an instant finds in its scope, once the old events are gone. -/
def counted (scope : Str) (now : ℚ) : List (SlidingWindow.Event ℚ) :=
  expire (now - limiter.windowSeconds) (limiter.events scope)

def consume (call : ConsumeCall) : Bool × InMemoryRateLimiter :=
  let events := limiter.counted call.scope call.now
  if limiter.limit < total events + call.cost then (false, limiter.setEvents call.scope events)
  else (true, limiter.setEvents call.scope (events ++ [call.event]))

def next (call : ConsumeCall) : InMemoryRateLimiter := (limiter.consume call).2

/-- `InMemoryRateLimiter(limit=..., window_seconds=...)`. -/
def start (limit windowSeconds : ℤ) : InMemoryRateLimiter := ⟨limit, windowSeconds, []⟩

end

def accepted (limiter : InMemoryRateLimiter) : List ConsumeCall → List ConsumeCall
  | [] => []
  | call :: calls =>
    if (limiter.consume call).1 then call :: accepted (limiter.next call) calls
    else accepted (limiter.next call) calls

def eventsOf (scope : Str) (calls : List ConsumeCall) : List (SlidingWindow.Event ℚ) :=
  (calls.filter fun call => call.scope = scope).map ConsumeCall.event

/-- A window holds nothing, or no more than the limit. -/
def WithinLimit (limit : ℤ) (events : List (SlidingWindow.Event ℚ)) : Prop := events = [] ∨ total events ≤ limit

variable {limiter : InMemoryRateLimiter} {call : ConsumeCall} {scope : Str} {past : List ConsumeCall} {now : ℚ}

theorem events_setEvents {other : Str} {events : List (SlidingWindow.Event ℚ)} :
    (limiter.setEvents scope events).events other = if scope = other then events else limiter.events other := by
  rw [InMemoryRateLimiter.events, setEvents, lookup_upsert]
  split_ifs <;> rfl

theorem eventsOf_append (calls more : List ConsumeCall) :
    eventsOf scope (calls ++ more) = eventsOf scope calls ++ eventsOf scope more := by
  rw [eventsOf, List.filter_append, List.map_append]
  rfl

theorem eventsOf_singleton : eventsOf scope [call] = if call.scope = scope then [call.event] else [] := by
  rw [eventsOf, List.filter_singleton]
  split_ifs with h <;> simp [h]

/-- What a call does: it is refused and only forgets, or it is accepted and fits. -/
theorem consume_cases (limiter : InMemoryRateLimiter) (call : ConsumeCall) :
    ((limiter.consume call).1 = false
        ∧ limiter.next call = limiter.setEvents call.scope (limiter.counted call.scope call.now))
      ∨ ((limiter.consume call).1 = true ∧ total (limiter.counted call.scope call.now) + call.cost ≤ limiter.limit
        ∧ limiter.next call
          = limiter.setEvents call.scope (limiter.counted call.scope call.now ++ [call.event])) := by
  by_cases hover : limiter.limit < total (limiter.counted call.scope call.now) + call.cost
  · have hconsume : limiter.consume call
        = (false, limiter.setEvents call.scope (limiter.counted call.scope call.now)) := if_pos hover
    exact Or.inl ⟨congrArg Prod.fst hconsume, congrArg Prod.snd hconsume⟩
  · have hconsume : limiter.consume call = (true,
        limiter.setEvents call.scope (limiter.counted call.scope call.now ++ [call.event])) := if_neg hover
    exact Or.inr ⟨congrArg Prod.fst hconsume, not_lt.mp hover, congrArg Prod.snd hconsume⟩

theorem next_limit : (limiter.next call).limit = limiter.limit
    ∧ (limiter.next call).windowSeconds = limiter.windowSeconds := by
  rcases limiter.consume_cases call with ⟨-, hnext⟩ | ⟨-, -, hnext⟩ <;> rw [hnext] <;> exact ⟨rfl, rfl⟩

theorem consume_iff : (limiter.consume call).1 = true
    ↔ total (limiter.counted call.scope call.now) + call.cost ≤ limiter.limit := by
  rw [← not_lt, consume]
  split_ifs with hover <;> simp [hover]

/-- **A refused call leaves what any later call counts.** -/
theorem counted_of_refused (hrefused : (limiter.consume call).1 = false) (hlater : call.now ≤ now) :
    (limiter.next call).counted scope now = limiter.counted scope now := by
  rcases limiter.consume_cases call with ⟨-, hnext⟩ | ⟨hyes, -, -⟩
  · rw [counted, next_limit.2, hnext, events_setEvents]
    split_ifs with hscope
    · rw [counted, hscope, expire_expire (sub_le_sub_right hlater _), counted]
    · rfl
  · rw [hrefused] at hyes
    cases hyes

/-! ## The invariant -/

/-- What the limiter holds after the calls that it has accepted, the last call being at `now`. -/
structure Tracks (limiter : InMemoryRateLimiter) (past : List ConsumeCall) (now : ℚ) : Prop where
  costs : ∀ call ∈ past, 0 ≤ call.cost
  retains : ∀ scope, Retains (now - limiter.windowSeconds) (eventsOf scope past) (limiter.events scope)
  bounded : ∀ scope (window : ℚ → Prop) [DecidablePred window], Narrow (limiter.windowSeconds : ℚ) window →
    WithinLimit limiter.limit (within window (eventsOf scope past))

theorem tracks_start (limit windowSeconds : ℤ) (now : ℚ) : Tracks (start limit windowSeconds) [] now where
  costs := by simp
  retains _ := ⟨[], rfl, by simp⟩
  bounded _ _ _ _ := Or.inl rfl

theorem Tracks.costs_events (h : Tracks limiter past now) : ∀ e ∈ eventsOf scope past, 0 ≤ e.cost := by
  intro e he
  obtain ⟨call, hcall, rfl⟩ := List.mem_map.mp he
  exact h.costs call (List.mem_filter.mp hcall).1

theorem Tracks.refused (h : Tracks limiter past now) (hnow : now ≤ call.now)
    (hnext : limiter.next call = limiter.setEvents call.scope (limiter.counted call.scope call.now)) :
    Tracks (limiter.next call) past call.now where
  costs := h.costs
  retains scope := by
    have hle : now - limiter.windowSeconds ≤ call.now - limiter.windowSeconds := sub_le_sub_right hnow _
    rw [next_limit.2, hnext, events_setEvents]
    split_ifs with hscope
    · rw [← hscope]
      exact (h.retains call.scope).expire hle
    · exact (h.retains scope).mono hle
  bounded scope window _ hnarrow := by
    rw [next_limit.2] at hnarrow
    rw [next_limit.1]
    exact h.bounded scope window hnarrow

/-- **An accepted call fits into every window that it is in**: what the other calls of the window cost
is part of what was counted. -/
theorem Tracks.accepted (h : Tracks limiter past now) (hnow : now ≤ call.now) (hcost : 0 ≤ call.cost)
    (hfits : total (limiter.counted call.scope call.now) + call.cost ≤ limiter.limit)
    (hnext : limiter.next call
      = limiter.setEvents call.scope (limiter.counted call.scope call.now ++ [call.event])) :
    Tracks (limiter.next call) (past ++ [call]) call.now where
  costs c hc := by
    rcases List.mem_append.mp hc with hc | hc
    · exact h.costs c hc
    · rw [List.mem_singleton.mp hc]
      exact hcost
  retains scope := by
    have hle : now - limiter.windowSeconds ≤ call.now - limiter.windowSeconds := sub_le_sub_right hnow _
    rw [next_limit.2, hnext, events_setEvents, eventsOf_append, eventsOf_singleton]
    split_ifs with hscope
    · rw [← hscope]
      exact ((h.retains call.scope).expire hle).append call.event
    · rw [List.append_nil]
      exact (h.retains scope).mono hle
  bounded scope window _ hnarrow := by
    rw [next_limit.2] at hnarrow
    rw [next_limit.1, eventsOf_append, eventsOf_singleton, within, List.filter_append]
    by_cases hin : call.scope = scope ∧ window call.now
    · obtain ⟨hscope, hin⟩ := hin
      have hle : now - limiter.windowSeconds ≤ call.now - limiter.windowSeconds := sub_le_sub_right hnow _
      have hretains := (h.retains scope).expire hle
      have hothers := hretains.total_within_le h.costs_events (hnarrow.behind hin)
      have hself : ([call.event] : List (SlidingWindow.Event ℚ)).filter (fun e => window e.instant) = [call.event] := by
        rw [List.filter_singleton, decide_eq_true (show window call.event.instant from hin)]
        rfl
      rw [if_pos hscope, hself]
      refine Or.inr ?_
      rw [total_append]
      rw [counted, hscope] at hfits
      calc total (within window (eventsOf scope past)) + total [call.event]
          ≤ total (expire (call.now - limiter.windowSeconds) (limiter.events scope)) + total [call.event] := by
            omega
        _ = total (expire (call.now - limiter.windowSeconds) (limiter.events scope)) + call.cost := by
            simp [total, ConsumeCall.event]
        _ ≤ limiter.limit := hfits
    · have hout : (if call.scope = scope then [call.event] else []).filter
          (fun e : SlidingWindow.Event ℚ => window e.instant) = [] := by
        split_ifs with hscope
        · have hpast : decide (window call.event.instant) = false :=
            decide_eq_false fun hwindow => hin ⟨hscope, hwindow⟩
          rw [List.filter_singleton, hpast]
          rfl
        · rfl
      rw [hout, List.append_nil]
      exact h.bounded scope window hnarrow

theorem after_limit (calls : List ConsumeCall) : (Successive.after next limiter calls).limit = limiter.limit
    ∧ (Successive.after next limiter calls).windowSeconds = limiter.windowSeconds :=
  Successive.after_keeps (I := fun l : InMemoryRateLimiter => l.limit = limiter.limit
    ∧ l.windowSeconds = limiter.windowSeconds) ⟨rfl, rfl⟩ fun _ _ h => ⟨next_limit.1.trans h.1, next_limit.2.trans h.2⟩

theorem Tracks.after (h : Tracks limiter past now) (hclock : (now :: calls.map ConsumeCall.now).Pairwise (· ≤ ·))
    (hcosts : ∀ call ∈ calls, 0 ≤ call.cost) : ∃ last ∈ now :: calls.map ConsumeCall.now,
      Tracks (Successive.after next limiter calls) (past ++ limiter.accepted calls) last := by
  induction calls generalizing limiter past now with
  | nil => exact ⟨now, List.mem_cons_self, by rwa [InMemoryRateLimiter.accepted, List.append_nil]⟩
  | cons call calls ih =>
    obtain ⟨hfirst, hclock⟩ := List.pairwise_cons.mp hclock
    have hnow : now ≤ call.now := hfirst _ List.mem_cons_self
    obtain ⟨hcost, hcosts⟩ := List.forall_mem_cons.mp hcosts
    rw [Successive.after_cons, InMemoryRateLimiter.accepted]
    rcases limiter.consume_cases call with ⟨hno, hnext⟩ | ⟨hyes, hfits, hnext⟩
    · rw [hno, if_neg Bool.false_ne_true]
      obtain ⟨last, hlast, htracks⟩ := ih (h.refused hnow hnext) hclock hcosts
      exact ⟨last, List.mem_cons_of_mem _ hlast, htracks⟩
    · rw [hyes, if_pos rfl, List.append_cons]
      obtain ⟨last, hlast, htracks⟩ := ih (h.accepted hnow hcost hfits hnext) hclock hcosts
      exact ⟨last, List.mem_cons_of_mem _ hlast, htracks⟩

/-- **Over a run**, the accepted calls of every narrow window stay within the limit. -/
theorem Tracks.run {calls : List ConsumeCall} (h : Tracks limiter past now)
    (hclock : (now :: calls.map ConsumeCall.now).Pairwise (· ≤ ·)) (hcosts : ∀ call ∈ calls, 0 ≤ call.cost)
    (window : ℚ → Prop) [DecidablePred window] (hnarrow : Narrow (limiter.windowSeconds : ℚ) window) :
    WithinLimit limiter.limit (within window (eventsOf scope (past ++ limiter.accepted calls))) := by
  obtain ⟨last, -, htracks⟩ := h.after hclock hcosts
  rw [← (after_limit calls).2] at hnarrow
  rw [← (after_limit calls).1]
  exact htracks.bounded scope window hnarrow

/-! ## What the limiter promises -/

/-- **No window costs more than the limit, and a refused call costs nothing.** The clock does not go
back, and no call has a negative cost: the catalog has costs from one on. -/
theorem rate_limit_kept (limit windowSeconds : ℤ) {calls : List ConsumeCall}
    (hclock : (calls.map ConsumeCall.now).Pairwise (· ≤ ·)) (hcosts : ∀ call ∈ calls, 0 ≤ call.cost) :
    (∀ (scope : Str) (begin : ℚ),
        WithinLimit limit (within (fun x => begin ≤ x ∧ x < begin + windowSeconds)
          (eventsOf scope ((start limit windowSeconds).accepted calls)))
        ∧ WithinLimit limit (within (fun x => begin < x ∧ x ≤ begin + windowSeconds)
          (eventsOf scope ((start limit windowSeconds).accepted calls))))
      ∧ ∀ call : ConsumeCall,
        let limiter := Successive.after next (start limit windowSeconds) calls
        (limiter.consume call).1 = false → ∀ scope now, call.now ≤ now →
          (limiter.next call).counted scope now = limiter.counted scope now := by
  refine ⟨fun scope begin => ?_, ?_⟩
  · have hrun : ∀ (window : ℚ → Prop) [DecidablePred window], Narrow (windowSeconds : ℚ) window →
        WithinLimit limit (within window (eventsOf scope ((start limit windowSeconds).accepted calls))) := by
      intro window _ hnarrow
      cases calls with
      | nil => exact Or.inl rfl
      | cons call calls =>
        have hfrom : (call.now :: (call :: calls).map ConsumeCall.now).Pairwise (· ≤ ·) := by
          refine List.pairwise_cons.mpr ⟨fun x hx => ?_, hclock⟩
          rcases List.mem_cons.mp hx with rfl | hx
          · exact le_refl _
          · exact (List.pairwise_cons.mp hclock).1 x hx
        exact (tracks_start limit windowSeconds call.now).run hfrom hcosts window hnarrow
    exact ⟨hrun _ (narrow_Ico begin), hrun _ (narrow_Ioc begin)⟩
  · intro call limiter hrefused scope now hlater
    exact counted_of_refused hrefused hlater

/-- Three calls of a scope, the second of which is refused, and one of another scope. -/
def fourCalls : List ConsumeCall :=
  [⟨0, ['a'], 3⟩, ⟨59, ['a'], 3⟩, ⟨59, ['b'], 3⟩, ⟨60, ['a'], 3⟩]

theorem rate_limit_kept_fourCalls :
    (start 5 60).accepted fourCalls = [⟨0, ['a'], 3⟩, ⟨59, ['b'], 3⟩, ⟨60, ['a'], 3⟩]
      ∧ WithinLimit 5 (within (fun x => (0 : ℚ) ≤ x ∧ x < 0 + (60 : ℤ))
          (eventsOf ['a'] ((start 5 60).accepted fourCalls))) :=
  ⟨by decide +kernel, (@rate_limit_kept 5 60 fourCalls (by decide +kernel) (by decide)).1 ['a'] 0 |>.1⟩

theorem accepted_sublist : (limiter.accepted calls).Sublist calls := by
  induction calls generalizing limiter with
  | nil => exact .slnil
  | cons call calls ih =>
    rw [accepted]
    split_ifs
    · exact ih.cons_cons call
    · exact ih.cons call

/-- **A call is accepted exactly where it fits**: what was accepted of its scope in the window up to it, and the call
itself, cost no more than the limit. -/
theorem accepts_iff (limit windowSeconds : ℤ) {calls : List ConsumeCall} {call : ConsumeCall}
    (hclock : ((calls ++ [call]).map ConsumeCall.now).Pairwise (· ≤ ·)) (hcosts : ∀ call ∈ calls, 0 ≤ call.cost) :
    ((Successive.after next (start limit windowSeconds) calls).consume call).1 = true
      ↔ total (within (call.now - windowSeconds < ·)
          (eventsOf call.scope ((start limit windowSeconds).accepted calls))) + call.cost ≤ limit := by
  obtain ⟨first, hfirst⟩ := (List.finite_toSet ((calls ++ [call]).map ConsumeCall.now)).bddBelow
  rw [List.map_append] at hclock hfirst
  obtain ⟨hcalls, -, hlater⟩ := List.pairwise_append.mp hclock
  obtain ⟨last, hlast, htracks⟩ := (tracks_start limit windowSeconds first).after
    (List.pairwise_cons.mpr ⟨fun x hx => hfirst (List.mem_append_left _ hx), hcalls⟩) hcosts
  have hle : last ≤ call.now := by
    rcases List.mem_cons.mp hlast with rfl | hlast
    · exact hfirst (List.mem_append_right _ List.mem_cons_self)
    · exact hlater last hlast call.now List.mem_cons_self
  -- the accepted calls of a scope come in the order of the clock
  have hsorted : ((eventsOf call.scope ((start limit windowSeconds).accepted calls)).map
      SlidingWindow.Event.instant).Pairwise (· ≤ ·) := by
    refine hcalls.sublist ?_
    rw [eventsOf, List.map_map]
    exact (List.filter_sublist.trans accepted_sublist).map _
  have hlimit := @after_limit (start limit windowSeconds) calls
  have hretains := (htracks.retains call.scope).mono (sub_le_sub_right hle _)
  rw [List.nil_append, hlimit.2] at hretains
  rw [consume_iff, counted, hlimit.1, hlimit.2, hretains.expire_eq hsorted]
  rfl

theorem accepts_iff_fourCalls : ((Successive.after next (start 5 60) fourCalls).consume ⟨60, ['b'], 2⟩).1 = true :=
  (@accepts_iff 5 60 fourCalls ⟨60, ['b'], 2⟩ (by decide +kernel) (by decide)).mpr (by decide +kernel)

end InMemoryRateLimiter

end Ai00.Capability
