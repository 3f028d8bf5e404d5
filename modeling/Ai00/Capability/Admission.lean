import Ai00.Basic.Condition
import Ai00.Basic.Python

/-! # Bounded admission

`capability_v2/resource_budget.py`: leases, the admission controller and its counters. `acquire`
and `release` are coroutines of one event loop. A turn of a task runs it from one suspension to
the next; the lock of the controller's condition is a part of the state, so a task that does not
get it at once is in its queue. `asyncio.wait_for` awaits the wait in the calling task.

What a task does not control comes in with its turn: the memory pressure at the start of an
acquisition, whether the deadline has passed, and whether a wait ends by a notification, by
its timeout or by a cancellation.
-/

namespace Ai00.Capability

/-! ## Counters -/

/-- A `defaultdict(int)`. -/
abbrev Counts (K : Type) [DecidableEq K] := AList (fun _ : K => Int)

namespace Counts

variable {K : Type} [DecidableEq K]

def get (c : Counts K) (k : K) : Int := (c.lookup k).getD 0

/-- `counts[key] += 1`. -/
def increment (k : K) (c : Counts K) : Counts K := c.insert k (get c k + 1)

def decrement (k : K) (c : Counts K) : Counts K :=
  if get c k ≤ 1 then c.erase k else c.insert k (get c k - 1)

@[simp] theorem get_empty (k : K) : get (∅ : Counts K) k = 0 := rfl

theorem get_increment (c : Counts K) (k q : K) :
    get (increment k c) q = if q = k then get c k + 1 else get c q := by
  unfold increment get
  by_cases h : q = k
  · subst h
    simp
  · simp [h]

theorem get_decrement {c : Counts K} {k : K} (h : 1 ≤ get c k) (q : K) :
    get (decrement k c) q = if q = k then get c k - 1 else get c q := by
  unfold decrement
  by_cases hq : q = k
  · subst hq
    rw [if_pos rfl]
    split_ifs with hone
    · have hsame : get c q = 1 := by omega
      rw [hsame]
      simp [get]
    · simp [get]
  · rw [if_neg hq]
    split_ifs
    · simp [get, AList.lookup_erase_ne hq]
    · simp [get, hq]

end Counts

/-! ## Leases and the controller -/

inductive MemoryClass where
  | small
  | medium
  | large
  deriving DecidableEq

inductive PressureLevel where
  | normal
  | warning
  | constrained
  | rejectLarge
  | notReady
  deriving DecidableEq

/-- What admission reads of an `ExecutionBudget`. -/
structure ExecutionBudget where
  memoryClass : MemoryClass := .small
  maxParallelPerConsumer : Nat := 4
  maxParallelPerTenant : Nat := 32
  positive : 0 < maxParallelPerConsumer ∧ 0 < maxParallelPerTenant := by decide

/-- The arguments of `acquire`. -/
structure AcquireArgs where
  capabilityKey : Str
  tenantKey : Str
  consumerKey : Str
  budget : ExecutionBudget

/-- An `AdmissionLease`. The budget it was granted under is a ghost. -/
structure AdmissionLease where
  capabilityKey : Str
  tenantCounterKey : Str × Str
  consumerCounterKey : Str × Str
  budget : ExecutionBudget
  released : Bool := false

def AcquireArgs.lease (a : AcquireArgs) : AdmissionLease where
  capabilityKey := a.capabilityKey
  tenantCounterKey := (a.capabilityKey, a.tenantKey)
  consumerCounterKey := (a.capabilityKey, a.consumerKey)
  budget := a.budget

/-- The controller and the lease objects it has given out. -/
structure ResourceAdmissionController where
  tenantCounts : Counts (Str × Str) := ∅
  consumerCounts : Counts (Str × Str) := ∅
  capabilityCounts : Counts Str := ∅
  condition : Condition := {}
  leases : List AdmissionLease := []

/-- `AdmissionRejected`, without the waiting time. -/
inductive AdmissionRejected where
  | resourcePressure
  | capacityUnavailable (reason : String) (inFlight tenantInFlight consumerInFlight : Int)
      (tenantLimit consumerLimit : Nat)

inductive AdmissionOutcome where
  | granted (lease : Nat)
  | rejected (error : AdmissionRejected)
  | released
  | cancelled

inductive AdmissionCall where
  | acquire (level : PressureLevel) (args : AcquireArgs)
  | release (lease : Nat)

/-- How a wait ends. -/
inductive WakeUp where
  | notified
  | timedOut
  | cancelled

/-- Where a task is suspended. -/
inductive AdmissionTask where
  | created (call : AdmissionCall)
  | entering (call : AdmissionCall)
  | waiting (args : AcquireArgs)
  | reentering (args : AcquireArgs) (why : WakeUp)
  | finished (outcome : AdmissionOutcome)

/-! ## Turns -/

section

variable (i : Nat) (s : ResourceAdmissionController)

def tenantFull (a : AcquireArgs) : Prop :=
  a.budget.maxParallelPerTenant ≤ Counts.get s.tenantCounts a.lease.tenantCounterKey

def consumerFull (a : AcquireArgs) : Prop :=
  a.budget.maxParallelPerConsumer ≤ Counts.get s.consumerCounts a.lease.consumerCounterKey

instance (a : AcquireArgs) : Decidable (tenantFull s a) :=
  inferInstanceAs (Decidable (_ ≤ _))

instance (a : AcquireArgs) : Decidable (consumerFull s a) :=
  inferInstanceAs (Decidable (_ ≤ _))

def capacityFailure (a : AcquireArgs) : AdmissionRejected :=
  .capacityUnavailable
    (if tenantFull s a ∧ consumerFull s a then "tenant_and_consumer_limit"
      else if tenantFull s a then "tenant_limit"
      else if consumerFull s a then "consumer_limit"
      else "admission_wait_timeout")
    (Counts.get s.capabilityCounts a.capabilityKey)
    (Counts.get s.tenantCounts a.lease.tenantCounterKey)
    (Counts.get s.consumerCounts a.lease.consumerCounterKey)
    a.budget.maxParallelPerTenant a.budget.maxParallelPerConsumer

/-- Leaving `async with self._condition`. -/
def unlock : ResourceAdmissionController := { s with condition := s.condition.release }

/-- The `while` loop of `acquire` with the lock held, and what follows it. -/
def admitOrPark (a : AcquireArgs) (expired : Bool) : ResourceAdmissionController × AdmissionTask :=
  if tenantFull s a ∨ consumerFull s a then
    if expired then (unlock s, .finished (.rejected (capacityFailure s a)))
    else ({ s with condition := s.condition.park i }, .waiting a)
  else
    ({ unlock s with
        tenantCounts := Counts.increment a.lease.tenantCounterKey s.tenantCounts
        consumerCounts := Counts.increment a.lease.consumerCounterKey s.consumerCounts
        capabilityCounts := Counts.increment a.capabilityKey s.capabilityCounts
        leases := s.leases ++ [a.lease] },
      .finished (.granted s.leases.length))

/-- `wait_for` returns or raises, with the lock held. -/
def afterWait (a : AcquireArgs) (expired : Bool) :
    WakeUp → ResourceAdmissionController × AdmissionTask
  | .notified => admitOrPark i s a expired
  | .timedOut => (unlock s, .finished (.rejected (capacityFailure s a)))
  | .cancelled => (unlock s, .finished .cancelled)

/-- `_release` with the lock held, and the rest of `AdmissionLease.release`. -/
def giveBack (lease : Nat) : ResourceAdmissionController × AdmissionTask :=
  match s.leases[lease]? with
  | none => (unlock s, .finished .released)
  | some l =>
    let condition := s.condition.notifyAll
    ({ s with
        tenantCounts := Counts.decrement l.tenantCounterKey s.tenantCounts
        consumerCounts := Counts.decrement l.consumerCounterKey s.consumerCounts
        capabilityCounts := Counts.decrement l.capabilityKey s.capabilityCounts
        condition := condition.release
        leases := s.leases.set lease { l with released := true } },
      .finished .released)

def locked (expired : Bool) : AdmissionCall → ResourceAdmissionController × AdmissionTask
  | .acquire _ a => admitOrPark i s a expired
  | .release lease => giveBack s lease

/-- `async with self._condition`, from a task's start. -/
def enterLock (expired : Bool) (call : AdmissionCall) :
    ResourceAdmissionController × AdmissionTask :=
  match s.condition.tryAcquire with
  | some condition => locked i { s with condition } expired call
  | none => ({ s with condition := s.condition.enqueue i }, .entering call)

/-- The first turn of a call. -/
def start (expired : Bool) : AdmissionCall → ResourceAdmissionController × AdmissionTask
  | .acquire level a =>
    if level = .notReady ∨ (level = .rejectLarge ∧ a.budget.memoryClass = .large) then
      (s, .finished (.rejected .resourcePressure))
    else enterLock i s expired (.acquire level a)
  | .release lease =>
    if (s.leases[lease]?).all AdmissionLease.released then (s, .finished .released)
    else enterLock i s expired (.release lease)

/-- The turn after a wait: the lock is taken again first. -/
def wakeUp (a : AcquireArgs) (why : WakeUp) (expired : Bool) :
    ResourceAdmissionController × AdmissionTask :=
  match (s.condition.unpark i).tryAcquire with
  | some condition => afterWait i { s with condition } a expired why
  | none =>
    ({ s with condition := (s.condition.unpark i).enqueue i }, .reentering a why)

/-- A task cancelled while it takes the lock again: it tries once more, to raise with the lock. -/
def cancelReentry (a : AcquireArgs) : ResourceAdmissionController × AdmissionTask :=
  match (s.condition.leave i).tryAcquire with
  | some condition => afterWait i { s with condition } a false .cancelled
  | none => ({ s with condition := (s.condition.leave i).enqueue i }, .reentering a .cancelled)

end

/-! ## The event loop -/

structure AdmissionLoop where
  controller : ResourceAdmissionController := {}
  tasks : List AdmissionTask := []

/-- The loop after a turn of task `i`. -/
def AdmissionLoop.after (s : AdmissionLoop) (i : Nat)
    (turn : ResourceAdmissionController × AdmissionTask) : AdmissionLoop :=
  ⟨turn.1, s.tasks.set i turn.2⟩

inductive AdmissionStep (s : AdmissionLoop) : AdmissionLoop → Prop
  | call (call : AdmissionCall) :
      AdmissionStep s { s with tasks := s.tasks ++ [.created call] }
  | start (i : Nat) (call : AdmissionCall) (expired : Bool)
      (h : s.tasks[i]? = some (.created call)) :
      AdmissionStep s (s.after i (start i s.controller expired call))
  | cancelCreated (i : Nat) (call : AdmissionCall) (h : s.tasks[i]? = some (.created call)) :
      AdmissionStep s (s.after i (s.controller, .finished .cancelled))
  | enter (i : Nat) (call : AdmissionCall) (expired : Bool)
      (h : s.tasks[i]? = some (.entering call)) (hdone : ⟨i, true⟩ ∈ s.controller.condition.queue) :
      AdmissionStep s (s.after i (locked i
        { s.controller with condition := s.controller.condition.enter i } expired call))
  | cancelEntering (i : Nat) (call : AdmissionCall) (h : s.tasks[i]? = some (.entering call)) :
      AdmissionStep s (s.after i
        ({ s.controller with condition := s.controller.condition.leave i }, .finished .cancelled))
  | wake (i : Nat) (a : AcquireArgs) (why : WakeUp) (expired : Bool)
      (h : s.tasks[i]? = some (.waiting a))
      (hdone : why = .notified → ⟨i, true⟩ ∈ s.controller.condition.waiters) :
      AdmissionStep s (s.after i (wakeUp i s.controller a why expired))
  | reenter (i : Nat) (a : AcquireArgs) (why : WakeUp) (expired : Bool)
      (h : s.tasks[i]? = some (.reentering a why))
      (hdone : ⟨i, true⟩ ∈ s.controller.condition.queue) :
      AdmissionStep s (s.after i (afterWait i
        { s.controller with condition := s.controller.condition.enter i } a expired why))
  | cancelReentering (i : Nat) (a : AcquireArgs) (why : WakeUp)
      (h : s.tasks[i]? = some (.reentering a why)) :
      AdmissionStep s (s.after i (cancelReentry i s.controller a))

/-- The states that a loop reaches from an empty controller. -/
abbrev AdmissionReachable : AdmissionLoop → Prop :=
  Relation.ReflTransGen AdmissionStep {}

end Ai00.Capability
