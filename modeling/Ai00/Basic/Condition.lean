import Mathlib

/-! # Condition variables of an event loop

`asyncio.Condition` and the `asyncio.Lock` under it. Tasks of one event loop run one at a time,
each up to its next suspension. To acquire a lock suspends only when the lock is held or other
tasks are in its queue; to wait gives the lock back first and takes it again afterwards. So
where every task gives back the lock before it suspends, the lock is free whenever a task gets
its turn (`Idle`), no task ever enters the queue, and a critical section is one turn.

A waiting task is removed from a queue by its own turn, also when it is cancelled.
-/

namespace Ai00

/-- A task that waits for a future, and whether the future is done. -/
structure Waiter where
  task : Nat
  done : Bool := false

structure Condition where
  locked : Bool := false
  /-- The tasks that wait for the lock. -/
  queue : List Waiter := []
  /-- The tasks that wait to be notified. -/
  waiters : List Waiter := []

namespace Condition

/-- `Lock.acquire`, where it does not suspend. -/
def tryAcquire (c : Condition) : Option Condition :=
  if c.locked = false ∧ c.queue = [] then some { c with locked := true } else none

/-- `Lock.acquire`, where it suspends. -/
def enqueue (task : Nat) (c : Condition) : Condition := { c with queue := c.queue ++ [⟨task, false⟩] }

/-- `Lock._wake_up_first`. -/
def wakeUpFirst : List Waiter → List Waiter
  | [] => []
  | w :: ws => { w with done := true } :: ws

/-- `Lock.release`. -/
def release (c : Condition) : Condition :=
  { c with locked := false, queue := wakeUpFirst c.queue }

/-- The turn of a task that was in the queue and got the lock. -/
def enter (task : Nat) (c : Condition) : Condition :=
  { c with locked := true, queue := c.queue.filter (·.task ≠ task) }

/-- The turn of a task that was cancelled in the queue. -/
def leave (task : Nat) (c : Condition) : Condition :=
  let queue := c.queue.filter (·.task ≠ task)
  { c with queue := if c.locked then queue else wakeUpFirst queue }

/-- `Condition.wait`, up to its suspension. -/
def park (task : Nat) (c : Condition) : Condition :=
  let c := c.release
  { c with waiters := c.waiters ++ [⟨task, false⟩] }

/-- `Condition.wait`, from its suspension on to the lock. -/
def unpark (task : Nat) (c : Condition) : Condition :=
  { c with waiters := c.waiters.filter (·.task ≠ task) }

/-- `Condition.notify_all`. -/
def notifyAll (c : Condition) : Condition :=
  { c with waiters := c.waiters.map (fun w => { w with done := true }) }

/-! ## The lock between two turns -/

/-- Nobody holds the lock and nobody waits for it. -/
structure Idle (c : Condition) : Prop where
  free : c.locked = false
  empty : c.queue = []

/-- The running task holds the lock and nobody waits for it. -/
structure Held (c : Condition) : Prop where
  taken : c.locked = true
  empty : c.queue = []

variable {c : Condition}

theorem idle_default : Idle {} := ⟨rfl, rfl⟩

theorem Idle.tryAcquire (h : c.Idle) : c.tryAcquire = some { c with locked := true } :=
  if_pos ⟨h.free, h.empty⟩

theorem Idle.held (h : c.Idle) : Held { c with locked := true } := ⟨rfl, h.empty⟩

theorem Held.release (h : c.Held) : c.release.Idle :=
  ⟨rfl, by simp [Condition.release, h.empty, wakeUpFirst]⟩

theorem Held.notifyAll (h : c.Held) : c.notifyAll.Held := ⟨h.taken, h.empty⟩

theorem Held.park (h : c.Held) (task : Nat) : (c.park task).Idle := ⟨rfl, h.release.empty⟩

theorem Idle.unpark (h : c.Idle) (task : Nat) : (c.unpark task).Idle := ⟨h.free, h.empty⟩

end Condition

end Ai00
