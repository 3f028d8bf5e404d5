import Ai00.Capability.Admission

/-! # The admission counters count the live leases

Over every interleaving of acquisitions, releases and cancellations. Every turn finds the lock
free and leaves it free (`Turn`), so the check of `released`, the decrements and the mark of one
release are in one turn, and two releases of one lease do not both decrement.
-/

namespace Ai00.Capability

/-! ## Live leases -/

section

variable {K : Type} [DecidableEq K]

/-- The live leases that hold the key `k`. -/
def liveCount (key : AdmissionLease → K) (k : K) (leases : List AdmissionLease) : Nat :=
  leases.countP (fun l => !l.released && decide (key l = k))

def Counted (key : AdmissionLease → K) (counts : Counts K) (leases : List AdmissionLease) : Prop :=
  ∀ k, Counts.get counts k = liveCount key k leases

/-- Every live lease finds at most `cap` live leases of its key up to itself. -/
def Within (key : AdmissionLease → K) (cap : AdmissionLease → Nat) (leases : List AdmissionLease) :
    Prop :=
  ∀ j l, leases[j]? = some l → l.released = false →
    liveCount key (key l) (leases.take (j + 1)) ≤ cap l

variable {key : AdmissionLease → K} {counts : Counts K} {leases : List AdmissionLease}

theorem liveCount_grant (k : K) (l : AdmissionLease) (hl : l.released = false) :
    liveCount key k (leases ++ [l]) = liveCount key k leases + if key l = k then 1 else 0 := by
  unfold liveCount
  rw [List.countP_append, List.countP_singleton]
  simp [hl]

variable {l : AdmissionLease}

variable {l' : AdmissionLease}

theorem liveCount_release {i : Nat} (hi : leases[i]? = some l)
    (hl : l.released = false) (hl' : l'.released = true) (k : K) :
    liveCount key k leases = liveCount key k (leases.set i l') + if key l = k then 1 else 0 := by
  induction leases generalizing i with
  | nil => simp at hi
  | cons a leases ih =>
    cases i with
    | zero =>
      have ha : a = l := by simpa using hi
      simp [liveCount, List.countP_cons, ha, hl, hl']
    | succ i =>
      have hrest := ih (by simpa using hi)
      unfold liveCount at hrest ⊢
      rw [List.set_cons_succ, List.countP_cons, List.countP_cons, hrest]
      omega

theorem liveCount_release_le {i : Nat} (hi : leases[i]? = some l)
    (hl' : l'.released = true) (k : K) :
    liveCount key k (leases.set i l') ≤ liveCount key k leases := by
  induction leases generalizing i with
  | nil => simp
  | cons a leases ih =>
    cases i with
    | zero => simp [liveCount, List.countP_cons, hl']
    | succ i =>
      have hrest := ih (by simpa using hi)
      unfold liveCount at hrest ⊢
      rw [List.set_cons_succ, List.countP_cons, List.countP_cons]
      omega

theorem Counted.grant (h : Counted key counts leases)
    (hl : l.released = false) :
    Counted key (Counts.increment (key l) counts) (leases ++ [l]) := by
  intro k
  rw [Counts.get_increment, liveCount_grant k l hl]
  by_cases hk : k = key l
  · subst hk
    rw [if_pos rfl, if_pos rfl, h (key l)]
    rfl
  · rw [if_neg hk, if_neg (Ne.symm hk), h k]
    rfl

theorem Counted.release (h : Counted key counts leases) {i : Nat}
    (hi : leases[i]? = some l) (hl : l.released = false)
    (hl' : l'.released = true) :
    Counted key (Counts.decrement (key l) counts) (leases.set i l') := by
  have hcount : ∀ k, liveCount key k leases = _ := liveCount_release hi hl hl'
  have hone : 1 ≤ Counts.get counts (key l) := by
    have hself := hcount (key l)
    rw [if_pos rfl] at hself
    rw [h (key l), hself]
    omega
  intro k
  rw [Counts.get_decrement hone]
  have hk := hcount k
  by_cases hkey : k = key l
  · subst hkey
    rw [if_pos rfl] at hk
    rw [if_pos rfl, h (key l), hk]
    omega
  · rw [if_neg (Ne.symm hkey)] at hk
    rw [if_neg hkey, h k, hk]
    rfl

variable {cap : AdmissionLease → Nat}

theorem Within.grant (h : Within key cap leases)
    (hl : l.released = false)
    (hroom : liveCount key (key l) leases < cap l) : Within key cap (leases ++ [l]) := by
  intro j l₁ hj hlive
  rcases Nat.lt_or_ge j leases.length with hlt | hge
  · rw [List.getElem?_append_left hlt] at hj
    rw [List.take_append_of_le_length (by omega)]
    exact h j l₁ hj hlive
  · have hlen : j < (leases ++ [l]).length := by
      by_contra hno
      rw [List.getElem?_eq_none (by omega)] at hj
      cases hj
    have hj' : j = leases.length := by simp at hlen; omega
    subst hj'
    have hsame : l₁ = l := by simpa using hj.symm
    rw [hsame, List.take_of_length_le (by simp), liveCount_grant _ _ hl, if_pos rfl]
    omega

theorem Within.release (h : Within key cap leases) {i : Nat}
    {l l' : AdmissionLease} (hi : leases[i]? = some l) (hl' : l'.released = true) :
    Within key cap (leases.set i l') := by
  intro j l₁ hj hlive
  have hne : i ≠ j := by
    rintro rfl
    have hlt : i < leases.length := (List.getElem?_eq_some_iff.mp hi).1
    rw [List.getElem?_set_self hlt] at hj
    rw [← Option.some.inj hj, hl'] at hlive
    cases hlive
  rw [List.getElem?_set_ne hne] at hj
  refine le_trans ?_ (h j l₁ hj hlive)
  rw [List.take_set]
  by_cases hij : i < j + 1
  · exact liveCount_release_le (by rw [List.getElem?_take_of_lt hij]; exact hi) hl' _
  · rw [List.set_eq_of_length_le (by simp; omega)]

theorem Within.le (h : Within key cap leases) (k : K) : liveCount key k leases = 0
      ∨ ∃ l ∈ leases, l.released = false ∧ key l = k ∧ liveCount key k leases ≤ cap l := by
  -- the last live lease of the key has all the others before it
  induction leases using List.reverseRecOn with
  | nil => exact Or.inl rfl
  | append_singleton leases l ih =>
    have hfront : Within key cap leases := by
      intro j l₁ hj hlive
      have hlt : j < leases.length := (List.getElem?_eq_some_iff.mp hj).1
      have hall := h j l₁ (by rw [List.getElem?_append_left hlt, hj]) hlive
      rwa [List.take_append_of_le_length (by omega)] at hall
    by_cases hlast : l.released = false ∧ key l = k
    · refine Or.inr ⟨l, by simp, hlast.1, hlast.2, ?_⟩
      have hall := h leases.length l (by simp) hlast.1
      rwa [List.take_of_length_le (by simp), hlast.2] at hall
    · have hsame : liveCount key k (leases ++ [l]) = liveCount key k leases := by
        unfold liveCount
        rw [List.countP_append, List.countP_singleton, if_neg (by simpa using hlast)]
        rfl
      rw [hsame]
      rcases ih hfront with hzero | ⟨l₁, hmem, hlive, hkey, hle⟩
      · exact Or.inl hzero
      · exact Or.inr ⟨l₁, List.mem_append_left _ hmem, hlive, hkey, hle⟩

end

/-! ## One turn -/

/-- The counters count the live leases, and these are within their budgets. -/
structure Balanced (s : ResourceAdmissionController) : Prop where
  tenant : Counted AdmissionLease.tenantCounterKey s.tenantCounts s.leases
  consumer : Counted AdmissionLease.consumerCounterKey s.consumerCounts s.leases
  capability : Counted AdmissionLease.capabilityKey s.capabilityCounts s.leases
  tenantCap : Within AdmissionLease.tenantCounterKey
    (fun l => l.budget.maxParallelPerTenant) s.leases
  consumerCap : Within AdmissionLease.consumerCounterKey
    (fun l => l.budget.maxParallelPerConsumer) s.leases

/-- The task does not wait for the lock. -/
def AdmissionTask.Clear : AdmissionTask → Prop
  | .entering _ => False
  | .reentering _ _ => False
  | _ => True

/-- A turn that leaves the counters balanced and the lock free. -/
structure Turn (t : ResourceAdmissionController × AdmissionTask) : Prop where
  balanced : Balanced t.1
  idle : t.1.condition.Idle
  clear : t.2.Clear

section

variable {s : ResourceAdmissionController} {i : Nat}

theorem Balanced.withCondition (h : Balanced s) (condition : Condition) :
    Balanced { s with condition } := ⟨h.1, h.2, h.3, h.4, h.5⟩

theorem turn_unlock (h : Balanced s) (hheld : s.condition.Held) (outcome : AdmissionOutcome) :
    Turn (unlock s, .finished outcome) :=
  ⟨h.withCondition _, hheld.release, trivial⟩

/-- **Admission.** A lease is granted only below both limits. -/
theorem turn_admit (h : Balanced s) (hheld : s.condition.Held) (a : AcquireArgs)
    (expired : Bool) : Turn (admitOrPark i s a expired) := by
  unfold admitOrPark
  by_cases hfull : tenantFull s a ∨ consumerFull s a
  · rw [if_pos hfull]
    cases expired with
    | true => exact turn_unlock h hheld _
    | false => exact ⟨h.withCondition _, hheld.park i, trivial⟩
  · rw [if_neg hfull]
    rw [not_or, tenantFull, consumerFull, not_le, not_le] at hfull
    have hlive : a.lease.released = false := rfl
    have htenant : liveCount AdmissionLease.tenantCounterKey a.lease.tenantCounterKey s.leases
        < a.budget.maxParallelPerTenant := by
      have hcount := h.tenant a.lease.tenantCounterKey
      omega
    have hconsumer : liveCount AdmissionLease.consumerCounterKey a.lease.consumerCounterKey
        s.leases < a.budget.maxParallelPerConsumer := by
      have hcount := h.consumer a.lease.consumerCounterKey
      omega
    exact ⟨⟨h.tenant.grant hlive, h.consumer.grant hlive, h.capability.grant hlive,
      h.tenantCap.grant hlive htenant, h.consumerCap.grant hlive hconsumer⟩,
      hheld.release, trivial⟩

/-- **A release.** The lease it gives back is live. -/
theorem turn_giveBack (h : Balanced s) (hheld : s.condition.Held) {lease : Nat}
    (hlive : ∀ l, s.leases[lease]? = some l → l.released = false) :
    Turn (giveBack s lease) := by
  unfold giveBack
  split
  · exact turn_unlock h hheld _
  · rename_i l hl
    have hnow : l.released = false := hlive l hl
    exact ⟨⟨h.tenant.release hl hnow rfl, h.consumer.release hl hnow rfl,
      h.capability.release hl hnow rfl, h.tenantCap.release hl rfl, h.consumerCap.release hl rfl⟩,
      hheld.notifyAll.release, trivial⟩

theorem turn_afterWait (h : Balanced s) (hheld : s.condition.Held) (a : AcquireArgs)
    (expired : Bool) (why : WakeUp) : Turn (afterWait i s a expired why) := by
  cases why with
  | notified => exact turn_admit h hheld a expired
  | timedOut => exact turn_unlock h hheld _
  | cancelled => exact turn_unlock h hheld _

/-- What a call needs when it gets the lock. -/
def Ready (s : ResourceAdmissionController) : AdmissionCall → Prop
  | .acquire _ _ => True
  | .release lease => ∀ l, s.leases[lease]? = some l → l.released = false

theorem turn_enterLock (h : Balanced s) (hidle : s.condition.Idle) (expired : Bool)
    {call : AdmissionCall} (hready : Ready s call) : Turn (enterLock i s expired call) := by
  unfold enterLock
  rw [hidle.tryAcquire]
  cases call with
  | acquire level a => exact turn_admit (h.withCondition _) hidle.held a expired
  | release lease => exact turn_giveBack (h.withCondition _) hidle.held hready

/-- **A first turn.** -/
theorem turn_start (h : Balanced s) (hidle : s.condition.Idle) (expired : Bool)
    (call : AdmissionCall) : Turn (start i s expired call) := by
  cases call with
  | acquire level a =>
    rw [start]
    split_ifs
    · exact ⟨h, hidle, trivial⟩
    · exact turn_enterLock h hidle expired trivial
  | release lease =>
    rw [start]
    by_cases hreleased : (s.leases[lease]?).all AdmissionLease.released = true
    · rw [if_pos hreleased]
      exact ⟨h, hidle, trivial⟩
    · rw [if_neg hreleased]
      refine turn_enterLock h hidle expired (fun l hl => ?_)
      rw [hl] at hreleased
      simpa using hreleased

/-- **A turn after a wait.** -/
theorem turn_wakeUp (h : Balanced s) (hidle : s.condition.Idle) (a : AcquireArgs) (why : WakeUp)
    (expired : Bool) : Turn (wakeUp i s a why expired) := by
  unfold wakeUp
  rw [(hidle.unpark i).tryAcquire]
  exact turn_afterWait (h.withCondition _) (hidle.unpark i).held a expired why

end

/-! ## Every interleaving -/

/-- Between two turns. -/
structure Quiet (s : AdmissionLoop) : Prop where
  balanced : Balanced s.controller
  idle : s.controller.condition.Idle
  clear : ∀ t ∈ s.tasks, t.Clear

theorem quiet_empty : Quiet {} where
  balanced := ⟨fun _ => rfl, fun _ => rfl, fun _ => rfl, fun j l hj => by simp at hj, fun j l hj => by simp at hj⟩
  idle := Condition.idle_default
  clear := fun t ht => by cases ht

theorem Quiet.after {s : AdmissionLoop} (h : Quiet s) {i : Nat}
    {t : ResourceAdmissionController × AdmissionTask} (ht : Turn t) : Quiet (s.after i t) := by
  refine ⟨ht.balanced, ht.idle, fun task htask => ?_⟩
  rcases List.mem_or_eq_of_mem_set htask with hold | rfl
  · exact h.clear task hold
  · exact ht.clear

/-- **One step.** No task is ever in the queue of the lock, so only first turns and turns after
a wait take place. -/
theorem Quiet.step {s s' : AdmissionLoop} (h : Quiet s) (hs : AdmissionStep s s') : Quiet s' := by
  cases hs with
  | call call =>
    refine ⟨h.balanced, h.idle, fun t ht => ?_⟩
    rcases List.mem_append.mp ht with hold | hnew
    · exact h.clear t hold
    · rw [List.mem_singleton.mp hnew]
      trivial
  | start i call expired hi => exact h.after (turn_start h.balanced h.idle expired call)
  | cancelCreated i call hi => exact h.after ⟨h.balanced, h.idle, trivial⟩
  | wake i a why expired hi hdone => exact h.after (turn_wakeUp h.balanced h.idle a why expired)
  | enter i call expired hi hdone => exact (h.clear _ (List.mem_of_getElem? hi)).elim
  | cancelEntering i call hi => exact (h.clear _ (List.mem_of_getElem? hi)).elim
  | reenter i a why expired hi hdone => exact (h.clear _ (List.mem_of_getElem? hi)).elim
  | cancelReentering i a why hi => exact (h.clear _ (List.mem_of_getElem? hi)).elim

theorem quiet_of_reachable {s : AdmissionLoop} (h : AdmissionReachable s) : Quiet s := by
  induction h with
  | refl => exact quiet_empty
  | tail _ hs ih => exact ih.step hs

/-- A counter is zero or within the budget of a live lease that holds its key. -/
def CapHeld {K : Type} [DecidableEq K] (key : AdmissionLease → K) (cap : AdmissionLease → Nat)
    (counts : Counts K) (leases : List AdmissionLease) : Prop :=
  ∀ k, Counts.get counts k = 0 ∨ ∃ l ∈ leases, l.released = false ∧ key l = k
    ∧ Counts.get counts k ≤ cap l

theorem Counted.capHeld {K : Type} [DecidableEq K] {key : AdmissionLease → K}
    {cap : AdmissionLease → Nat} {counts : Counts K} {leases : List AdmissionLease}
    (h : Counted key counts leases) (hcap : Within key cap leases) :
    CapHeld key cap counts leases := by
  intro k
  rcases hcap.le k with hzero | ⟨l, hl, hlive, hkey, hle⟩
  · exact Or.inl (by rw [h k, hzero]; rfl)
  · exact Or.inr ⟨l, hl, hlive, hkey, by rw [h k]; omega⟩

theorem Counted.nonneg {K : Type} [DecidableEq K] {key : AdmissionLease → K} {counts : Counts K}
    {leases : List AdmissionLease} (h : Counted key counts leases) (k : K) :
    0 ≤ Counts.get counts k := by
  rw [h k]
  omega

/-- **Admission is exact.** Whatever calls are made, cancelled and repeated: each counter counts
the live leases of its key, none is negative, and none exceeds its budget's cap. -/
theorem admission_exact {s : AdmissionLoop} (h : AdmissionReachable s) :
    (Counted AdmissionLease.tenantCounterKey s.controller.tenantCounts s.controller.leases
      ∧ Counted AdmissionLease.consumerCounterKey s.controller.consumerCounts s.controller.leases
      ∧ Counted AdmissionLease.capabilityKey s.controller.capabilityCounts s.controller.leases)
    ∧ ((∀ k, 0 ≤ Counts.get s.controller.tenantCounts k)
      ∧ (∀ k, 0 ≤ Counts.get s.controller.consumerCounts k)
      ∧ ∀ k, 0 ≤ Counts.get s.controller.capabilityCounts k)
    ∧ CapHeld AdmissionLease.tenantCounterKey (fun l => l.budget.maxParallelPerTenant)
        s.controller.tenantCounts s.controller.leases
    ∧ CapHeld AdmissionLease.consumerCounterKey (fun l => l.budget.maxParallelPerConsumer)
        s.controller.consumerCounts s.controller.leases := by
  have hb := (quiet_of_reachable h).balanced
  exact ⟨⟨hb.tenant, hb.consumer, hb.capability⟩,
    ⟨hb.tenant.nonneg, hb.consumer.nonneg, hb.capability.nonneg⟩,
    hb.tenant.capHeld hb.tenantCap, hb.consumer.capHeld hb.consumerCap⟩

/-! ## Two releases of one lease -/

def sampleArgs : AcquireArgs := ⟨"craft.large@1".toList, "t1".toList, "c1".toList, {}⟩

/-- An acquisition, then two releases of the lease, all called at once. -/
def releaseRace : AdmissionLoop :=
  let s₁ : AdmissionLoop := ⟨{}, [.created (.acquire .normal sampleArgs),
    .created (.release 0), .created (.release 0)]⟩
  let s₂ := s₁.after 0 (start 0 s₁.controller false (.acquire .normal sampleArgs))
  let s₃ := s₂.after 1 (start 1 s₂.controller false (.release 0))
  s₃.after 2 (start 2 s₃.controller false (.release 0))

theorem releaseRace_reachable : AdmissionReachable releaseRace := by
  have hcalls : AdmissionReachable ⟨{}, [.created (.acquire .normal sampleArgs),
      .created (.release 0), .created (.release 0)]⟩ :=
    ((Relation.ReflTransGen.refl.tail (.call (.acquire .normal sampleArgs))).tail
      (.call (.release 0))).tail (.call (.release 0))
  exact ((hcalls.tail (.start 0 (.acquire .normal sampleArgs) false rfl)).tail
    (.start 1 (.release 0) false rfl)).tail (.start 2 (.release 0) false rfl)

theorem admission_exact_race :
    (releaseRace.controller.leases.map AdmissionLease.released = [true]
      ∧ Counts.get releaseRace.controller.capabilityCounts "craft.large@1".toList = 0)
    ∧ Counted AdmissionLease.capabilityKey releaseRace.controller.capabilityCounts
        releaseRace.controller.leases :=
  ⟨by decide +kernel, (admission_exact releaseRace_reachable).1.2.2⟩

end Ai00.Capability
