import Ai00.Connector.PlanLifecycle

/-! # The projection outbox and its workers

An outcome is stored together with the intent to project it. Workers claim an intent under a
lease, read the plan and its outcome, apply them through the projector and finish the claim, or
fail it; a stale lease is reclaimed while its worker may still run. A new outcome is refused while
its intent is being projected, so that a claim that is still on its row has the hash that is
stored on the plan.
-/

namespace Ai00.Connector

/-! ## The repository -/

/-- A claim, as the worker keeps it. -/
structure ProjectionLease where
  planId : String
  outcomeHash : String
  targetCapability : String
  attempt : Nat
  owner : String

/-- `status IN ('pending','retryable_failed')`. -/
def OutboxRow.waiting (o : OutboxRow) : Bool :=
  o.status == .pending || o.status == .retryableFailed

/-- The rows `claim_projection` selects; a worker may be bound to one plan. -/
def OutboxRow.claimable (o : OutboxRow) (only : Option String) (now : Ticks) : Bool :=
  o.waiting && o.nextRetryAt.all (fun t => decide (t ≤ now)) && only.all (· == o.planId)

/-- `ORDER BY created_at LIMIT 1`; among rows of one age the database may take any, `pick`. -/
def oldestClaimable (outbox : List OutboxRow) (only : Option String) (now : Ticks) (pick : Nat) :
    Option OutboxRow :=
  let claimable := outbox.filter (fun o => o.claimable only now)
  let oldest := claimable.filter
    (fun o => claimable.all (fun other => decide (o.createdAt ≤ other.createdAt)))
  oldest[pick % oldest.length]?

def claimProjection (outbox : List OutboxRow) (only : Option String) (owner : String)
    (leaseSeconds : Int) (now : Ticks) (pick : Nat) :
    Except String (List OutboxRow × Option ProjectionLease) := do
  unlessRaise (owner ≠ "") "projection_owner_required"
  let seconds := max 15 (min leaseSeconds 300)
  match oldestClaimable outbox only now pick with
  | none => return (outbox, none)
  | some row =>
    return (Rows.update
      (fun o => o.planId == row.planId && o.outcomeHash == row.outcomeHash
        && o.targetCapability == row.targetCapability && o.waiting)
      (fun o => { o with
        status := .projecting, leaseOwner := some owner
        leaseUntil := some (now + seconds * 10000000)
        attempt := o.attempt + 1, errorCode := none }) outbox,
      some ⟨row.planId, row.outcomeHash, row.targetCapability, row.attempt + 1, owner⟩)

/-- The claim of `owner` is on the row and its lease has not run out. -/
def OutboxRow.heldBy (o : OutboxRow) (planId owner : String) (now : Ticks) : Bool :=
  o.planId == planId && o.status == .projecting && o.leaseOwner == some owner
    && match o.leaseUntil with
      | some e => decide (now < e)
      | none => false

def readProjectionPayload (db : ServerDb) (lease : ProjectionLease) (now : Ticks) :
    Except String (PlanDocument × StoredOutcome) :=
  match db.plans.find? (fun p => p.planId == lease.planId && p.outcomeHash == some lease.outcomeHash
    && db.outbox.any (fun o => o.heldBy lease.planId lease.owner now
      && o.outcomeHash == lease.outcomeHash && o.targetCapability == lease.targetCapability)) with
  | none => .error "projection_lease_invalid"
  | some plan => match plan.outcome with
    | none => .error "TypeError"
    | some outcome => .ok (plan.document, outcome)

def updateOne (selects : OutboxRow → Bool) (change : OutboxRow → OutboxRow)
    (outbox : List OutboxRow) : Except String (List OutboxRow) := do
  unlessRaise (outbox.countP selects = 1) "projection_lease_invalid"
  return Rows.update selects change outbox

/-- `finish_projection`: it asks for the owner and the status, not for the hash. -/
def finishProjection (outbox : List OutboxRow) (planId owner : String) (now : Ticks) :
    Except String (List OutboxRow) :=
  updateOne (fun o => o.heldBy planId owner now)
    (fun o => { o with status := .projected, leaseOwner := none, leaseUntil := none }) outbox

def failProjection (outbox : List OutboxRow) (planId owner : String) (now : Ticks)
    (errorCode : String) (retryable : Bool) : Except String (List OutboxRow) :=
  updateOne (fun o => o.heldBy planId owner now)
    (fun o => { o with
      status := if retryable then .retryableFailed else .reconciliationRequired
      errorCode := some (String.ofList (errorCode.toList.take 128))
      leaseOwner := none, leaseUntil := none
      nextRetryAt := if retryable then some (now + 5 * 10000000) else none }) outbox

def reclaimStaleProjections (outbox : List OutboxRow) (only : Option String) (cutoff : Ticks) :
    List OutboxRow :=
  Rows.update
    (fun o => o.status == .projecting
      && (match o.leaseUntil with
        | some e => decide (e ≤ cutoff)
        | none => false)
      && only.all (· == o.planId))
    (fun o => { o with
      status := .retryableFailed, leaseOwner := none, leaseUntil := none
      nextRetryAt := some cutoff, errorCode := some "projection_lease_expired" }) outbox

/-! ## Workers -/

/-- Where a worker is in `run_once`, with the number of its claim. -/
inductive WorkerStage where
  | idle
  | reclaimed
  | claimed (ticket : Nat) (lease : ProjectionLease)
  | applying (ticket : Nat) (lease : ProjectionLease) (plan : PlanDocument)
      (outcome : StoredOutcome)
  | finishing (ticket : Nat) (lease : ProjectionLease)
  | failing (ticket : Nat) (lease : ProjectionLease) (code : String) (retryable : Bool)

def WorkerStage.work : WorkerStage → Option (Nat × ProjectionLease)
  | .idle | .reclaimed => none
  | .claimed t lease | .applying t lease _ _ | .finishing t lease | .failing t lease _ _ =>
    some (t, lease)

/-- What a worker's next call finds: the clock of the database, the bounds of its claim, and what
the payload's validation or the projector raises, with `retryable`. -/
structure WorkerInput where
  now : Ticks
  only : Option String := none
  leaseSeconds : Int := 60
  pick : Nat := 0
  raised : Option (String × Bool) := none

/-- The rows, the workers by their owner ids, and what happened: the claims in order, the last
claim of each plan, the plans and outcome hashes the projector succeeded for, and the claims that
were on a row when a worker finished it. -/
structure ProjectionWorld where
  db : ServerDb
  workers : String → WorkerStage := fun _ => .idle
  claims : List ProjectionLease := []
  holder : String → Option Nat := fun _ => none
  applied : List (String × String) := []
  finished : List (Option Nat × String) := []

namespace ProjectionWorld

variable (env : ServerEnv) (w : ProjectionWorld) (owner : String)

def withOutbox (outbox : List OutboxRow) : ProjectionWorld :=
  { w with db := { w.db with outbox := outbox } }

def goto (stage : WorkerStage) : ProjectionWorld :=
  { w with workers := Function.update w.workers owner stage }

theorem goto_self (stage : WorkerStage) : (w.goto owner stage).workers owner = stage :=
  Function.update_self ..

theorem goto_of_ne {other : String} (h : other ≠ owner) (stage : WorkerStage) :
    (w.goto owner stage).workers other = w.workers other := Function.update_of_ne h ..

/-- The next call of the worker `owner` in `run_once`. -/
def work (input : WorkerInput) : ProjectionWorld :=
  match w.workers owner with
  | .idle =>
    (w.withOutbox (reclaimStaleProjections w.db.outbox input.only input.now)).goto owner
      .reclaimed
  | .reclaimed =>
    match claimProjection w.db.outbox input.only owner input.leaseSeconds input.now
      input.pick with
    | .error _ => w.goto owner .idle
    | .ok (_, none) => w.goto owner .idle
    | .ok (outbox, some lease) =>
      ({ w.withOutbox outbox with
        claims := w.claims ++ [lease]
        holder := Function.update w.holder lease.planId (some w.claims.length) }).goto owner
          (.claimed w.claims.length lease)
  | .claimed t lease =>
    match readProjectionPayload w.db lease input.now, input.raised with
    | .error code, _ => w.goto owner (.failing t lease code true)
    | .ok _, some (code, retryable) => w.goto owner (.failing t lease code retryable)
    | .ok (plan, outcome), none =>
      if outcomeTarget plan.execution = lease.targetCapability then
        w.goto owner (.applying t lease plan outcome)
      else w.goto owner (.failing t lease "projection_target_mismatch" true)
  | .applying t lease _ outcome =>
    match input.raised with
    | some (code, retryable) => w.goto owner (.failing t lease code retryable)
    | none =>
      ({ w with applied := (lease.planId, env.sha256 (env.encode outcome)) :: w.applied }).goto
        owner (.finishing t lease)
  | .finishing _ lease =>
    match finishProjection w.db.outbox lease.planId lease.owner input.now with
    | .error _ => w.goto owner .idle
    | .ok outbox =>
      ({ w.withOutbox outbox with
        finished := (w.holder lease.planId, owner) :: w.finished }).goto owner .idle
  | .failing _ lease code retryable =>
    match failProjection w.db.outbox lease.planId lease.owner input.now code retryable with
    | .error _ => w.goto owner .idle
    | .ok outbox => (w.withOutbox outbox).goto owner .idle

end ProjectionWorld

/-- A transaction on the device, or the next call of a worker. -/
inductive ProjectionStep where
  | server (call : ServerCall)
  | worker (owner : String) (input : WorkerInput)

def ProjectionWorld.step (env : ServerEnv) (w : ProjectionWorld) : ProjectionStep → ProjectionWorld
  | .server call => { w with db := (w.db.after env call).1 }
  | .worker owner input => w.work env owner input

def ProjectionWorld.run (env : ServerEnv) (w : ProjectionWorld) (steps : List ProjectionStep) :
    ProjectionWorld :=
  steps.foldl (ProjectionWorld.step env) w

/-! ## What the calls do to the rows -/

/-- Each row keeps its plan and its hash, and is as it was or `Changed`. -/
structure OutboxChange (Changed : OutboxRow → Prop) (outbox next : List OutboxRow) : Prop where
  ids : next.map OutboxRow.planId = outbox.map OutboxRow.planId
  rows : ∀ o' ∈ next, ∃ o ∈ outbox, o.planId = o'.planId ∧ o.outcomeHash = o'.outcomeHash
    ∧ (o' = o ∨ Changed o')

section

variable {outbox next : List OutboxRow} {Changed : OutboxRow → Prop}

variable {change : OutboxRow → OutboxRow}

theorem outboxChange_update {selects : OutboxRow → Bool}
    (hid : ∀ o, (change o).planId = o.planId)
    (hhash : ∀ o, (change o).outcomeHash = o.outcomeHash)
    (hchanged : ∀ o ∈ outbox, selects o = true → Changed (change o)) :
    OutboxChange Changed outbox (Rows.update selects change outbox) := by
  constructor
  · rw [Rows.update, List.map_map]
    refine List.map_congr_left fun o _ => ?_
    rw [Function.comp_apply]
    split_ifs
    · exact hid o
    · rfl
  · intro o' ho'
    obtain ⟨o, ho, rfl⟩ := List.mem_map.mp ho'
    refine ⟨o, ho, ?_⟩
    split_ifs with hselects
    · exact ⟨(hid o).symm, (hhash o).symm, Or.inr (hchanged o ho hselects)⟩
    · exact ⟨rfl, rfl, Or.inl rfl⟩

theorem reclaim_change (only : Option String) (cutoff : Ticks) :
    OutboxChange (fun o => o.status = .retryableFailed) outbox
      (reclaimStaleProjections outbox only cutoff) :=
  outboxChange_update (fun _ => rfl) (fun _ => rfl) fun _ _ _ => rfl

theorem updateOne_eq_ok {selects : OutboxRow → Bool}
    (h : updateOne selects change outbox = .ok next) :
    (∃ o ∈ outbox, selects o = true) ∧ next = Rows.update selects change outbox := by
  obtain ⟨_, hone, h⟩ := bind_eq_ok.mp h
  cases h
  refine ⟨List.countP_pos_iff.mp ?_, rfl⟩
  rw [unlessRaise_eq_ok_iff.mp hone]
  exact Nat.one_pos

variable {now : Ticks}

theorem fail_change {planId owner code : String} {retryable : Bool}
    (h : failProjection outbox planId owner now code retryable = .ok next) :
    OutboxChange (fun o => o.status = .retryableFailed ∨ o.status = .reconciliationRequired)
      outbox next := by
  obtain ⟨-, rfl⟩ := updateOne_eq_ok h
  refine outboxChange_update (fun _ => rfl) (fun _ => rfl) fun _ _ _ => ?_
  cases retryable with
  | true => exact Or.inl rfl
  | false => exact Or.inr rfl

theorem heldBy_iff {o : OutboxRow} {planId owner : String}
    (h : o.heldBy planId owner now = true) :
    o.planId = planId ∧ o.status = .projecting ∧ o.leaseOwner = some owner := by
  simp only [OutboxRow.heldBy, Bool.and_eq_true, beq_iff_eq] at h
  exact ⟨h.1.1.1, h.1.1.2, h.1.2⟩

theorem finish_change {planId owner : String}
    (h : finishProjection outbox planId owner now = .ok next) :
    (∃ o ∈ outbox, o.planId = planId ∧ o.status = .projecting ∧ o.leaseOwner = some owner)
      ∧ OutboxChange (fun o => o.status = .projected ∧ ∃ held ∈ outbox, held.planId = planId
        ∧ held.status = .projecting ∧ held.leaseOwner = some owner ∧ held.planId = o.planId
        ∧ held.outcomeHash = o.outcomeHash) outbox next := by
  obtain ⟨⟨o, ho, hheld⟩, rfl⟩ := updateOne_eq_ok h
  refine ⟨⟨o, ho, heldBy_iff hheld⟩, outboxChange_update (fun _ => rfl) (fun _ => rfl) ?_⟩
  intro held hin hselects
  obtain ⟨hid, hstatus, howner⟩ := heldBy_iff hselects
  exact ⟨rfl, held, hin, hid, hstatus, howner, rfl, rfl⟩

theorem claim_change {only : Option String} {owner : String} {leaseSeconds : Int}
    {pick : Nat} {lease : ProjectionLease}
    (h : claimProjection outbox only owner leaseSeconds now pick = .ok (next, some lease)) :
    lease.owner = owner ∧ OutboxChange (fun o => o.status = .projecting ∧ o.leaseOwner = some owner) outbox next
      ∧ ∃ o ∈ next, o.planId = lease.planId ∧ o.outcomeHash = lease.outcomeHash
        ∧ o.status = .projecting ∧ o.leaseOwner = some owner := by
  obtain ⟨_, -, h⟩ := bind_eq_ok.mp h
  dsimp only at h
  split at h
  · cases h
  · rename_i row hrow
    cases h
    refine ⟨rfl, outboxChange_update (fun _ => rfl) (fun _ => rfl) fun _ _ _ => ⟨rfl, rfl⟩, ?_⟩
    have hmem := List.mem_of_getElem? hrow
    obtain ⟨hin, hclaimable⟩ := List.mem_filter.mp (List.mem_filter.mp hmem).1
    simp only [OutboxRow.claimable, Bool.and_eq_true] at hclaimable
    refine ⟨_, List.mem_map_of_mem hin, ?_⟩
    rw [if_pos (by simp [hclaimable.1.1])]
    exact ⟨rfl, rfl, rfl, rfl⟩

/-- A new intent waits with the new hash; the rows of other plans stay. -/
theorem projectionIntent_spec {plan : PlanDocument} {planId digest : String}
    (hids : (outbox.map OutboxRow.planId).Nodup)
    (h : projectionIntent outbox plan planId digest now = .ok next) :
    (next.map OutboxRow.planId).Nodup ∧ ∀ o ∈ next, (o ∈ outbox ∧ o.planId ≠ planId)
      ∨ (o.planId = planId ∧ o.outcomeHash = digest ∧ o.status = .pending) := by
  unfold projectionIntent at h
  split at h
  · obtain ⟨_, -, h⟩ := bind_eq_ok.mp h
    obtain ⟨_, -, h⟩ := bind_eq_ok.mp h
    cases h
    constructor
    · have hsame : (Rows.update (fun o => o.planId == planId) (fun o => { o with
          outcomeHash := digest, targetCapability := outcomeTarget plan.execution
          status := .pending, attempt := 0, nextRetryAt := some now, leaseOwner := none
          leaseUntil := none }) outbox).map OutboxRow.planId = outbox.map OutboxRow.planId := by
        rw [Rows.update, List.map_map]
        refine List.map_congr_left fun o _ => ?_
        rw [Function.comp_apply]
        split_ifs <;> rfl
      exact hsame ▸ hids
    · intro o ho
      obtain ⟨o', ho', rfl⟩ := List.mem_map.mp ho
      by_cases hid : o'.planId = planId
      · rw [if_pos (by simp [hid])]
        exact Or.inr ⟨hid, rfl, rfl⟩
      · rw [if_neg (by simp [hid])]
        exact Or.inl ⟨ho', hid⟩
  · rename_i hnone
    have hother : ∀ o ∈ outbox, o.planId ≠ planId := by
      intro o ho
      simpa using List.find?_eq_none.mp hnone o ho
    cases h
    split_ifs
    · exact ⟨hids, fun o ho => Or.inl ⟨ho, hother o ho⟩⟩
    · constructor
      · refine Rows.nodup_map_concat hids fun hmem => ?_
        obtain ⟨o, ho, hsame⟩ := List.mem_map.mp hmem
        exact hother o ho hsame
      · intro o ho
        rcases List.mem_append.mp ho with ho | ho
        · exact Or.inl ⟨ho, hother o ho⟩
        · rw [List.mem_singleton] at ho
          exact Or.inr (ho ▸ ⟨rfl, rfl, rfl⟩)

end

/-! ## The invariant -/

/-- What holds while `owner` is on the claim `t`: the claim is its own and unfinished, and when it
is still on the row of its plan, it is the plan's last and has the row's hash. -/
structure Working (w : ProjectionWorld) (owner : String) (t : Nat) (lease : ProjectionLease) :
    Prop where
  claim : w.claims[t]? = some lease
  own : lease.owner = owner
  unfinished : some t ∉ w.finished.map Prod.fst
  held : ∀ o ∈ w.db.outbox, o.planId = lease.planId → o.status = .projecting →
    o.leaseOwner = some owner → o.outcomeHash = lease.outcomeHash ∧ w.holder o.planId = some t

def StageSafe (env : ServerEnv) (applied : List (String × String)) : WorkerStage → Prop
  | .applying _ lease _ outcome => env.sha256 (env.encode outcome) = lease.outcomeHash
  | .finishing _ lease => (lease.planId, lease.outcomeHash) ∈ applied
  | _ => True

/-- **The invariant.** -/
structure ProjectionSafe (env : ServerEnv) (w : ProjectionWorld) : Prop where
  lifecycle : ∃ log, Lifecycle w.db log
  stored : ∀ p ∈ w.db.plans, p.outcomeHash = p.outcome.map (fun o => env.sha256 (env.encode o))
  ids : (w.db.outbox.map OutboxRow.planId).Nodup
  rows : ∀ o ∈ w.db.outbox, ∃ p ∈ w.db.plans, p.planId = o.planId
    ∧ p.outcomeHash = some o.outcomeHash
  projected : ∀ o ∈ w.db.outbox, o.status = .projected → (o.planId, o.outcomeHash) ∈ w.applied
  working : ∀ owner t lease, (w.workers owner).work = some (t, lease) → Working w owner t lease
  stage : ∀ owner, StageSafe env w.applied (w.workers owner)
  finished : (w.finished.map Prod.fst).Nodup ∧ ∀ f ∈ w.finished, ∃ t lease, f.1 = some t
    ∧ w.claims[t]? = some lease ∧ lease.owner = f.2

section

variable {env : ServerEnv} {w : ProjectionWorld} {owner : String}

theorem ProjectionSafe.goto (h : ProjectionSafe env w) {stage : WorkerStage}
    (hwork : stage.work = none ∨ stage.work = (w.workers owner).work)
    (hstage : StageSafe env w.applied stage) : ProjectionSafe env (w.goto owner stage) := by
  refine ⟨h.lifecycle, h.stored, h.ids, h.rows, h.projected, ?_, ?_, h.finished⟩
  · intro other t lease hother
    have hworking : Working w other t lease := by
      by_cases heq : other = owner
      · subst heq
        rw [ProjectionWorld.goto_self] at hother
        rcases hwork with hnone | hsame
        · rw [hnone] at hother
          cases hother
        · exact h.working _ t lease (hsame ▸ hother)
      · rw [ProjectionWorld.goto_of_ne _ _ heq] at hother
        exact h.working _ t lease hother
    exact ⟨hworking.claim, hworking.own, hworking.unfinished, hworking.held⟩
  · intro other
    by_cases heq : other = owner
    · subst heq
      rw [ProjectionWorld.goto_self]
      exact hstage
    · rw [ProjectionWorld.goto_of_ne _ _ heq]
      exact h.stage other

theorem ProjectionSafe.outbox (h : ProjectionSafe env w) {Changed : OutboxRow → Prop}
    {next : List OutboxRow} (hchange : OutboxChange Changed w.db.outbox next)
    (hreleased : ∀ o ∈ next, Changed o → o.status ≠ .projecting
      ∧ (o.status = .projected → (o.planId, o.outcomeHash) ∈ w.applied)) :
    ProjectionSafe env (w.withOutbox next) := by
  obtain ⟨log, hlifecycle⟩ := h.lifecycle
  refine ⟨⟨log, hlifecycle.ids, hlifecycle.exclusive, hlifecycle.once, hlifecycle.leased⟩,
    h.stored, ?_, ?_, ?_, ?_, h.stage, h.finished⟩
  · exact hchange.ids.symm ▸ h.ids
  · intro o' ho'
    obtain ⟨o, ho, hid, hhash, -⟩ := hchange.rows o' ho'
    obtain ⟨p, hp, hplan, hstored⟩ := h.rows o ho
    exact ⟨p, hp, hplan.trans hid, hstored.trans (congrArg some hhash)⟩
  · intro o' ho' hstatus
    obtain ⟨o, ho, -, -, rfl | hchanged⟩ := hchange.rows o' ho'
    · exact h.projected o' ho hstatus
    · exact (hreleased o' ho' hchanged).2 hstatus
  · intro other t lease hother
    obtain ⟨hclaim, howner, hunfinished, hheld⟩ := h.working other t lease hother
    refine ⟨hclaim, howner, hunfinished, fun o' ho' hid hstatus hown => ?_⟩
    obtain ⟨o, ho, -, -, rfl | hchanged⟩ := hchange.rows o' ho'
    · exact hheld o' ho hid hstatus hown
    · exact absurd hstatus (hreleased o' ho' hchanged).1

theorem ProjectionSafe.apply (h : ProjectionSafe env w) (entry : String × String) :
    ProjectionSafe env { w with applied := entry :: w.applied } := by
  refine ⟨h.lifecycle, h.stored, h.ids, h.rows, fun o ho hstatus => ?_, ?_, fun other => ?_, h.finished⟩
  · exact List.mem_cons_of_mem _ (h.projected o ho hstatus)
  · intro other t lease hother
    obtain ⟨hclaim, hown, hunfinished, hheld⟩ := h.working other t lease hother
    exact ⟨hclaim, hown, hunfinished, hheld⟩
  · have hstage := h.stage other
    rcases hs : w.workers other <;> rw [hs] at hstage
    case finishing => exact List.mem_cons_of_mem _ hstage
    all_goals exact hstage

theorem lt_length_of_getElem? {α : Type} {xs : List α} {i : Nat} {x : α} (h : xs[i]? = some x) :
    i < xs.length := (List.getElem?_eq_some_iff.mp h).1

theorem ProjectionSafe.claim (h : ProjectionSafe env w) {lease : ProjectionLease}
    {next : List OutboxRow} (hown : lease.owner = owner)
    (hchange : OutboxChange (fun o => o.status = .projecting ∧ o.leaseOwner = some owner) w.db.outbox next)
    (hclaimed : ∃ o ∈ next, o.planId = lease.planId ∧ o.outcomeHash = lease.outcomeHash
      ∧ o.status = .projecting ∧ o.leaseOwner = some owner) :
    ProjectionSafe env (({ w.withOutbox next with
      claims := w.claims ++ [lease]
      holder := Function.update w.holder lease.planId (some w.claims.length) }).goto owner
        (.claimed w.claims.length lease)) := by
  obtain ⟨log, hlifecycle⟩ := h.lifecycle
  obtain ⟨row, hrow, hid, hhash, hstatus, howner⟩ := hclaimed
  have hids : (next.map OutboxRow.planId).Nodup := hchange.ids.symm ▸ h.ids
  have honly : ∀ o ∈ next, o.planId = lease.planId → o = row :=
    fun o ho heq => List.inj_on_of_nodup_map hids ho hrow (heq.trans hid.symm)
  have hgrow : ∀ {t : Nat} {l : ProjectionLease}, w.claims[t]? = some l →
      (w.claims ++ [lease])[t]? = some l := by
    intro t l hl
    rw [List.getElem?_append_left (lt_length_of_getElem? hl)]
    exact hl
  refine ⟨⟨log, hlifecycle.ids, hlifecycle.exclusive, hlifecycle.once, hlifecycle.leased⟩,
    h.stored, hids, ?_, ?_, ?_, ?_, h.finished.1, ?_⟩
  · intro o' ho'
    obtain ⟨o, ho, hid', hhash', -⟩ := hchange.rows o' ho'
    obtain ⟨p, hp, hplan, hstored⟩ := h.rows o ho
    exact ⟨p, hp, hplan.trans hid', hstored.trans (congrArg some hhash')⟩
  · intro o' ho' hprojected
    obtain ⟨o, ho, -, -, rfl | hchanged⟩ := hchange.rows o' ho'
    · exact h.projected o' ho hprojected
    · rw [hchanged.1] at hprojected
      cases hprojected
  · intro other t l hother
    by_cases heq : other = owner
    · subst heq
      rw [ProjectionWorld.goto_self] at hother
      cases hother
      refine ⟨List.getElem?_concat_length, hown, fun hmem => ?_, fun o ho hoid _ _ => ?_⟩
      · -- a finished claim is one that was made
        obtain ⟨f, hf, hft⟩ := List.mem_map.mp hmem
        obtain ⟨t, l, hft', hl, -⟩ := h.finished.2 f hf
        rw [hft] at hft'
        cases hft'
        exact absurd (lt_length_of_getElem? hl) (lt_irrefl _)
      · obtain rfl := honly o ho hoid
        exact ⟨hhash, by rw [hid]; exact Function.update_self ..⟩
    · rw [ProjectionWorld.goto_of_ne _ _ heq] at hother
      obtain ⟨hclaim, hown', hunfinished, hheld⟩ := h.working other t l hother
      refine ⟨hgrow hclaim, hown', hunfinished, fun o ho hoid hprojecting hoowner => ?_⟩
      have hne : o.planId ≠ lease.planId := by
        intro hsame
        rw [honly o ho hsame, howner] at hoowner
        exact heq (Option.some.inj hoowner).symm
      obtain ⟨old, hold, -, -, rfl | hchanged⟩ := hchange.rows o ho
      · obtain ⟨hsamehash, hholder⟩ := hheld o hold hoid hprojecting hoowner
        exact ⟨hsamehash, (Function.update_of_ne hne ..).trans hholder⟩
      · rw [hchanged.2] at hoowner
        exact absurd (Option.some.inj hoowner).symm heq
  · intro other
    by_cases heq : other = owner
    · subst heq
      rw [ProjectionWorld.goto_self]
      trivial
    · rw [ProjectionWorld.goto_of_ne _ _ heq]
      exact h.stage other
  · intro f hf
    obtain ⟨t, l, hft, hl, hfown⟩ := h.finished.2 f hf
    exact ⟨t, l, hft, hgrow hl, hfown⟩

/-- A claim ends: the row it is marked on still belongs to it. -/
theorem ProjectionSafe.finish (h : ProjectionSafe env w) {t : Nat} {lease : ProjectionLease}
    (hstage : w.workers owner = .finishing t lease) {now : Ticks} {next : List OutboxRow}
    (hfinish : finishProjection w.db.outbox lease.planId lease.owner now = .ok next) :
    ProjectionSafe env (({ w.withOutbox next with
      finished := (w.holder lease.planId, owner) :: w.finished }).goto owner .idle) := by
  have hworking := h.working owner t lease (by rw [hstage]; rfl)
  have happlied : (lease.planId, lease.outcomeHash) ∈ w.applied := by
    have := h.stage owner
    rw [hstage] at this
    exact this
  rw [hworking.own] at hfinish
  obtain ⟨⟨o, ho, hid, hstatus, howner⟩, hchange⟩ := finish_change hfinish
  have hholder : w.holder lease.planId = some t := hid ▸ (hworking.held o ho hid hstatus howner).2
  have hidle : ProjectionSafe env (ProjectionWorld.goto _ owner .idle) := (h.outbox hchange fun o' _ ⟨hprojected, held, hin, hheld⟩ => by
    obtain ⟨hplan, hprojecting, hown, hid', hhash'⟩ := hheld
    refine ⟨hprojected ▸ nofun, fun _ => ?_⟩
    rw [← hid', ← hhash', hplan, (hworking.held held hin hplan hprojecting hown).1]
    exact happlied).goto (Or.inl rfl) trivial
  refine ⟨hidle.lifecycle, hidle.stored, hidle.ids, hidle.rows, hidle.projected, ?_, hidle.stage, ?_, ?_⟩
  · intro other t' l hother
    obtain ⟨hclaim, hown, hunfinished, hheld⟩ := hidle.working other t' l hother
    refine ⟨hclaim, hown, ?_, hheld⟩
    rw [ProjectionWorld.goto, List.map_cons, List.mem_cons, not_or]
    refine ⟨fun heq => ?_, hunfinished⟩
    -- another worker is on another claim
    have hsame : t' = t := Option.some.inj (heq.trans hholder)
    rw [hsame] at hclaim
    have hl : l = lease := Option.some.inj (hclaim.symm.trans hworking.claim)
    have hother' : other = owner := by rw [← hown, hl, hworking.own]
    rw [hother'] at hother
    rw [ProjectionWorld.goto_self] at hother
    cases hother
  · rw [ProjectionWorld.goto, List.map_cons, List.nodup_cons]
    exact ⟨hholder ▸ hworking.unfinished, h.finished.1⟩
  · intro f hf
    rcases List.mem_cons.mp hf with rfl | hf
    · exact ⟨t, lease, hholder, hworking.claim, hworking.own⟩
    · exact h.finished.2 f hf

end

/-! ## The server's transactions -/

/-- The outcomes are stored under their hashes, and the intents carry them. -/
structure OutboxSafe (env : ServerEnv) (db : ServerDb) : Prop where
  stored : ∀ p ∈ db.plans, p.outcomeHash = p.outcome.map (fun o => env.sha256 (env.encode o))
  ids : (db.outbox.map OutboxRow.planId).Nodup
  rows : ∀ o ∈ db.outbox, ∃ p ∈ db.plans, p.planId = o.planId ∧ p.outcomeHash = some o.outcomeHash

/-- No outcome changes: a plan keeps its own, and a plan that is new has none. -/
structure ResultsKept (plans next : List RuntimePlan) : Prop where
  kept : ∀ p ∈ plans, ∃ q ∈ next, q.planId = p.planId ∧ q.result = p.result
  origin : ∀ q ∈ next, q.result = (none, none) ∨ ∃ p ∈ plans, q.result = p.result

section

variable {env : ServerEnv} {db next : ServerDb}

theorem PlansKept.results {plans kept : List RuntimePlan} (h : PlansKept True plans kept) :
    ResultsKept plans kept := by
  obtain ⟨f, rfl, hf⟩ := h
  constructor
  · intro p hp
    exact ⟨f p, List.mem_map_of_mem hp, (hf p hp).planId, (hf p hp).outcome trivial⟩
  · intro q hq
    obtain ⟨p, hp, rfl⟩ := List.mem_map.mp hq
    exact Or.inr ⟨p, hp, (hf p hp).outcome trivial⟩

theorem Effect.results (h : Effect True db next) : ResultsKept db.plans next.plans := by
  obtain ⟨kept, new, hplans, hkept, hnew⟩ := h.plans
  rw [hplans]
  constructor
  · intro p hp
    obtain ⟨q, hq, hrow⟩ := hkept.results.kept p hp
    exact ⟨q, List.mem_append_left _ hq, hrow⟩
  · intro q hq
    rcases List.mem_append.mp hq with hq | hq
    · exact hkept.results.origin q hq
    · rcases hnew with rfl | ⟨p, rfl, -, hresult, -⟩
      · cases hq
      · rw [List.mem_singleton] at hq
        exact Or.inl (hq ▸ hresult)

theorem LeaseEffect.results {lease : Option PlanLease} (h : LeaseEffect db next lease)
    (hids : (db.plans.map RuntimePlan.planId).Nodup) : ResultsKept db.plans next.plans := by
  obtain ⟨swept, hswept, ⟨-, hplans⟩ | ⟨l, p, q, -, -, -, hp, hrow, hplans⟩⟩ := h.plans
  · exact hplans ▸ hswept.results
  · rw [hplans]
    constructor
    · intro r hr
      obtain ⟨r', hr', hid, hresult⟩ := hswept.results.kept r hr
      by_cases hleased : r'.planId = p.planId
      · obtain rfl := eq_of_planId_eq (hswept.planIds.symm ▸ hids) hr' hp hleased
        exact ⟨q, List.mem_map.mpr ⟨r', hr', if_pos rfl⟩, hrow.planId.2.trans hid, hrow.outcome.trans hresult⟩
      · exact ⟨r', List.mem_map.mpr ⟨r', hr', if_neg hleased⟩, hid, hresult⟩
    · intro r hr
      obtain ⟨r', hr', rfl⟩ := List.mem_map.mp hr
      by_cases hleased : r'.planId = p.planId
      · rw [if_pos hleased, hrow.outcome]
        exact hswept.results.origin p hp
      · rw [if_neg hleased]
        exact hswept.results.origin r' hr'

theorem ResultsKept.outboxSafe (h : ResultsKept db.plans next.plans)
    (houtbox : next.outbox = db.outbox) (hdb : OutboxSafe env db) : OutboxSafe env next := by
  refine ⟨fun q hq => ?_, houtbox ▸ hdb.ids, fun o ho => ?_⟩
  · have read : ∀ {p : RuntimePlan}, q.result = p.result →
        p.outcomeHash = p.outcome.map (fun o => env.sha256 (env.encode o)) →
        q.outcomeHash = q.outcome.map (fun o => env.sha256 (env.encode o)) := by
      intro p hresult hp
      obtain ⟨houtcome, hhash⟩ := Prod.mk.inj hresult
      rw [hhash, houtcome, hp]
    rcases h.origin q hq with hnone | ⟨p, hp, hresult⟩
    · obtain ⟨houtcome, hhash⟩ := Prod.mk.inj hnone
      rw [houtcome, hhash]
      rfl
    · exact read hresult (hdb.stored p hp)
  · obtain ⟨p, hp, hid, hhash⟩ := hdb.rows o (houtbox ▸ ho)
    obtain ⟨q, hq, hid', hresult⟩ := h.kept p hp
    exact ⟨q, hq, hid'.trans hid, (Prod.mk.inj hresult).2.trans hhash⟩

theorem write_outboxSafe (hdb : OutboxSafe env db) {generation : Nat}
    {instanceId token : String} {now : Ticks} {submission : Submission}
    (h : writeV2Outcome env db generation instanceId token now submission = .ok next) :
    OutboxSafe env next ∧ ∀ o ∈ next.outbox, o ∈ db.outbox ∨ o.status = .pending := by
  rcases write_spec h with rfl | ⟨current, hcurrent, -, stored, reconciledAt, hintent, -, hplans⟩
  · exact ⟨hdb, fun o ho => Or.inl ho⟩
  · obtain ⟨hids, hrows⟩ := projectionIntent_spec hdb.ids hintent
    refine ⟨⟨fun q hq => ?_, hids, fun o ho => ?_⟩, fun o ho => ?_⟩
    · rw [hplans] at hq
      obtain ⟨p, hp, rfl⟩ := List.mem_map.mp hq
      split_ifs
      · rfl
      · exact hdb.stored p hp
    · rw [hplans]
      rcases hrows o ho with ⟨hold, hne⟩ | ⟨hid, hhash, -⟩
      · obtain ⟨p, hp, hplan, hstored⟩ := hdb.rows o hold
        exact ⟨p, List.mem_map.mpr ⟨p, hp, if_neg fun hsame =>
          hne (hplan.symm.trans (beq_iff_eq.mp hsame))⟩, hplan, hstored⟩
      · refine ⟨_, List.mem_map.mpr ⟨current, hcurrent, if_pos (beq_self_eq_true _)⟩, hid.symm, ?_⟩
        exact congrArg some hhash.symm
    · rcases hrows o ho with ⟨hold, -⟩ | ⟨-, -, hpending⟩
      · exact Or.inl hold
      · exact Or.inr hpending

theorem after_outboxSafe (hids : (db.plans.map RuntimePlan.planId).Nodup)
    (hdb : OutboxSafe env db) (call : ServerCall) :
    OutboxSafe env (db.after env call).1
      ∧ ∀ o ∈ (db.after env call).1.outbox, o ∈ db.outbox ∨ o.status = .pending := by
  by_cases hwrite : call.isWrite = true
  · cases call with
    | write generation instanceId token now submission =>
      rcases h : writeV2Outcome env db generation instanceId token now submission with e | next
      · rw [ServerDb.after, ServerCall.run, h]
        exact ⟨hdb, fun o ho => Or.inl ho⟩
      · rw [ServerDb.after, ServerCall.run, h]
        exact write_outboxSafe hdb h
    | _ => cases hwrite
  · rw [Bool.not_eq_true] at hwrite
    rcases (after_effect hids call : _ ∨ LeaseEffect db (db.after env call).1 _) with ⟨-, heffect⟩ | heffect
    · have hquiet : Effect True db (db.after env call).1 := heffect.mono fun _ => hwrite
      have houtbox := hquiet.outbox trivial
      exact ⟨hquiet.results.outboxSafe houtbox hdb, fun o ho => Or.inl (houtbox ▸ ho)⟩
    · exact ⟨(heffect.results hids).outboxSafe heffect.outbox hdb, fun o ho => Or.inl (heffect.outbox ▸ ho)⟩

theorem ProjectionSafe.server {w : ProjectionWorld} (h : ProjectionSafe env w)
    (call : ServerCall) : ProjectionSafe env { w with db := (w.db.after env call).1 } := by
  obtain ⟨log, hlifecycle⟩ := h.lifecycle
  obtain ⟨hsafe, hrows⟩ := after_outboxSafe hlifecycle.ids ⟨h.stored, h.ids, h.rows⟩ call
  refine ⟨⟨_, (after_lifecycle hlifecycle call).1⟩, hsafe.stored, hsafe.ids, hsafe.rows, ?_, ?_,
    h.stage, h.finished⟩
  · intro o ho hstatus
    rcases hrows o ho with hold | hpending
    · exact h.projected o hold hstatus
    · rw [hpending] at hstatus
      cases hstatus
  · intro other t lease hother
    obtain ⟨hclaim, hown, hunfinished, hheld⟩ := h.working other t lease hother
    refine ⟨hclaim, hown, hunfinished, fun o ho hid hstatus hoowner => ?_⟩
    rcases hrows o ho with hold | hpending
    · exact hheld o hold hid hstatus hoowner
    · rw [hpending] at hstatus
      cases hstatus

end

/-! ## Runs -/

section

variable {env : ServerEnv} {w : ProjectionWorld}

theorem readProjectionPayload_digest (h : ProjectionSafe env w) {lease : ProjectionLease}
    {now : Ticks} {plan : PlanDocument} {outcome : StoredOutcome}
    (hread : readProjectionPayload w.db lease now = .ok (plan, outcome)) :
    env.sha256 (env.encode outcome) = lease.outcomeHash := by
  unfold readProjectionPayload at hread
  split at hread
  · cases hread
  · rename_i p hp
    have hfound := List.find?_some hp
    simp only [Bool.and_eq_true, beq_iff_eq] at hfound
    have hstored := h.stored p (List.mem_of_find?_eq_some hp)
    split at hread
    · cases hread
    · rename_i stored hsome
      cases hread
      rw [hsome, hfound.1.2] at hstored
      exact (Option.some.inj hstored).symm

/-- **One call of a worker** keeps the invariant. -/
theorem ProjectionSafe.work (h : ProjectionSafe env w) (owner : String) (input : WorkerInput) :
    ProjectionSafe env (w.work env owner input) := by
  unfold ProjectionWorld.work
  split
  · exact (h.outbox (reclaim_change _ _) fun o _ hstatus => ⟨hstatus ▸ nofun, fun hprojected => by
      rw [hstatus] at hprojected
      cases hprojected⟩).goto (Or.inl rfl) trivial
  · split
    · exact h.goto (Or.inl rfl) trivial
    · exact h.goto (Or.inl rfl) trivial
    · rename_i hclaim
      obtain ⟨hown, hchange, hclaimed⟩ := claim_change hclaim
      exact h.claim hown hchange hclaimed
  · rename_i t lease hstage
    have hsame : some (t, lease) = (w.workers owner).work := by rw [hstage]; rfl
    split
    · exact h.goto (Or.inr hsame) trivial
    · exact h.goto (Or.inr hsame) trivial
    · rename_i hread _
      split_ifs
      · exact h.goto (Or.inr hsame) (readProjectionPayload_digest h hread)
      · exact h.goto (Or.inr hsame) trivial
  · rename_i t lease plan outcome hstage
    have hsame : some (t, lease) = (w.workers owner).work := by rw [hstage]; rfl
    split
    · exact h.goto (Or.inr hsame) trivial
    · have hdigest : env.sha256 (env.encode outcome) = lease.outcomeHash := by
        have := h.stage owner
        rw [hstage] at this
        exact this
      exact (h.apply _).goto (Or.inr hsame) (hdigest ▸ List.mem_cons_self)
  · rename_i t lease hstage
    split
    · exact h.goto (Or.inl rfl) trivial
    · rename_i hfinish
      exact h.finish hstage hfinish
  · split
    · exact h.goto (Or.inl rfl) trivial
    · rename_i hfail
      refine (h.outbox (fail_change hfail) fun o _ hstatus => ?_).goto (Or.inl rfl) trivial
      rcases hstatus with hstatus | hstatus <;> rw [hstatus] <;> exact ⟨nofun, nofun⟩

theorem ProjectionSafe.run (h : ProjectionSafe env w) (steps : List ProjectionStep) :
    ProjectionSafe env (w.run env steps) := by
  induction steps generalizing w with
  | nil => exact h
  | cons step steps ih =>
    cases step with
    | server call => exact ih (h.server call)
    | worker owner input => exact ih (h.work owner input)

theorem projectionSafe_initial (device : RuntimeDevice) :
    ProjectionSafe env { db := { device := device } } where
  lifecycle := ⟨[], List.nodup_nil, Nat.zero_le _, List.nodup_nil, nofun⟩
  stored := fun _ hp => absurd hp List.not_mem_nil
  ids := List.nodup_nil
  rows := fun _ ho => absurd ho List.not_mem_nil
  projected := fun _ ho => absurd ho List.not_mem_nil
  working := fun _ _ _ h => absurd h (Option.some_ne_none _).symm
  stage := fun _ => trivial
  finished := ⟨List.nodup_nil, fun _ hf => absurd hf List.not_mem_nil⟩

/-- **The projection laws**, in every schedule of transactions and worker calls at any times. A
plan has at most one row; the row has the plan's current outcome hash, and is projected only when
the projector has succeeded for that hash; a claim is finished at most once, and by the worker
that made it. -/
theorem projection_laws (env : ServerEnv) (device : RuntimeDevice) (steps : List ProjectionStep) :
    let w := ProjectionWorld.run env { db := { device := device } } steps
    (w.db.plans.map RuntimePlan.planId).Nodup
      ∧ (w.db.outbox.map OutboxRow.planId).Nodup
      ∧ (∀ o ∈ w.db.outbox, ∃ p ∈ w.db.plans, p.planId = o.planId
        ∧ p.outcomeHash = some o.outcomeHash
        ∧ (o.status = .projected → (p.planId, o.outcomeHash) ∈ w.applied))
      ∧ (w.finished.map Prod.fst).Nodup
      ∧ ∀ f ∈ w.finished, ∃ t lease, f.1 = some t ∧ w.claims[t]? = some lease
        ∧ lease.owner = f.2 := by
  have hinitial : ProjectionSafe env { db := { device := device } } :=
    projectionSafe_initial device
  have h := hinitial.run steps
  obtain ⟨log, hlifecycle⟩ := h.lifecycle
  refine ⟨hlifecycle.ids, h.ids, fun o ho => ?_, h.finished⟩
  obtain ⟨p, hp, hid, hhash⟩ := h.rows o ho
  exact ⟨p, hp, hid, hhash, fun hstatus => hid ▸ h.projected o ho hstatus⟩

end

end Ai00.Connector
