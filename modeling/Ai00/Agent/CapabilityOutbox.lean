import Ai00.Basic.Rows

/-! # The outbox of committed capability outcomes

An agent write records an event in its own transaction. Dispatchers claim events under a lease
with a fresh token, deliver them, and mark them delivered or put them back to be retried; an
expired lease may be claimed again while its first dispatcher still delivers. Every statement
that writes a row repeats its condition on the state and the token.
-/

namespace Ai00.Agent

/-- `state`; rows that a migration found ambiguous are quarantined. -/
inductive EventState where
  | pending
  | processing
  | delivered
  | quarantined
  deriving DecidableEq

/-- A row of `workmanship_agent_capability_outbox`; times are in microseconds. -/
structure OutboxRow where
  eventId : String
  payload : String
  createdAt : Nat
  state : EventState := .pending
  attemptCount : Nat := 0
  nextAttemptAt : Option Nat := none
  leaseOwner : Option String := none
  leaseToken : Option String := none
  leaseExpiresAt : Option Nat := none
  lastError : Option String := none
  deliveredAt : Option Nat := none

/-- The event a dispatcher gets: the row as it was, with the new token. -/
structure ClaimedEvent where
  eventId : String
  payload : String
  attemptCount : Nat
  leaseToken : String

/-! ## The repository -/

/-- `state='processing' AND lease_expires_at<NOW(6)`. -/
def OutboxRow.expired (r : OutboxRow) (now : Nat) : Bool :=
  r.state == .processing && r.leaseExpiresAt.any (fun t => decide (t < now))

/-- The rows `claim_next` selects. -/
def OutboxRow.claimable (r : OutboxRow) (now : Nat) : Bool :=
  (r.state == .pending && r.nextAttemptAt.all (fun t => decide (t ≤ now))) || r.expired now

/-- `ORDER BY created_at,event_id`. -/
def OutboxRow.before (r s : OutboxRow) : Bool :=
  decide (r.createdAt < s.createdAt ∨ r.createdAt = s.createdAt ∧ r.eventId ≤ s.eventId)

def seconds (n : Nat) : Nat := n * 1000000

/-- `claim_next`: the row is selected at `now` and updated at `later`. -/
def claimNext (rows : List OutboxRow) (workerId leaseToken : String) (leaseSeconds : Int)
    (now later : Nat) : List OutboxRow × Option ClaimedEvent :=
  let claimable := rows.filter (·.claimable now)
  match claimable.find? (fun r => claimable.all r.before) with
  | none => (rows, none)
  | some row =>
    let selects := fun r : OutboxRow =>
      r.eventId == row.eventId && (r.state == .pending || r.expired later)
    if rows.countP selects = 1 then
      (Rows.update selects (fun r => { r with
          state := .processing
          attemptCount := r.attemptCount + 1
          leaseOwner := some workerId
          leaseToken := some leaseToken
          leaseExpiresAt := some (later + seconds (max 1 leaseSeconds).toNat)
          lastError := none }) rows,
        some ⟨row.eventId, row.payload, row.attemptCount, leaseToken⟩)
    else (rows, none)

/-- `event_id=… AND state='processing' AND lease_token=…`. -/
def OutboxRow.heldUnder (eventId leaseToken : String) (r : OutboxRow) : Bool :=
  r.eventId == eventId && r.state == .processing && r.leaseToken == some leaseToken

/-- `mark_delivered`, and whether it changed a row. -/
def markDelivered (rows : List OutboxRow) (eventId leaseToken : String) (now : Nat) :
    List OutboxRow × Bool :=
  let selects := OutboxRow.heldUnder eventId leaseToken
  (Rows.update selects (fun r => { r with
      state := .delivered
      deliveredAt := some now
      leaseOwner := none
      leaseToken := none
      leaseExpiresAt := none
      nextAttemptAt := none
      lastError := none }) rows,
    rows.countP selects == 1)

/-- `retry`, and whether it changed a row. -/
def retry (rows : List OutboxRow) (eventId leaseToken error : String) (delaySeconds : Nat)
    (now : Nat) : List OutboxRow × Bool :=
  let selects := OutboxRow.heldUnder eventId leaseToken
  (Rows.update selects (fun r => { r with
      state := .pending
      nextAttemptAt := some (now + seconds (max 1 delaySeconds))
      leaseOwner := none
      leaseToken := none
      leaseExpiresAt := none
      lastError := some (String.ofList (error.toList.take 500)) }) rows,
    rows.countP selects == 1)

/-! ## The dispatchers -/

/-- Where a dispatcher is in `run_once`. -/
inductive DispatchStage where
  | idle
  | delivering (event : ClaimedEvent)
  | returned (event : ClaimedEvent)
  | raised (event : ClaimedEvent) (error : String)

def DispatchStage.claim : DispatchStage → Option ClaimedEvent
  | .idle => none
  | .delivering event => some event
  | .returned event => some event
  | .raised event _ => some event

/-- The table, the dispatchers, the tokens given out, and the event and token of each deliver call
that returned. -/
structure OutboxWorld where
  rows : List OutboxRow := []
  workers : String → DispatchStage := fun _ => .idle
  tokens : List String := []
  returns : List (String × String) := []

/-- A transaction records an event, or a dispatcher goes on. One that stops, also because a call
of the repository failed, forgets its claim. -/
inductive OutboxStep where
  | records (eventId payload : String) (createdAt : Nat)
  | claims (worker leaseToken : String) (leaseSeconds : Int) (now later : Nat)
  | delivers (worker : String) (error : Option String)
  | finishes (worker : String) (now : Nat)
  | stops (worker : String)

/-- `min(300, 2 ** min(attempts, 8))`. -/
def retryDelay (event : ClaimedEvent) : Nat := min 300 (2 ^ min (max 1 (event.attemptCount + 1)) 8)

namespace OutboxWorld

def goto (w : OutboxWorld) (worker : String) (stage : DispatchStage) : OutboxWorld :=
  { w with workers := Function.update w.workers worker stage }

/-- One step; tokens are fresh. -/
def step (w : OutboxWorld) : OutboxStep → OutboxWorld
  | .records eventId payload createdAt =>
    let row : OutboxRow := { eventId, payload, createdAt }
    { w with rows := Rows.insertIgnore (fun a b => a.eventId == b.eventId) row w.rows }
  | .claims worker leaseToken leaseSeconds now later => match w.workers worker with
    | .idle =>
      if leaseToken ∈ w.tokens then w
      else match claimNext w.rows worker leaseToken leaseSeconds now later with
        | (_, none) => w
        | (rows, some event) =>
          goto { w with rows := rows, tokens := w.tokens ++ [leaseToken] } worker
            (.delivering event)
    | _ => w
  | .delivers worker error => match w.workers worker with
    | .delivering event => match error with
      | none =>
        goto { w with returns := w.returns ++ [(event.eventId, event.leaseToken)] } worker
          (.returned event)
      | some error => w.goto worker (.raised event error)
    | _ => w
  | .finishes worker now => match w.workers worker with
    | .returned event =>
      goto { w with rows := (markDelivered w.rows event.eventId event.leaseToken now).1 } worker
        .idle
    | .raised event error =>
      goto { w with
        rows := (retry w.rows event.eventId event.leaseToken error (retryDelay event) now).1 }
        worker .idle
    | _ => w
  | .stops worker => w.goto worker .idle

def run (w : OutboxWorld) (steps : List OutboxStep) : OutboxWorld := steps.foldl step w

end OutboxWorld

/-! ## What a step does to the table -/

/-- The rows a step leaves. -/
inductive RowsStep (w : OutboxWorld) (s : OutboxStep) (next : List OutboxRow) : Prop where
  | same (h : next = w.rows)
  | recorded (row : OutboxRow) (hnew : row.eventId ∉ w.rows.map OutboxRow.eventId)
      (hpending : row.state = .pending) (htoken : row.leaseToken = none)
      (h : next = w.rows ++ [row])
  | claimed (worker : String) (event : ClaimedEvent) (selects : OutboxRow → Bool)
      (change : OutboxRow → OutboxRow) (hfresh : event.leaseToken ∉ w.tokens)
      (htoken : event.leaseToken ∈ (w.step s).tokens)
      (hselects : ∀ r, selects r = true → r.state = .pending ∨ r.state = .processing)
      (hchange : ∀ r, (change r).eventId = r.eventId ∧ (change r).state = .processing
        ∧ (change r).leaseToken = some event.leaseToken)
      (h : next = Rows.update selects change w.rows)
  | delivered (worker : String) (event : ClaimedEvent) (now : Nat)
      (hstep : s = .finishes worker now) (hworker : w.workers worker = .returned event)
      (h : next = (markDelivered w.rows event.eventId event.leaseToken now).1)
  | retried (worker : String) (event : ClaimedEvent) (error : String) (now : Nat)
      (hstep : s = .finishes worker now) (hworker : w.workers worker = .raised event error)
      (h : next = (retry w.rows event.eventId event.leaseToken error (retryDelay event) now).1)

section

variable {w : OutboxWorld} {rows next : List OutboxRow}

/-- What `claim_next` does when it gives an event. -/
theorem claimNext_some {worker leaseToken : String} {leaseSeconds : Int} {now later : Nat} {event : ClaimedEvent}
    (h : claimNext rows worker leaseToken leaseSeconds now later = (next, some event)) :
    event.leaseToken = leaseToken ∧ ∃ selects change, next = Rows.update selects change rows
      ∧ (∀ r, selects r = true → r.state = .pending ∨ r.state = .processing)
      ∧ ∀ r : OutboxRow, (change r).eventId = r.eventId ∧ (change r).state = .processing
        ∧ (change r).leaseToken = some leaseToken := by
  unfold claimNext at h
  dsimp only at h
  split at h
  · cases h
  · split at h
    · cases h
      refine ⟨rfl, _, _, rfl, fun r hr => ?_, fun r => ⟨rfl, rfl, rfl⟩⟩
      simp only [OutboxRow.expired, Bool.and_eq_true, Bool.or_eq_true, beq_iff_eq] at hr
      exact hr.2.imp id And.left
    · cases h

/-- **One step** on the table. -/
theorem step_rows (w : OutboxWorld) (s : OutboxStep) : RowsStep w s (w.step s).rows := by
  cases s with
  | records eventId payload createdAt =>
    unfold OutboxWorld.step Rows.insertIgnore
    dsimp only
    split
    · exact .same rfl
    · rename_i hnew
      refine .recorded _ (fun hin => hnew ?_) rfl rfl rfl
      obtain ⟨r, hr, hid⟩ := List.mem_map.mp hin
      exact List.any_eq_true.mpr ⟨r, hr, beq_iff_eq.mpr hid.symm⟩
  | claims worker leaseToken leaseSeconds now later =>
    cases hworker : w.workers worker with
    | idle =>
      by_cases hfresh : leaseToken ∈ w.tokens
      · exact .same (by simp [OutboxWorld.step, hworker, hfresh])
      · rcases hclaim : claimNext w.rows worker leaseToken leaseSeconds now later with ⟨rows, event⟩
        cases event with
        | none => exact .same (by simp [OutboxWorld.step, hworker, hfresh, hclaim])
        | some event =>
          obtain ⟨htoken, selects, change, hrows, hselects, hchange⟩ := claimNext_some hclaim
          subst htoken
          refine .claimed worker event selects change hfresh ?_ hselects hchange ?_
          · simp [OutboxWorld.step, OutboxWorld.goto, hworker, hfresh, hclaim]
          · rw [← hrows]
            simp [OutboxWorld.step, OutboxWorld.goto, hworker, hfresh, hclaim]
    | delivering event => exact .same (by simp [OutboxWorld.step, hworker])
    | returned event => exact .same (by simp [OutboxWorld.step, hworker])
    | raised event error => exact .same (by simp [OutboxWorld.step, hworker])
  | delivers worker error =>
    refine .same ?_
    rw [OutboxWorld.step]
    split
    · cases error <;> rfl
    · rfl
  | finishes worker now =>
    cases hworker : w.workers worker with
    | idle => exact .same (by simp [OutboxWorld.step, hworker])
    | delivering event => exact .same (by simp [OutboxWorld.step, hworker])
    | returned event =>
      exact .delivered worker event now rfl hworker
        (by simp [OutboxWorld.step, OutboxWorld.goto, hworker])
    | raised event error =>
      exact .retried worker event error now rfl hworker
        (by simp [OutboxWorld.step, OutboxWorld.goto, hworker])
  | stops worker => exact .same rfl

theorem tokens_step (w : OutboxWorld) (s : OutboxStep) : w.tokens ⊆ (w.step s).tokens := by
  cases s with
  | claims worker leaseToken leaseSeconds now later =>
    rw [OutboxWorld.step]
    split
    · split
      · exact List.Subset.refl _
      · split
        · exact List.Subset.refl _
        · exact List.subset_append_left _ _
    · exact List.Subset.refl _
  | delivers worker error =>
    rw [OutboxWorld.step]
    split
    · cases error <;> exact List.Subset.refl _
    · exact List.Subset.refl _
  | finishes worker now =>
    rw [OutboxWorld.step]
    split <;> exact List.Subset.refl _
  | _ => exact List.Subset.refl _

theorem returns_step (w : OutboxWorld) (s : OutboxStep) : w.returns ⊆ (w.step s).returns := by
  cases s with
  | claims worker leaseToken leaseSeconds now later =>
    rw [OutboxWorld.step]
    split
    · split
      · exact List.Subset.refl _
      · split <;> exact List.Subset.refl _
    · exact List.Subset.refl _
  | delivers worker error =>
    rw [OutboxWorld.step]
    split
    · cases error with
      | none => exact List.subset_append_left _ _
      | some error => exact List.Subset.refl _
    · exact List.Subset.refl _
  | finishes worker now =>
    rw [OutboxWorld.step]
    split <;> exact List.Subset.refl _
  | _ => exact List.Subset.refl _

variable {s : OutboxStep}

theorem map_eventId_update {selects : OutboxRow → Bool} {change : OutboxRow → OutboxRow}
    (h : ∀ r, (change r).eventId = r.eventId) :
    (Rows.update selects change rows).map OutboxRow.eventId = rows.map OutboxRow.eventId := by
  unfold Rows.update
  rw [List.map_map]
  refine List.map_congr_left fun r _ => ?_
  by_cases hr : selects r = true <;> simp [hr, h]

/-- The events stay, in order, and at most one comes behind them. -/
theorem RowsStep.ids (h : RowsStep w s next) :
    next.map OutboxRow.eventId = w.rows.map OutboxRow.eventId ∨ ∃ id, id ∉ w.rows.map OutboxRow.eventId
        ∧ next.map OutboxRow.eventId = w.rows.map OutboxRow.eventId ++ [id] := by
  cases h with
  | same h => exact Or.inl (by rw [h])
  | recorded row hnew _ _ h => exact Or.inr ⟨row.eventId, hnew, by rw [h, List.map_append]; rfl⟩
  | claimed worker event selects change _ _ _ hchange h =>
    exact Or.inl (by rw [h, map_eventId_update fun r => (hchange r).1])
  | delivered worker event now _ _ h =>
    refine Or.inl ?_
    rw [h]
    exact map_eventId_update fun _ => rfl
  | retried worker event error now _ _ h =>
    refine Or.inl ?_
    rw [h]
    exact map_eventId_update fun _ => rfl

theorem RowsStep.nodup (h : RowsStep w s next) (hids : (w.rows.map OutboxRow.eventId).Nodup) :
    (next.map OutboxRow.eventId).Nodup := by
  rcases h.ids with heq | ⟨id, hnew, heq⟩
  · rwa [heq]
  · rw [heq, ← List.concat_eq_append, List.nodup_concat]
    exact ⟨hnew, hids⟩

/-- What a row was that a step leaves. -/
inductive Origin (w : OutboxWorld) (s : OutboxStep) (r : OutboxRow) : Prop where
  | same (h : r ∈ w.rows)
  | recorded (hpending : r.state = .pending) (htoken : r.leaseToken = none)
  | claimed (old : OutboxRow) (hold : old ∈ w.rows) (hid : r.eventId = old.eventId)
      (hstate : old.state = .pending ∨ old.state = .processing) (hprocessing : r.state = .processing)
      (token : String) (hfresh : token ∉ w.tokens) (hgiven : token ∈ (w.step s).tokens)
      (htoken : r.leaseToken = some token)
  | delivered (old : OutboxRow) (hold : old ∈ w.rows) (hid : r.eventId = old.eventId)
      (worker : String) (event : ClaimedEvent) (now : Nat) (hstep : s = .finishes worker now)
      (hworker : w.workers worker = .returned event)
      (hheld : old.heldUnder event.eventId event.leaseToken = true)
      (hdelivered : r.state = .delivered) (htoken : r.leaseToken = none)
  | retried (old : OutboxRow) (hold : old ∈ w.rows) (hid : r.eventId = old.eventId)
      (hpending : r.state = .pending) (htoken : r.leaseToken = none)

theorem RowsStep.origin (h : RowsStep w s next) {r : OutboxRow} (hr : r ∈ next) : Origin w s r := by
  cases h with
  | same h => exact .same (h ▸ hr)
  | recorded row _ hpending htoken h =>
    rw [h, List.mem_append, List.mem_singleton] at hr
    rcases hr with hr | rfl
    · exact .same hr
    · exact .recorded hpending htoken
  | claimed worker event selects change hfresh hgiven hselects hchange h =>
    rw [h] at hr
    obtain ⟨old, hold, rfl⟩ := List.mem_map.mp hr
    split_ifs with hsel
    · obtain ⟨hid, hstate, htoken⟩ := hchange old
      exact .claimed old hold hid (hselects old hsel) hstate _ hfresh hgiven htoken
    · exact .same hold
  | delivered worker event now hstep hworker h =>
    rw [h] at hr
    obtain ⟨old, hold, rfl⟩ := List.mem_map.mp hr
    split_ifs with hsel
    · exact .delivered old hold rfl worker event now hstep hworker hsel rfl rfl
    · exact .same hold
  | retried worker event error now hstep hworker h =>
    rw [h] at hr
    obtain ⟨old, hold, rfl⟩ := List.mem_map.mp hr
    split_ifs with hsel
    · exact .retried old hold rfl rfl rfl
    · exact .same hold

theorem state_of_heldUnder {eventId token : String} {r : OutboxRow}
    (h : r.heldUnder eventId token = true) :
    r.eventId = eventId ∧ r.state = .processing ∧ r.leaseToken = some token := by
  simp only [OutboxRow.heldUnder, Bool.and_eq_true, beq_iff_eq] at h
  exact ⟨h.1.1, h.1.2, h.2⟩

/-- **Delivered is never left**: no statement selects a delivered row. -/
theorem RowsStep.delivered_stays (h : RowsStep w s next) {r : OutboxRow} (hr : r ∈ w.rows)
    (hstate : r.state = .delivered) : r ∈ next := by
  have hunheld : ∀ id token, r.heldUnder id token = false := by
    intro id token
    rw [← Bool.not_eq_true]
    intro hheld
    have hprocessing := (state_of_heldUnder hheld).2.1
    rw [hstate] at hprocessing
    cases hprocessing
  cases h with
  | same h => exact h ▸ hr
  | recorded row _ _ _ h =>
    rw [h]
    exact List.mem_append_left _ hr
  | claimed worker event selects change _ _ hselects _ h =>
    rw [h]
    refine Rows.mem_update_of_not hr ?_
    rw [← Bool.not_eq_true]
    intro hsel
    rcases hselects r hsel with hother | hother <;> rw [hstate] at hother <;> cases hother
  | delivered worker event now _ _ h =>
    rw [h]
    exact Rows.mem_update_of_not hr (hunheld _ _)
  | retried worker event error now _ _ h =>
    rw [h]
    exact Rows.mem_update_of_not hr (hunheld _ _)

end

/-! ## Runs -/

/-- The row of the event has another token, or none. -/
def TakenOver (w : OutboxWorld) (event : ClaimedEvent) : Prop :=
  ∀ r ∈ w.rows, r.eventId = event.eventId → r.leaseToken ≠ some event.leaseToken

/-- **The invariant**: the tokens of rows and of dispatchers were given out, each to one
dispatcher. -/
structure OutboxSafe (w : OutboxWorld) : Prop where
  ids : (w.rows.map OutboxRow.eventId).Nodup
  states : ∀ r ∈ w.rows, r.state ≠ .quarantined
  tokens : ∀ r ∈ w.rows, ∀ t, r.leaseToken = some t → t ∈ w.tokens
  claims : ∀ worker event, (w.workers worker).claim = some event → event.leaseToken ∈ w.tokens
  returned : ∀ worker event, w.workers worker = .returned event →
    (event.eventId, event.leaseToken) ∈ w.returns
  single : ∀ a b e f, (w.workers a).claim = some e → (w.workers b).claim = some f →
    e.leaseToken = f.leaseToken → a = b

section

variable {w : OutboxWorld}

/-- Where the dispatcher `a` goes in a step. -/
inductive NewStage (w next : OutboxWorld) (a : String) : DispatchStage → Prop where
  | idle : NewStage w next a .idle
  | delivering (event : ClaimedEvent) (hfresh : event.leaseToken ∉ w.tokens)
      (hgiven : event.leaseToken ∈ next.tokens) : NewStage w next a (.delivering event)
  | returned (event : ClaimedEvent) (h : w.workers a = .delivering event)
      (hreturns : (event.eventId, event.leaseToken) ∈ next.returns) :
      NewStage w next a (.returned event)
  | raised (event : ClaimedEvent) (error : String) (h : w.workers a = .delivering event) :
      NewStage w next a (.raised event error)

theorem workers_step (w : OutboxWorld) (s : OutboxStep) :
    (w.step s).workers = w.workers ∨ ∃ a stage,
      (w.step s).workers = Function.update w.workers a stage ∧ NewStage w (w.step s) a stage := by
  cases s with
  | records eventId payload createdAt => exact Or.inl rfl
  | claims worker leaseToken leaseSeconds now later =>
    rw [OutboxWorld.step]
    split
    · split
      · exact Or.inl rfl
      · rename_i hfresh
        split
        · exact Or.inl rfl
        · rename_i rows event hclaim
          obtain ⟨rfl, -⟩ := claimNext_some hclaim
          exact Or.inr ⟨worker, _, rfl, .delivering event hfresh (by simp [OutboxWorld.goto])⟩
    · exact Or.inl rfl
  | delivers worker error =>
    rw [OutboxWorld.step]
    split
    · rename_i event hworker
      cases error with
      | none =>
        exact Or.inr ⟨worker, _, rfl, .returned event hworker (by simp [OutboxWorld.goto])⟩
      | some error => exact Or.inr ⟨worker, _, rfl, .raised event error hworker⟩
    · exact Or.inl rfl
  | finishes worker now =>
    rw [OutboxWorld.step]
    split
    · exact Or.inr ⟨worker, _, rfl, .idle⟩
    · exact Or.inr ⟨worker, _, rfl, .idle⟩
    · exact Or.inl rfl
  | stops worker => exact Or.inr ⟨worker, _, rfl, .idle⟩

variable {event : ClaimedEvent}

theorem NewStage.claim {next : OutboxWorld} {a : String} {stage : DispatchStage}
    (h : NewStage w next a stage) (hclaim : stage.claim = some event) :
    (w.workers a).claim = some event
      ∨ event.leaseToken ∉ w.tokens ∧ event.leaseToken ∈ next.tokens := by
  cases h with
  | idle => cases hclaim
  | delivering new hfresh hgiven =>
    cases hclaim
    exact Or.inr ⟨hfresh, hgiven⟩
  | returned old hold _ =>
    cases hclaim
    exact Or.inl (by rw [hold]; rfl)
  | raised old error hold =>
    cases hclaim
    exact Or.inl (by rw [hold]; rfl)

/-- **One step** keeps the invariant. -/
theorem OutboxSafe.step (h : OutboxSafe w) (s : OutboxStep) : OutboxSafe (w.step s) := by
  have hrows := step_rows w s
  have htokens := tokens_step w s
  have hreturns := returns_step w s
  refine ⟨hrows.nodup h.ids, fun r hr => ?_, fun r hr t ht => ?_, fun b event hclaim => ?_,
    fun b event hstage => ?_, fun b c e f he hf hsame => ?_⟩
  · cases hrows.origin hr with
    | same hold => exact h.states r hold
    | recorded hpending _ => rw [hpending]; nofun
    | claimed old hold _ _ hprocessing => rw [hprocessing]; nofun
    | delivered old hold _ worker event now _ _ _ hdelivered _ => rw [hdelivered]; nofun
    | retried old hold _ hpending _ => rw [hpending]; nofun
  · cases hrows.origin hr with
    | same hold => exact htokens (h.tokens r hold t ht)
    | recorded _ hnone => rw [hnone] at ht; cases ht
    | claimed old hold _ _ _ token _ hgiven htoken =>
      rw [htoken] at ht
      cases ht
      exact hgiven
    | delivered old hold _ worker event now _ _ _ _ hnone => rw [hnone] at ht; cases ht
    | retried old hold _ _ hnone => rw [hnone] at ht; cases ht
  · rcases workers_step w s with hsame | ⟨a, stage, hworkers, hstage⟩
    · rw [hsame] at hclaim
      exact htokens (h.claims b event hclaim)
    · rw [hworkers] at hclaim
      by_cases hb : b = a
      · rw [hb, Function.update_self] at hclaim
        rcases hstage.claim hclaim with hold | ⟨-, hgiven⟩
        · exact htokens (h.claims a event hold)
        · exact hgiven
      · rw [Function.update_of_ne hb] at hclaim
        exact htokens (h.claims b event hclaim)
  · rcases workers_step w s with hsame | ⟨a, stage, hworkers, hnew⟩
    · rw [hsame] at hstage
      exact hreturns (h.returned b event hstage)
    · rw [hworkers] at hstage
      by_cases hb : b = a
      · rw [hb, Function.update_self] at hstage
        subst hstage
        cases hnew with
        | returned _ _ hreturn => exact hreturn
      · rw [Function.update_of_ne hb] at hstage
        exact hreturns (h.returned b event hstage)
  · rcases workers_step w s with hworkers | ⟨a, stage, hworkers, hstage⟩
    · rw [hworkers] at he hf
      exact h.single b c e f he hf hsame
    · rw [hworkers] at he hf
      -- a claim of `a` is an old one of `a`, or its token is nobody else's
      by_cases hb : b = a
      · by_cases hc : c = a
        · rw [hb, hc]
        · rw [hb, Function.update_self] at he
          rw [Function.update_of_ne hc] at hf
          rcases hstage.claim he with hold | ⟨hfresh, -⟩
          · exact hb.trans (h.single a c e f hold hf hsame)
          · exact absurd (hsame ▸ h.claims c f hf) hfresh
      · rw [Function.update_of_ne hb] at he
        by_cases hc : c = a
        · rw [hc, Function.update_self] at hf
          rcases hstage.claim hf with hold | ⟨hfresh, -⟩
          · exact (h.single b a e f he hold hsame).trans hc.symm
          · exact absurd (hsame ▸ h.claims b e he) hfresh
        · rw [Function.update_of_ne hc] at hf
          exact h.single b c e f he hf hsame

theorem takenOver_step (htoken : event.leaseToken ∈ w.tokens)
    (h : TakenOver w event) (s : OutboxStep) : TakenOver (w.step s) event := by
  intro r hr hid
  cases (step_rows w s).origin hr with
  | same hold => exact h r hold hid
  | recorded _ hnone => rw [hnone]; nofun
  | claimed old hold _ _ _ token hfresh _ hnew =>
    rw [hnew]
    intro heq
    exact hfresh (Option.some.inj heq ▸ htoken)
  | delivered old hold _ worker _ now _ _ _ _ hnone => rw [hnone]; nofun
  | retried old hold _ _ hnone => rw [hnone]; nofun

theorem heldUnder_takenOver (h : TakenOver w event) :
    ∀ r ∈ w.rows, r.heldUnder event.eventId event.leaseToken = false := by
  intro r hr
  rw [← Bool.not_eq_true]
  intro hheld
  obtain ⟨hid, -, htoken⟩ := state_of_heldUnder hheld
  exact h r hr hid htoken

theorem update_eq_self {rows : List OutboxRow} {selects : OutboxRow → Bool}
    {change : OutboxRow → OutboxRow} (h : ∀ r ∈ rows, selects r = false) :
    Rows.update selects change rows = rows := by
  unfold Rows.update
  calc rows.map (fun r => if selects r then change r else r)
      = rows.map id := List.map_congr_left fun r hr => by simp [h r hr]
    _ = rows := List.map_id _

/-- **A dispatcher whose lease was taken over changes nothing.** -/
theorem finishes_takenOver {worker : String}
    (hclaim : (w.workers worker).claim = some event) (h : TakenOver w event) (now : Nat) :
    (w.step (.finishes worker now)).rows = w.rows := by
  have hheld := heldUnder_takenOver h
  rw [OutboxWorld.step]
  split
  · rename_i e hworker
    rw [hworker] at hclaim
    cases hclaim
    exact update_eq_self hheld
  · rename_i e error hworker
    rw [hworker] at hclaim
    cases hclaim
    exact update_eq_self hheld
  · rfl

theorem OutboxSafe.one_token (h : OutboxSafe w) {eventId t t' : String}
    (ht : w.rows.countP (OutboxRow.heldUnder eventId t) = 1)
    (ht' : w.rows.countP (OutboxRow.heldUnder eventId t') = 1) : t = t' := by
  obtain ⟨r, hr, hheld⟩ := List.countP_pos_iff.mp (ht ▸ Nat.one_pos)
  obtain ⟨r', hr', hheld'⟩ := List.countP_pos_iff.mp (ht' ▸ Nat.one_pos)
  obtain ⟨hid, -, htoken⟩ := state_of_heldUnder hheld
  obtain ⟨hid', -, htoken'⟩ := state_of_heldUnder hheld'
  have hsame : r = r' := List.inj_on_of_nodup_map h.ids hr hr' (hid.trans hid'.symm)
  exact Option.some.inj (htoken.symm.trans (hsame ▸ htoken'))

/-- What a run keeps of what was there. -/
structure Onward (w last : OutboxWorld) : Prop where
  events : w.rows.map OutboxRow.eventId <+: last.rows.map OutboxRow.eventId
  delivered : ∀ r ∈ w.rows, r.state = .delivered → r ∈ last.rows
  takenOver : ∀ event : ClaimedEvent, event.leaseToken ∈ w.tokens → TakenOver w event →
    TakenOver last event

theorem onward_run (w : OutboxWorld) (steps : List OutboxStep) :
    Onward w (w.run steps) ∧ w.tokens ⊆ (w.run steps).tokens := by
  induction steps generalizing w with
  | nil => exact ⟨⟨List.prefix_rfl, fun _ hr _ => hr, fun _ _ h => h⟩, List.Subset.refl _⟩
  | cons s steps ih =>
    obtain ⟨hrest, htokens⟩ := ih (w.step s)
    have hrows := step_rows w s
    have hfirst : w.rows.map OutboxRow.eventId <+: (w.step s).rows.map OutboxRow.eventId := by
      rcases hrows.ids with heq | ⟨id, -, heq⟩
      · rw [heq]
      · rw [heq]
        exact List.prefix_append _ _
    refine ⟨⟨hfirst.trans hrest.events, fun r hr hstate => ?_, fun event htoken hover => ?_⟩,
      fun t ht => htokens (tokens_step w s ht)⟩
    · exact hrest.delivered r (hrows.delivered_stays hr hstate) hstate
    · exact hrest.takenOver event (tokens_step w s htoken) (takenOver_step htoken hover s)

theorem OutboxSafe.run (h : OutboxSafe w) (steps : List OutboxStep) : OutboxSafe (w.run steps) := by
  induction steps generalizing w with
  | nil => exact h
  | cons s steps ih => exact ih (h.step s)

end

/-- A step makes a row delivered only for a dispatcher whose deliver call of this event returned,
under the token that is on the row. -/
def DeliveredBy (w : OutboxWorld) (s : OutboxStep) (r : OutboxRow) : Prop :=
  ∃ worker event now old, s = .finishes worker now ∧ w.workers worker = .returned event
    ∧ (event.eventId, event.leaseToken) ∈ w.returns ∧ event.eventId = r.eventId
    ∧ old ∈ w.rows ∧ old.eventId = r.eventId ∧ old.state = .processing
    ∧ old.leaseToken = some event.leaseToken

/-- **The outbox under any interleaving.** Events stay, in the states of delivery; one becomes
delivered only by the token under which a deliver call returned, and stays delivered; at any time
one token, held by at most one dispatcher, can finish or retry an event; and a dispatcher whose
claim was taken over changes nothing any more. -/
theorem capability_outbox_laws (steps more : List OutboxStep) (s : OutboxStep) :
    let w := OutboxWorld.run {} steps
    let last := w.run more
    (w.rows.map OutboxRow.eventId).Nodup
      ∧ (∀ r ∈ w.rows, r.state = .pending ∨ r.state = .processing ∨ r.state = .delivered)
      ∧ w.rows.map OutboxRow.eventId <+: last.rows.map OutboxRow.eventId
      ∧ (∀ r ∈ w.rows, r.state = .delivered → r ∈ last.rows)
      ∧ (∀ r ∈ (w.step s).rows, r.state = .delivered → r ∈ w.rows ∨ DeliveredBy w s r)
      ∧ (∀ eventId t t' error delay now,
        ((markDelivered w.rows eventId t now).2 = true
          ∨ (retry w.rows eventId t error delay now).2 = true) →
        ((markDelivered w.rows eventId t' now).2 = true
          ∨ (retry w.rows eventId t' error delay now).2 = true) → t = t')
      ∧ (∀ a b e f, (w.workers a).claim = some e → (w.workers b).claim = some f →
        e.leaseToken = f.leaseToken → a = b)
      ∧ ∀ worker event, event.leaseToken ∈ w.tokens → TakenOver w event →
        (last.workers worker).claim = some event →
        ∀ now, (last.step (.finishes worker now)).rows = last.rows := by
  intro w last
  have hempty : OutboxSafe {} := ⟨List.nodup_nil, nofun, nofun, nofun, nofun, nofun⟩
  have hsafe : OutboxSafe w := hempty.run steps
  obtain ⟨honward, -⟩ := onward_run w more
  refine ⟨hsafe.ids, fun r hr => ?_, honward.events, honward.delivered, fun r hr hstate => ?_,
    fun eventId t t' error delay now ht ht' => ?_, hsafe.single,
    fun worker event htoken hover hclaim now =>
      finishes_takenOver hclaim (honward.takenOver event htoken hover) now⟩
  · have hstate := hsafe.states r hr
    cases hr' : r.state with
    | pending => exact Or.inl rfl
    | processing => exact Or.inr (Or.inl rfl)
    | delivered => exact Or.inr (Or.inr rfl)
    | quarantined => exact absurd hr' hstate
  · cases (step_rows w s).origin hr with
    | same hold => exact Or.inl hold
    | recorded hpending _ => rw [hpending] at hstate; cases hstate
    | claimed old hold _ _ hprocessing => rw [hprocessing] at hstate; cases hstate
    | delivered old hold hid worker event now hstep hworker hheld _ _ =>
      obtain ⟨hevent, hprocessing, htoken⟩ := state_of_heldUnder hheld
      exact Or.inr ⟨worker, event, now, old, hstep, hworker, hsafe.returned worker event hworker,
        hevent.symm.trans hid.symm, hold, hid.symm, hprocessing, htoken⟩
    | retried old hold _ hpending _ => rw [hpending] at hstate; cases hstate
  · have hcount : ∀ t, ((markDelivered w.rows eventId t now).2 = true
        ∨ (retry w.rows eventId t error delay now).2 = true) →
        w.rows.countP (OutboxRow.heldUnder eventId t) = 1 := by
      intro t ht
      rcases ht with ht | ht <;> exact beq_iff_eq.mp ht
    exact hsafe.one_token (hcount t ht) (hcount t' ht')

end Ai00.Agent
