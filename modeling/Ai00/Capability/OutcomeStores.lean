import Ai00.Basic.Checks
import Ai00.Basic.KeyedRows
import Ai00.Basic.Successive

/-! # Outcomes and the audit outbox

`InMemoryOutcomeStore` and `SqlOutcomeStore` of `outcomes.py`: the records of operations, and beside each
record that is no longer started its audit event, which `deliver_audit_outbox` hands to a sender. A delivery
reads the pending events, sends them one after another, and marks each by its id.

`mark_unknown` of the store in memory does not look at the status of the record, as the statement of the other
store does; where it is not called for what is final, outcomes are kept (`outcomes_kept`). A delivery marks an
event whatever was written to it since it was read; where nothing was, what is marked has been sent
(`marked_was_handed`).
-/

namespace Ai00.Capability.Outcomes

open KeyedRows Successive

inductive Backend where
  | inMemory
  | sql
  deriving DecidableEq

inductive OutcomeStatus where
  | started
  | completed
  | failed
  | outcomeUnknown
  deriving DecidableEq

/-- `details` are the fields that name the capability, the request, the tenant, the actor and the consumer. -/
structure OutcomeRecord (R D : Type) where
  operationId : Str
  idempotencyScope : Str
  payloadHash : Str
  consumerScope : Str
  details : D
  status : OutcomeStatus
  result : Option R

structure AuditPayload (D : Type) where
  operationId : Option Str
  consumerScope : Option Str
  details : D
  payloadHash : Str
  status : OutcomeStatus

/-- The id of an event is `audit_` and that of its operation. -/
structure AuditOutboxEvent (D : Type) where
  operationId : Str
  payload : AuditPayload D
  createdAt : ℕ
  deliveredAt : Option ℕ

/-- `result.ok`, and `durable_result` with its flag. -/
structure Results (R : Type) where
  ok : R → Bool
  durable : Bool → R → R

structure OutcomeStore (R D : Type) where
  records : List (OutcomeRecord R D) := []
  outbox : List (AuditOutboxEvent D) := []

variable {R D : Type} [DecidableEq R] (backend : Backend) (results : Results R)

/-! ## The stores -/

namespace OutcomeStore

variable (s : OutcomeStore R D)

def record? (operationId : Str) : Option (OutcomeRecord R D) :=
  lookup OutcomeRecord.operationId operationId s.records

def begin (record : OutcomeRecord R D) : Except String (OutcomeStore R D) :=
  match lookup OutcomeRecord.idempotencyScope record.idempotencyScope s.records with
  | some existing => do
    require (existing.payloadHash = record.payloadHash) "idempotency_payload_conflict"
    return s
  | none => return { s with records := upsert OutcomeRecord.operationId record s.records }

def auditPayload (record : OutcomeRecord R D) (status : OutcomeStatus) : AuditPayload D where
  -- the payload of an unknown outcome has no `consumer_scope`, and that of the SQL store an `operation_id`
  operationId := if status = .outcomeUnknown ∧ backend = .sql then some record.operationId else none
  consumerScope := if status = .outcomeUnknown then none else some record.consumerScope
  details := record.details
  payloadHash := record.payloadHash
  status

/-- What the finalizing calls write: the status, the result, and the event. A row of the outbox that is there
keeps its `created_at`; there is none for a record that is started. -/
def settle (record : OutcomeRecord R D) (status : OutcomeStatus) (result : R) (now : ℕ) : OutcomeStore R D where
  records := upsert OutcomeRecord.operationId { record with status, result := some result } s.records
  outbox := upsert AuditOutboxEvent.operationId
    { operationId := record.operationId
      payload := auditPayload backend record status
      createdAt := match backend, lookup AuditOutboxEvent.operationId record.operationId s.outbox with
        | .sql, some event => event.createdAt
        | _, _ => now
      deliveredAt := none } s.outbox

def complete (operationId : Str) (result : R) (preserve : Bool) (now : ℕ) : Except String (OutcomeStore R D) := do
  let record ← found (s.record? operationId) "outcome_not_found"
  if record.status ≠ .started then
    require (record.result = some (results.durable preserve result)) "outcome_already_final"
    return s
  else
    return s.settle backend record (if results.ok result then .completed else .failed)
      (results.durable preserve result) now

/-- Only the statement of the SQL store has `status='started'`. -/
def markUnknown (operationId : Str) (result : R) (now : ℕ) : Except String (OutcomeStore R D) := do
  let record ← found (s.record? operationId) "outcome_not_found"
  require (backend = .inMemory ∨ record.status = .started) "outcome_unknown_update_failed"
  return s.settle backend record .outcomeUnknown (results.durable false result) now

def reconcileCompleted (operationId : Str) (result : R) (now : ℕ) : Except String (OutcomeStore R D) := do
  let record ← found (s.record? operationId) "outcome_not_found"
  if record.status = .completed then return s
  else
    require (record.status = .started ∨ record.status = .outcomeUnknown) "outcome_already_final"
    return s.settle backend record .completed (results.durable false result) now

/-- `pending_audit_events`. -/
def pending (limit : ℕ) : List (AuditOutboxEvent D) :=
  let events := s.outbox.filter fun event => event.deliveredAt = none
  match backend with
  | .inMemory => events
  | .sql => (events.insertionSort fun e e' => e.createdAt ≤ e'.createdAt).take (max 1 (min limit 1000))

/-- What a delivery writes of an event that was sent. -/
def marked (operationId : Str) (now : ℕ) : OutcomeStore R D :=
  { s with outbox := s.outbox.map fun event =>
      if event.operationId = operationId ∧ event.deliveredAt = none then { event with deliveredAt := some now }
      else event }

end OutcomeStore

/-! ## Runs -/

/-- A run of `deliver_audit_outbox`: the events that are still to be sent, and the one that was sent and is to
be marked. -/
structure Delivery (D : Type) where
  rest : List (AuditOutboxEvent D) := []
  sent : Option (AuditOutboxEvent D) := none

structure World (R D : Type) where
  store : OutcomeStore R D := {}
  deliveries : ℕ → Delivery D := fun _ => {}
  /-- what a sender has accepted -/
  handed : List (Str × AuditPayload D) := []

inductive Call (R D : Type) where
  | begin (operationId idempotencyScope payloadHash consumerScope : Str) (details : D)
  | complete (operationId : Str) (result : R) (preserve : Bool) (now : ℕ)
  | markUnknown (operationId : Str) (result : R) (now : ℕ)
  | reconcile (operationId : Str) (result : R) (now : ℕ)
  | read (delivery limit : ℕ)
  | send (delivery : ℕ) (accepted : Bool)
  | mark (delivery now : ℕ)

/-- What a call that returns makes of the store; the ids of operations are new. -/
def storeCall (s : OutcomeStore R D) : Call R D → Except String (OutcomeStore R D)
  | .begin operationId scope hash consumer details =>
    if operationId ∈ s.records.map OutcomeRecord.operationId then .ok s
    else s.begin ⟨operationId, scope, hash, consumer, details, .started, none⟩
  | .complete operationId result preserve now => s.complete backend results operationId result preserve now
  | .markUnknown operationId result now => s.markUnknown backend results operationId result now
  | .reconcile operationId result now => s.reconcileCompleted backend results operationId result now
  | _ => .ok s

def World.answered (w : World R D) : Except String (OutcomeStore R D) → World R D
  | .ok store => { w with store }
  | .error _ => w

def step (w : World R D) : Call R D → World R D
  | .read k limit => { w with deliveries := Function.update w.deliveries k ⟨w.store.pending backend limit, none⟩ }
  | .send k accepted =>
    match w.deliveries k with
    | ⟨event :: rest, none⟩ =>
      if accepted then
        { w with deliveries := Function.update w.deliveries k ⟨rest, some event⟩
                 handed := (event.operationId, event.payload) :: w.handed }
      else { w with deliveries := Function.update w.deliveries k ⟨rest, none⟩ }
    | _ => w
  | .mark k now =>
    match w.deliveries k with
    | ⟨rest, some event⟩ =>
      { w with store := w.store.marked event.operationId now
               deliveries := Function.update w.deliveries k ⟨rest, none⟩ }
    | _ => w
  | call => w.answered (storeCall backend results w.store call)

def run (calls : List (Call R D)) : World R D := after (step backend results) {} calls

def OutcomeRecord.Final (r : OutcomeRecord R D) : Prop := r.status = .completed ∨ r.status = .failed

/-- The call gives the record this status, and writes its event. -/
def Call.Settles (r : OutcomeRecord R D) : Call R D → OutcomeStatus → Prop
  | .complete id _ _ _, status => id = r.operationId ∧ r.status = .started ∧ status ≠ .started
  | .markUnknown id _ _, status =>
    id = r.operationId ∧ (backend = .inMemory ∨ r.status = .started) ∧ status = .outcomeUnknown
  | .reconcile id _ _, status =>
    id = r.operationId ∧ (r.status = .started ∨ r.status = .outcomeUnknown) ∧ status = .completed
  | _, _ => False

/-- The store in memory is not told that the outcome of a final record is unknown. -/
def Guarded (w : World R D) : Call R D → Prop
  | .markUnknown operationId _ _ => backend = .sql ∨ ∀ r, w.store.record? operationId = some r → ¬ r.Final
  | _ => True

def Delivery.Holds (d : Delivery D) (event : AuditOutboxEvent D) : Prop := event ∈ d.rest ∨ d.sent = some event

/-- No delivery that has read an event is under way when the event is written. -/
def Undisturbed (w : World R D) (call : Call R D) : Prop :=
  ∀ r status, w.store.record? r.operationId = some r → call.Settles backend r status →
    ∀ k event, (w.deliveries k).Holds event → event.operationId ≠ r.operationId

structure KeepsOutcomes (calls : List (Call R D)) : Prop where
  final : ∀ past more r, past ++ more = calls → r ∈ (run backend results past).store.records → r.Final →
    r ∈ (run backend results calls).store.records
  unknown : ∀ past call more r, past ++ call :: more = calls → r ∈ (run backend results past).store.records →
    r.status = .outcomeUnknown → (∃ result now, call = .reconcile r.operationId result now)
      ∨ ∃ r' ∈ (run backend results (past ++ [call])).store.records,
          r'.operationId = r.operationId ∧ r'.status = .outcomeUnknown
  single : ((run backend results calls).store.outbox.map AuditOutboxEvent.operationId).Nodup
  audited : ∀ r ∈ (run backend results calls).store.records, r.status ≠ .started →
    ∃ e ∈ (run backend results calls).store.outbox, e.operationId = r.operationId ∧ e.payload.status = r.status

/-- What is stored of a marked event has been handed over. -/
def World.MarkedHanded (w : World R D) : Prop :=
  ∀ e ∈ w.store.outbox, e.deliveredAt ≠ none → (e.operationId, e.payload) ∈ w.handed

/-! ## What a call does -/

variable {backend results} {s s' : OutcomeStore R D} {w : World R D} {call : Call R D} {r : OutcomeRecord R D}

theorem storeCall_cases (h : storeCall backend results s call = .ok s') : s' = s
      ∨ (∃ r : OutcomeRecord R D, r.status = .started ∧ r.operationId ∉ s.records.map OutcomeRecord.operationId
          ∧ s' = { s with records := upsert OutcomeRecord.operationId r s.records })
      ∨ ∃ r status result now, s.record? r.operationId = some r ∧ call.Settles backend r status
          ∧ status ≠ .started ∧ s' = s.settle backend r status result now := by
  cases call with
  | begin =>
    rw [storeCall] at h
    split_ifs at h with hnew
    · exact .inl (Except.ok.inj h).symm
    · rw [OutcomeStore.begin] at h
      split at h
      · obtain ⟨-, h⟩ := andThen_eq_ok.mp h
        exact .inl (Except.ok.inj h).symm
      · exact .inr (.inl ⟨_, rfl, hnew, (Except.ok.inj h).symm⟩)
  | complete operationId result preserve now =>
    obtain ⟨record, hrecord, hsettled⟩ := bind_eq_ok.mp h
    obtain rfl := key_of_lookup (found_eq_ok.mp hrecord)
    clear h
    split_ifs at hsettled with hstatus
    · obtain ⟨-, hsettled⟩ := andThen_eq_ok.mp hsettled
      exact .inl (Except.ok.inj hsettled).symm
    all_goals exact .inr (.inr ⟨record, _, _, _, found_eq_ok.mp hrecord, ⟨rfl, not_not.mp hstatus, by decide⟩,
      by decide, (Except.ok.inj hsettled).symm⟩)
  | markUnknown operationId result now =>
    obtain ⟨record, hrecord, hsettled⟩ := bind_eq_ok.mp h
    obtain rfl := key_of_lookup (found_eq_ok.mp hrecord)
    clear h
    obtain ⟨hguard, hsettled⟩ := andThen_eq_ok.mp hsettled
    exact .inr (.inr ⟨record, _, _, _, found_eq_ok.mp hrecord, ⟨rfl, require_eq_ok.mp hguard, rfl⟩, by decide,
      (Except.ok.inj hsettled).symm⟩)
  | reconcile operationId result now =>
    obtain ⟨record, hrecord, hsettled⟩ := bind_eq_ok.mp h
    obtain rfl := key_of_lookup (found_eq_ok.mp hrecord)
    clear h
    split_ifs at hsettled with hstatus
    · exact .inl (Except.ok.inj hsettled).symm
    · obtain ⟨hopen, hsettled⟩ := andThen_eq_ok.mp hsettled
      exact .inr (.inr ⟨record, _, _, _, found_eq_ok.mp hrecord, ⟨rfl, require_eq_ok.mp hopen, rfl⟩, by decide,
        (Except.ok.inj hsettled).symm⟩)
  | read | send | mark => exact .inl (Except.ok.inj h).symm

/-- What a step keeps, if the calls of the store and the steps of a delivery keep it. -/
theorem step_keeps {I : World R D → Prop} (hw : I w)
    (hstore : ∀ store, storeCall backend results w.store call = .ok store → I { w with store })
    (hread : ∀ k limit, call = .read k limit →
      I { w with deliveries := Function.update w.deliveries k ⟨w.store.pending backend limit, none⟩ })
    (hrefused : ∀ k event rest, w.deliveries k = ⟨event :: rest, none⟩ →
      I { w with deliveries := Function.update w.deliveries k ⟨rest, none⟩ })
    (haccepted : ∀ k event rest, w.deliveries k = ⟨event :: rest, none⟩ →
      I { w with deliveries := Function.update w.deliveries k ⟨rest, some event⟩
                 handed := (event.operationId, event.payload) :: w.handed })
    (hmark : ∀ k event rest now, w.deliveries k = ⟨rest, some event⟩ →
      I { w with store := w.store.marked event.operationId now
                 deliveries := Function.update w.deliveries k ⟨rest, none⟩ }) :
    I (step backend results w call) := by
  have hanswered : I (w.answered (storeCall backend results w.store call)) := by
    cases hcall : storeCall backend results w.store call with
    | ok store => exact hstore store hcall
    | error => exact hw
  cases call with
  | begin | complete | markUnknown | reconcile => exact hanswered
  | read k limit => exact hread k limit rfl
  | send k accepted =>
    rw [step]
    split
    case h_1 event rest hd =>
      cases accepted with
      | true => exact haccepted k event rest hd
      | false => exact hrefused k event rest hd
    case h_2 => exact hw
  | mark k now =>
    rw [step]
    split
    case h_1 rest event hd => exact hmark k event rest now hd
    case h_2 => exact hw

/-! ## Records and their events -/

structure Audited (s : OutcomeStore R D) : Prop where
  ids : (s.records.map OutcomeRecord.operationId).Nodup
  events : (s.outbox.map AuditOutboxEvent.operationId).Nodup
  audited : ∀ r ∈ s.records, r.status ≠ .started →
    ∃ e ∈ s.outbox, e.operationId = r.operationId ∧ e.payload.status = r.status

omit [DecidableEq R] in
theorem Audited.settle (h : Audited s) (status : OutcomeStatus) (result : R) (now : ℕ) :
    Audited (s.settle backend r status result now) := by
  refine ⟨nodup_upsert h.ids, nodup_upsert h.events, fun x hx hstatus => ?_⟩
  by_cases hkey : x.operationId = r.operationId
  · have hrow := List.inj_on_of_nodup_map (nodup_upsert h.ids) hx mem_upsert_self hkey
    exact ⟨_, mem_upsert_self, hkey.symm, (congrArg OutcomeRecord.status hrow).symm⟩
  · rcases mem_upsert hx with rfl | hx
    · exact absurd rfl hkey
    · obtain ⟨e, he, hid, hsame⟩ := h.audited x hx hstatus
      exact ⟨e, mem_upsert_of_ne he fun heq => hkey (hid.symm.trans heq), hid, hsame⟩

omit [DecidableEq R] in
theorem mem_marked {operationId : Str} {now : ℕ} {x : AuditOutboxEvent D}
    (h : x ∈ (s.marked operationId now).outbox) : ∃ e ∈ s.outbox, x.operationId = e.operationId
      ∧ x.payload = e.payload ∧ (x.deliveredAt ≠ none → e.deliveredAt ≠ none ∨ e.operationId = operationId) := by
  obtain ⟨e, he, rfl⟩ := List.mem_map.mp h
  refine ⟨e, he, ?_⟩
  split_ifs with hmarks
  · exact ⟨rfl, rfl, fun _ => .inr hmarks.1⟩
  · exact ⟨rfl, rfl, .inl⟩

omit [DecidableEq R] in
theorem Audited.marked (h : Audited s) (operationId : Str) (now : ℕ) : Audited (s.marked operationId now) := by
  refine ⟨h.ids, ?_, fun r hr hstatus => ?_⟩
  · rw [OutcomeStore.marked, List.map_map]
    convert h.events using 2
    funext e
    rw [Function.comp_apply]
    split_ifs <;> rfl
  · obtain ⟨e, he, hid, hsame⟩ := h.audited r hr hstatus
    refine ⟨_, List.mem_map_of_mem he, ?_⟩
    split_ifs <;> exact ⟨hid, hsame⟩

theorem Audited.storeCall (h : Audited s) (hcall : storeCall backend results s call = .ok s') : Audited s' := by
  rcases storeCall_cases hcall with rfl | ⟨r, hstarted, -, rfl⟩ | ⟨r, status, result, now, -, -, -, rfl⟩
  · exact h
  · refine ⟨nodup_upsert h.ids, h.events, fun x hx hstatus => ?_⟩
    rcases mem_upsert hx with rfl | hx
    · exact absurd hstarted hstatus
    · exact h.audited x hx hstatus
  · exact h.settle status result now

theorem audited_step (h : Audited w.store) (call : Call R D) : Audited (step backend results w call).store :=
  step_keeps (I := fun w => Audited w.store) h (fun _ hcall => h.storeCall hcall) (fun _ _ _ => h) (fun _ _ _ _ => h)
    (fun _ _ _ _ => h) fun _ event _ now _ => h.marked event.operationId now

theorem audited_run (calls : List (Call R D)) : Audited (run backend results calls).store :=
  after_keeps (I := fun w : World R D => Audited w.store) ⟨List.nodup_nil, List.nodup_nil, nofun⟩
    fun _ call h => audited_step h call

omit [DecidableEq R] in
theorem Call.Settles.not_final {status : OutcomeStatus} (h : call.Settles backend r status)
    (hr : w.store.record? r.operationId = some r) (hguard : Guarded backend w call) : ¬ r.Final := by
  cases call with
  | complete =>
    rintro (hfinal | hfinal) <;> cases hfinal.symm.trans h.2.1
  | markUnknown =>
    rcases hguard with rfl | hguard
    · rcases h.2.1 with hmemory | hstarted
      · cases hmemory
      · rintro (hfinal | hfinal) <;> cases hfinal.symm.trans hstarted
    · exact hguard r (h.1 ▸ hr)
  | reconcile =>
    rintro (hfinal | hfinal) <;> rcases h.2.1 with hopen | hopen <;> cases hfinal.symm.trans hopen
  | begin | read | send | mark => exact h.elim

/-- What a call that may be made does to a record: only one that is not final is written. -/
theorem record_step (h : Audited w.store) (hguard : Guarded backend w call) (hr : r ∈ w.store.records) :
    r ∈ (step backend results w call).store.records ∨ ¬ r.Final ∧ ∃ status result, call.Settles backend r status
          ∧ { r with status, result := some result } ∈ (step backend results w call).store.records := by
  refine step_keeps (I := fun v => r ∈ v.store.records ∨ ¬ r.Final ∧ ∃ status result, call.Settles backend r status
    ∧ { r with status, result := some result } ∈ v.store.records) (.inl hr) (fun store hcall => ?_)
    (fun _ _ _ => .inl hr) (fun _ _ _ _ => .inl hr) (fun _ _ _ _ => .inl hr) fun _ _ _ _ _ => .inl hr
  rcases storeCall_cases hcall with rfl | ⟨x, -, hnew, rfl⟩ | ⟨x, status, result, now, hx, hsettles, -, rfl⟩
  · exact .inl hr
  · exact .inl (mem_upsert_of_ne hr fun heq => hnew (heq ▸ List.mem_map_of_mem hr))
  · by_cases hkey : r.operationId = x.operationId
    · obtain rfl := List.inj_on_of_nodup_map h.ids hr (mem_of_lookup hx) hkey
      exact .inr ⟨hsettles.not_final hx hguard, status, result, hsettles, mem_upsert_self⟩
    · exact .inl (mem_upsert_of_ne hr hkey)

/-- **Outcomes are kept**, where the store in memory is not told that a final outcome is unknown. -/
theorem outcomes_kept {calls : List (Call R D)}
    (hguard : ∀ past call, past ++ [call] <+: calls → Guarded backend (run backend results past) call) :
    KeepsOutcomes backend results calls := by
  refine ⟨?_, ?_, (audited_run calls).events, (audited_run calls).audited⟩
  · rintro past more r rfl hr hfinal
    rw [run, after_append]
    refine (after_invariant (I := fun w => Audited w.store ∧ r ∈ w.store.records)
      ⟨audited_run past, hr⟩ (fun w call h (hallowed : Guarded backend w call) => ?_) fun past' call hprefix => ?_).2
    · refine ⟨audited_step h.1 call, (record_step h.1 hallowed h.2).resolve_right fun hwritten => ?_⟩
      exact hwritten.1 hfinal
    · have hcall := hguard (past ++ past') call
        (by rw [List.append_assoc]; exact (List.prefix_append_right_inj past).mpr hprefix)
      rwa [run, after_append] at hcall
  · rintro past call more r rfl hr hunknown
    have hcall := hguard past call ⟨more, by rw [List.append_assoc, List.singleton_append]⟩
    rw [run, after_concat, ← run]
    rcases record_step (audited_run past) hcall hr with hkept | ⟨-, status, result, hsettles, hwritten⟩
    · exact .inr ⟨r, hkept, rfl, hunknown⟩
    · cases call with
      | complete => cases hunknown.symm.trans hsettles.2.1
      | markUnknown => exact .inr ⟨_, hwritten, rfl, hsettles.2.2⟩
      | reconcile _ result now => exact .inl ⟨result, now, by rw [hsettles.1]⟩
      | begin | read | send | mark => exact hsettles.elim

/-! ## Deliveries -/

/-- Marked events have been handed over, and what a delivery holds is what the outbox holds. -/
structure Delivered (w : World R D) : Prop where
  handed : w.MarkedHanded
  sent : ∀ k e, (w.deliveries k).sent = some e → (e.operationId, e.payload) ∈ w.handed
  held : ∀ k e', (w.deliveries k).Holds e' → ∀ e ∈ w.store.outbox, e.operationId = e'.operationId →
    e.payload = e'.payload

omit [DecidableEq R] in
theorem mem_of_pending {limit : ℕ} {e : AuditOutboxEvent D} (h : e ∈ s.pending backend limit) : e ∈ s.outbox := by
  cases backend with
  | inMemory => exact (List.mem_filter.mp h).1
  | sql => exact (List.mem_filter.mp ((List.mem_insertionSort _).mp (List.mem_of_mem_take h))).1

theorem Delivered.stored (h : Delivered w) (hcalm : Undisturbed backend w call) {store : OutcomeStore R D}
    (hcall : storeCall backend results w.store call = .ok store) : Delivered { w with store } := by
  rcases storeCall_cases hcall with rfl | ⟨r, -, -, rfl⟩ | ⟨r, status, result, now, hr, hsettles, -, rfl⟩
  · exact h
  · exact ⟨h.handed, h.sent, h.held⟩
  · refine ⟨fun e he hmarked => ?_, h.sent, fun k e' hholds e he hid => ?_⟩
    · rcases mem_upsert he with rfl | he
      · exact absurd rfl hmarked
      · exact h.handed e he hmarked
    · rcases mem_upsert he with rfl | he
      · exact absurd hid.symm (hcalm r status hr hsettles k e' hholds)
      · exact h.held k e' hholds e he hid

omit [DecidableEq R] in
theorem Delivered.delivery (h : Delivered w) {k : ℕ} {d : Delivery D} {handed : List (Str × AuditPayload D)}
    (hmore : ∀ x ∈ w.handed, x ∈ handed) (hsent : ∀ e, d.sent = some e → (e.operationId, e.payload) ∈ handed)
    (hheld : ∀ e', d.Holds e' → ∀ e ∈ w.store.outbox, e.operationId = e'.operationId → e.payload = e'.payload) :
    Delivered { w with deliveries := Function.update w.deliveries k d, handed } := by
  refine ⟨fun e he hmarked => hmore _ (h.handed e he hmarked),
    fun i e (hi : (Function.update w.deliveries k d i).sent = some e) => ?_,
    fun i e' (hi : (Function.update w.deliveries k d i).Holds e') => ?_⟩
  · obtain rfl | hne := eq_or_ne i k
    · exact hsent e (by rwa [Function.update_self] at hi)
    · exact hmore _ (h.sent i e (by rwa [Function.update_of_ne hne] at hi))
  · obtain rfl | hne := eq_or_ne i k
    · exact hheld e' (by rwa [Function.update_self] at hi)
    · exact h.held i e' (by rwa [Function.update_of_ne hne] at hi)

omit [DecidableEq R] in
theorem Delivered.marked (h : Delivered w) {k : ℕ} {e' : AuditOutboxEvent D}
    (hsent : (w.deliveries k).sent = some e') (now : ℕ) :
    Delivered { w with store := w.store.marked e'.operationId now } := by
  refine ⟨fun x hx hmarked => ?_, h.sent, fun i d hd x hx hid => ?_⟩
  · obtain ⟨e, he, hid, hpayload, hdelivered⟩ := mem_marked hx
    rw [hid, hpayload]
    rcases hdelivered hmarked with hbefore | hmarks
    · exact h.handed e he hbefore
    · rw [hmarks, h.held k e' (.inr hsent) e he hmarks]
      exact h.sent k e' hsent
  · obtain ⟨e, he, hsame, hpayload, -⟩ := mem_marked hx
    rw [hpayload]
    exact h.held i d hd e he (hsame.symm.trans hid)

theorem delivered_step (haudited : Audited w.store) (h : Delivered w) (hcalm : Undisturbed backend w call) :
    Delivered (step backend results w call) := by
  refine step_keeps h (fun _ => h.stored hcalm) (fun k limit _ => ?_) (fun k event rest hd => ?_)
    (fun k event rest hd => ?_) fun k event rest now hd => ?_
  · refine h.delivery (fun _ => id) nofun fun e' hholds e he hid => ?_
    have he' := mem_of_pending (hholds.resolve_right nofun)
    rw [List.inj_on_of_nodup_map haudited.events he he' hid]
  · refine h.delivery (fun _ => id) nofun fun e' hholds => h.held k e' (.inl ?_)
    rw [hd]
    exact List.mem_cons_of_mem _ (hholds.resolve_right nofun)
  · refine h.delivery (fun _ => List.mem_cons_of_mem _) (fun e he => ?_) fun e' hholds => h.held k e' (.inl ?_)
    · cases he
      exact List.mem_cons_self
    · rw [hd]
      rcases hholds with hrest | hsent
      · exact List.mem_cons_of_mem _ hrest
      · cases hsent
        exact List.mem_cons_self
  · have hsent : (w.deliveries k).sent = some event := by rw [hd]
    refine (h.marked hsent now).delivery (fun _ => id) nofun fun e' hholds x hx hid => ?_
    refine (h.marked hsent now).held k e' (.inl ?_) x hx hid
    rw [hd]
    exact hholds.resolve_right nofun

/-- **What is marked has been sent**, where no event is written that a delivery under way has read. -/
theorem marked_was_handed {calls : List (Call R D)}
    (hcalm : ∀ past call, past ++ [call] <+: calls → Undisturbed backend (run backend results past) call) :
    (run backend results calls).MarkedHanded := by
  have hnone (d : AuditOutboxEvent D) : ¬ ({} : Delivery D).Holds d := fun hholds => hholds.elim nofun nofun
  have hstart : Audited ({} : World R D).store ∧ Delivered ({} : World R D) :=
    ⟨⟨List.nodup_nil, List.nodup_nil, nofun⟩, nofun, nofun, fun _ _ hholds => (hnone _ hholds).elim⟩
  refine (after_invariant (I := fun w : World R D => Audited w.store ∧ Delivered w) hstart
    (fun w call h (hallowed : Undisturbed backend w call) => ?_) hcalm).2.handed
  exact ⟨audited_step h.1 call, delivered_step h.1 h.2 hallowed⟩

/-! ## One operation -/

/-- Results that are the flag `ok`. -/
def flags : Results Bool := ⟨id, fun _ ok => ok⟩

def begun : Call Bool Unit := .begin ['o'] ['s'] ['h'] ['c'] ()

theorem outcomes_kept_by_sql :
    KeepsOutcomes .sql flags [begun, .complete ['o'] true false 1, .markUnknown ['o'] false 2] :=
  outcomes_kept fun _ call _ => by
    cases call with
    | markUnknown => exact .inl rfl
    | _ => trivial

/-- The outcome that a commit has failed after is unknown, though its record is completed. -/
theorem completed_becomes_unknown :
    ¬ KeepsOutcomes .inMemory flags [begun, .complete ['o'] true false 1, .markUnknown ['o'] false 2] := by
  intro h
  have hlost := h.final [begun, .complete ['o'] true false 1] [.markUnknown ['o'] false 2]
    ⟨['o'], ['s'], ['h'], ['c'], (), .completed, some true⟩ rfl List.mem_cons_self (.inl rfl)
  cases congrArg OutcomeRecord.status (List.mem_singleton.mp hlost)

theorem marked_was_handed_once :
    (run .sql flags [begun, .complete ['o'] true false 1, .read 0 9, .send 0 true, .mark 0 2]).MarkedHanded := by
  refine marked_was_handed fun past call hpast r status hr hsettles => ?_
  obtain ⟨more, hmore⟩ := hpast
  match past, hmore with
  | _ :: _ :: _ :: _ :: _ :: _, h => simp at h
  | [], h => cases h; exact hsettles.elim
  | [_], h => cases h; exact fun k e hholds => (Or.elim hholds nofun nofun : False).elim
  | [_, _], h => cases h; exact hsettles.elim
  | [_, _, _], h => cases h; exact hsettles.elim
  | [_, _, _, _], h => cases h; exact hsettles.elim

/-- The event is written between the sending and the mark. -/
theorem reconciled_not_handed : ¬ (run .sql flags [begun, .markUnknown ['o'] false 1, .read 0 9, .send 0 true,
    .reconcile ['o'] true 2, .mark 0 3]).MarkedHanded := by
  intro h
  have hhanded := h _ List.mem_cons_self nofun
  cases congrArg (AuditPayload.status ∘ Prod.snd) (List.mem_singleton.mp hhanded)

end Ai00.Capability.Outcomes
