import Ai00.Capability.Operations

/-! # The history of an operation

What is stored of an operation, write by write, when any number of clients transition and
reconcile operations at once. Each write follows the one before it, as long as a transition is
called with the version of the record it reads. The compare-and-swap tests the version that the
caller passes, the replacement is made from the record that was read, and nothing compares the
two; two clients at one operation are enough to leave a terminal status (`stale_transition`).
-/

namespace Ai00.Capability

open Program

/-! ## What is stored -/

/-- The part of a record that a write changes. -/
structure OperationState where
  status : OperationStatus
  version : Nat
  errorCode : Option Str
  deriving DecidableEq

def OperationRecord.state (r : OperationRecord) : OperationState :=
  ⟨r.ref.status, r.ref.version, r.errorCode⟩

/-- A write that may come after another. -/
def Follows (a b : OperationState) : Prop :=
  b.status ∈ transitions a.status ∧ b.version = a.version + 1

/-- What an exchange stores of the operation `id`. -/
def storedBy (id : Str) : Exchange OperationAnswer → Option OperationState
  | ⟨.create record, _⟩ => if record.ref.operationId = id then some record.state else none
  | ⟨.compareAndSwap operationId _ replacement, _⟩ =>
    if operationId = id then some replacement.state else none
  | _ => none

def stored (id : Str) (trace : List (Exchange OperationAnswer)) : List OperationState :=
  trace.filterMap (storedBy id)

theorem stored_append (id : Str) (trace : List (Exchange OperationAnswer))
    (x : Exchange OperationAnswer) :
    stored id (trace ++ [x]) = stored id trace ++ (storedBy id x).toList := by
  unfold stored
  rw [List.filterMap_append]
  cases h : storedBy id x with
  | none => simp [h]
  | some s => simp [h]

/-- The stores and the trace agree, and every write follows the one before it. -/
structure Lawful (current : Str → Option OperationState)
    (trace : List (Exchange OperationAnswer)) : Prop where
  last : ∀ id, current id = (stored id trace).getLast?
  chain : ∀ id, (stored id trace).IsChain Follows

theorem version_lt {l : List OperationState} (h : l.IsChain Follows) :
    l.Pairwise (fun a b => a.version < b.version) := by
  have hlt : l.IsChain (fun a b => a.version < b.version) :=
    h.imp (fun a b hab => by rw [hab.2]; exact Nat.lt_succ_self _)
  have htrans : IsTrans OperationState (fun a b => a.version < b.version) :=
    ⟨fun _ _ _ => Nat.lt_trans⟩
  exact List.isChain_iff_pairwise.mp hlt

theorem eq_of_version_eq {l : List OperationState} (h : l.IsChain Follows) {a b : OperationState}
    (ha : a ∈ l) (hb : l.getLast? = some b) (hab : a.version = b.version) : a = b := by
  obtain ⟨front, rfl⟩ := List.getLast?_eq_some_iff.mp hb
  have hlt := (List.pairwise_append.mp (version_lt h)).2.2
  rcases List.mem_append.mp ha with hfront | hlast
  · have hless := hlt a hfront b (List.mem_singleton_self b)
    omega
  · exact List.mem_singleton.mp hlast

variable {trace : List (Exchange OperationAnswer)} {id : Str}

variable {s : OperationState}

theorem Lawful.terminal {current : Str → Option OperationState}
    (h : Lawful current trace)
    {before after : List OperationState}
    (hs : stored id trace = before ++ s :: after) (ht : s.status.Terminal) : after = [] := by
  cases after with
  | nil => rfl
  | cons next after =>
    have hchain := h.chain id
    rw [hs] at hchain
    obtain ⟨hmem, -⟩ := List.isChain_iff_forall_rel_of_append_cons_cons.mp hchain rfl
    rw [show transitions s.status = [] from ht] at hmem
    cases hmem

/-! ## Stores -/

/-- What the history needs of a store: the state it holds of each operation, and what its
operations do to it. -/
structure LawfulStore {σ : Type} (store : OperationStore σ)
    (current : σ → Str → Option OperationState) : Prop where
  get : ∀ {id s r}, store.get id s = .ok r → current s id = some r.state
  create : ∀ {record r s s'}, store.create record s = .ok (r, s') →
    current s record.ref.operationId = none
      ∧ current s' = Function.update (current s) record.ref.operationId (some record.state)
  swap : ∀ {id expected replacement r s s'},
    store.compareAndSwap id expected replacement s = .ok (r, s') →
      r = replacement ∧ (current s id).map OperationState.version = some expected
        ∧ current s' = Function.update (current s) id (some replacement.state)

/-- What the dictionary holds. -/
def memoryState (s : OperationTable) (id : Str) : Option OperationState :=
  (s.lookup id).map OperationRecord.state

theorem memoryState_insert (s : OperationTable) (id : Str) (record : OperationRecord) :
    memoryState (s.insert id record) = Function.update (memoryState s) id (some record.state) := by
  funext q
  by_cases h : q = id
  · subst h
    simp [memoryState]
  · simp [memoryState, h]

theorem inMemoryOperationStore_lawful : LawfulStore inMemoryOperationStore memoryState where
  get := by
    intro id s r h
    simp only [inMemoryOperationStore, InMemoryOperationStore.get] at h
    split at h
    · cases h
    · rename_i record hrecord
      cases h
      simp [memoryState, hrecord]
  create := by
    intro record r s s' h
    simp only [inMemoryOperationStore, InMemoryOperationStore.create] at h
    split_ifs at h with hfree
    cases h
    rw [Bool.not_eq_true, Option.isSome_eq_false_iff, Option.isNone_iff_eq_none] at hfree
    exact ⟨by simp [memoryState, hfree], memoryState_insert s _ record⟩
  swap := by
    intro id expected replacement r s s' h
    simp only [inMemoryOperationStore, InMemoryOperationStore.compareAndSwap] at h
    split at h
    · cases h
    · rename_i held hheld
      split_ifs at h with hversion
      cases h
      refine ⟨rfl, ?_, memoryState_insert s _ replacement⟩
      simpa [memoryState, hheld, OperationRecord.state] using hversion

def OperationRow.state (r : OperationRow) : OperationState :=
  ⟨r.status, r.operationVersion, r.errorCode⟩

/-- What the table holds. -/
def rowState (rows : List OperationRow) (id : Str) : Option OperationState :=
  (rows.find? (fun r => r.operationId = id)).map OperationRow.state

theorem sqlOperationStore_lawful : LawfulStore sqlOperationStore rowState where
  get := by
    intro id rows r h
    simp only [sqlOperationStore, SqlOperationStore.get] at h
    split at h
    · cases h
    · rename_i row hrow
      unfold SqlOperationStore.operationFromRow at h
      split_ifs at h
      cases h
      simp [rowState, hrow, OperationRow.state, OperationRecord.state]
  create := by
    intro record r rows rows' h
    simp only [sqlOperationStore, SqlOperationStore.create] at h
    split_ifs at h
    split at h
    · cases h
    · rename_i inserted hinserted
      cases h
      obtain ⟨hnew, rfl⟩ := Rows.insert_eq_some.mp hinserted
      have hfree : rows.find? (fun r => r.operationId = record.ref.operationId) = none := by
        rw [List.find?_eq_none]
        intro r hr
        have hne := hnew r hr
        simpa [SqlOperationStore.operationRow, eq_comm] using hne
      refine ⟨by simp [rowState, hfree], ?_⟩
      funext q
      by_cases hq : q = record.ref.operationId
      · subst hq
        rw [Function.update_self, rowState,
          Rows.find?_append_self (by simp [SqlOperationStore.operationRow]) hfree]
        rfl
      · rw [Function.update_of_ne hq, rowState, rowState,
          Rows.find?_append_of_not (by simp [SqlOperationStore.operationRow, Ne.symm hq])]
  swap := by
    intro id expected replacement r rows rows' h
    simp only [sqlOperationStore, SqlOperationStore.compareAndSwap] at h
    split_ifs at h
    split at h
    · cases h
    · rename_i row hrow
      split_ifs at h with hno
      cases h
      rw [not_or, not_not] at hno
      have hid : row.operationId = id := by simpa using List.find?_some hrow
      refine ⟨rfl, by simp [rowState, hrow, OperationRow.state, hno.1], ?_⟩
      funext q
      -- the update writes no identifier, so a search sees the old rows through it
      have hwritten : ∀ r : OperationRow, decide (r.operationId = id) = true →
          decide ((SqlOperationStore.written replacement r).operationId = q)
            = decide (r.operationId = q) := fun _ _ => rfl
      rw [rowState, Rows.find?_update hwritten]
      by_cases hq : q = id
      · subst hq
        rw [Function.update_self, hrow, Option.map_some, if_pos (by simpa using hid)]
        rfl
      · rw [Function.update_of_ne hq, rowState]
        cases hfind : rows.find? (fun r => r.operationId = q) with
        | none => rfl
        | some other =>
          have hother : other.operationId = q := by simpa using List.find?_some hfind
          rw [Option.map_some, if_neg (by simpa [hother] using hq)]

/-! ## What a call has read -/

/-- The record that an exchange hands to the call, with the operation it is about. -/
def handedOut : Exchange OperationAnswer → Option (Str × OperationRecord)
  | ⟨.get id, record⟩ => some (id, record)
  | ⟨.compareAndSwap id _ _, record⟩ => some (id, record)
  | _ => none

/-- The record that the call holds: the last one handed to it. -/
def held (history : List (Exchange OperationAnswer)) : Option (Str × OperationRecord) :=
  (history.filterMap handedOut).getLast?

variable {history : List (Exchange OperationAnswer)} {x : Exchange OperationAnswer}

theorem held_append_some {p : Str × OperationRecord} (h : handedOut x = some p) :
    held (history ++ [x]) = some p := by
  simp [held, List.filterMap_append, h]

theorem held_append_none (h : handedOut x = none) : held (history ++ [x]) = held history := by
  simp [held, List.filterMap_append, h]

theorem exists_handedOut_of_held
    {p : Str × OperationRecord} (h : held history = some p) : ∃ x ∈ history, handedOut x = some p :=
  List.mem_filterMap.mp (List.mem_of_getLast? h)

/-- A write answers with the record it stored. -/
def Faithful (x : Exchange OperationAnswer) : Prop :=
  match x with
  | ⟨.compareAndSwap _ _ replacement, record⟩ => record = replacement
  | _ => True

/-- What a request promises: a replacement is made from the record the call holds, by a
declared transition. -/
def Promises (history : List (Exchange OperationAnswer)) : OperationRequest → Prop
  | .compareAndSwap id _ replacement =>
    (∀ x ∈ history, Faithful x) → ∃ record, held history = some (id, record)
      ∧ Follows record.state replacement.state
  | _ => True

theorem follows_advance {record : OperationRecord} {status : OperationStatus}
    (h : status ∈ transitions record.ref.status) (now : Timestamp) (code : Option Str) :
    Follows record.state (record.advance status now code).state := ⟨h, rfl⟩

theorem reconciliationPath_declared {current target : OperationStatus}
    {path : List OperationStatus} (hne : current ≠ target)
    (h : TrustedExternalOperationReconciler.reconciliationPath current target = .ok path) :
    (current :: path).IsChain (fun a b => b ∈ transitions a) := by
  cases current <;> cases target <;>
    simp [TrustedExternalOperationReconciler.reconciliationPath, OperationStatus.Terminal,
      transitions, TrustedExternalOperationReconciler.ordered] at h hne <;>
    subst h <;> simp [transitions]

variable {code : Option Str}

theorem meets_follow {path : List OperationStatus} {record : OperationRecord}
    (hheld : held history = some (id, record))
    (hpath : (∀ x ∈ history, Faithful x) →
      (record.ref.status :: path).IsChain (fun a b => b ∈ transitions a)) :
    (TrustedExternalOperationReconciler.follow id code path record).Meets Promises
      (fun _ _ => True) history := by
  induction path generalizing record history with
  | nil => trivial
  | cons status path ih =>
    refine ⟨trivial, fun now => ⟨fun hfaithful => ⟨record, ?_, ?_⟩, fun written => ?_⟩⟩
    · rw [held_append_none rfl, hheld]
    · have hchain := hpath (fun x hx => hfaithful x (List.mem_append_left _ hx))
      exact follows_advance (List.isChain_cons_cons.mp hchain).1 _ _
    · refine ih (held_append_some rfl) (fun hfaithful => ?_)
      -- the record that comes back is the one that was written
      have hwritten : written = record.advance status now _ :=
        hfaithful _ (List.mem_append_right _ (List.mem_singleton_self _))
      have hchain := hpath (fun x hx =>
        hfaithful x (List.mem_append_left _ (List.mem_append_left _ hx)))
      rw [hwritten]
      exact (List.isChain_cons_cons.mp hchain).2

theorem meets_getAuthorized {identity : ConsumerIdentity} {granted : List Str} :
    (OperationService.getAuthorized id identity granted).Meets Promises
      (fun history record => held history = some (id, record)) [] := by
  refine meets_request_bind.mpr ⟨trivial, fun record => ?_⟩
  split_ifs
  · trivial
  · trivial
  · trivial
  · trivial
  · exact held_append_some rfl

theorem meets_transition {status : OperationStatus} {expected : Nat}
    {identity : ConsumerIdentity} {granted : List Str} :
    (OperationService.transition id status expected identity code granted).Meets Promises
      (fun _ _ => True) [] := by
  refine Meets.bind meets_getAuthorized (fun history record hheld => ?_)
  by_cases hdeclared : status ∈ transitions record.ref.status
  · rw [if_neg (not_not.mpr hdeclared)]
    split_ifs
    · trivial
    · refine meets_request_bind.mpr ⟨trivial, fun now => meets_request_bind.mpr
        ⟨fun _ => ⟨record, ?_, follows_advance hdeclared _ _⟩, fun written => trivial⟩⟩
      rw [held_append_none rfl, hheld]
  · rw [if_pos hdeclared]
    trivial

theorem meets_reconcile {reconciler : TrustedExternalOperationReconciler} {target : OperationStatus} :
    (reconciler.reconcile id target code).Meets Promises (fun _ _ => True) [] := by
  refine meets_request_bind.mpr ⟨trivial, fun record => ?_⟩
  by_cases hkind : reconciler.allowedKindPrefix.isPrefixOf record.kind = true
  · rw [if_neg (not_not.mpr hkind)]
    by_cases hsame : record.ref.status = target
    · rw [if_pos hsame]
      trivial
    · rw [if_neg hsame]
      split_ifs
      · trivial
      · refine Meets.bind (Q := fun history path => held history = some (id, record)
          ∧ (record.ref.status :: path).IsChain (fun a b => b ∈ transitions a))
          (Meets.lift (fun path hpath =>
            ⟨held_append_some rfl, reconciliationPath_declared hsame hpath⟩)) ?_
        intro history path hpath
        exact Meets.bind (meets_follow hpath.1 (fun _ => hpath.2)) (fun _ _ _ => trivial)
      · trivial
  · rw [if_pos hkind]
    trivial

/-- **The code of a call.** Every compare-and-swap it sends is promised. -/
theorem meets_code (c : OperationCall) : c.code.Meets Promises (fun _ _ => True) [] := by
  cases c with
  | create kind identity refs =>
    show (OperationService.create kind identity refs).Meets _ _ _
    unfold OperationService.create
    split_ifs
    · trivial
    · exact ⟨trivial, fun now => ⟨trivial, fun hex => ⟨trivial, fun record => trivial⟩⟩⟩
  | transition id status expected identity code granted => exact meets_transition
  | getAuthorized id identity granted =>
    exact Meets.bind meets_getAuthorized (fun history record hheld => trivial)
  | reconcile reconciler id target code => exact meets_reconcile

/-! ## Every run -/

abbrev OperationWorld (σ ε : Type) :=
  World (σ × ε) OperationCall OperationAnswer OperationException OperationRef

section

variable {σ ε : Type} {store : OperationStore σ} {current : σ → Str → Option OperationState}
  {environment : OperationEnvironment ε}

/-- A compare-and-swap is called with the version of the record that its call holds, or with
one that is not the stored version. -/
def agrees (current : σ → Str → Option OperationState) (w : OperationWorld σ ε) :
    Event OperationRequest → Bool
  | .requests i (.compareAndSwap id expected _) =>
    (w.threads[i]?.bind (fun t => held t.history)).all (fun p =>
      p.1 ≠ id ∨ p.2.ref.version = expected
        ∨ (current w.state.1 id).map OperationState.version ≠ some expected)
  | _ => true

/-- Runs in which every compare-and-swap agrees. -/
abbrev AgreeingRun (store : OperationStore σ) (environment : OperationEnvironment ε)
    (current : σ → Str → Option OperationState) :=
  Run OperationCall.code (handleOperation store environment)
    (fun s s' => s'.1 = s.1) (fun w e => agrees current w e = true)

theorem storing_ok {α : Type} {x : Except OperationException (α × σ)} {s s' : σ × ε} {a : α}
    (h : storing x s = (.ok a, s')) : ∃ t, x = .ok (a, t) ∧ s' = (t, s.2) := by
  unfold storing at h
  split at h
  · cases h
    exact ⟨_, rfl, rfl⟩
  · cases h

theorem storing_error {α : Type} {x : Except OperationException (α × σ)} {s s' : σ × ε}
    {e : OperationException} (h : storing x s = (.error e, s')) : s' = s := by
  unfold storing at h
  split at h
  · cases h
  · cases h
    rfl

theorem handleOperation_error {r : OperationRequest} {s s' : σ × ε} {e : OperationException}
    (h : handleOperation store environment r s = (.error e, s')) : s' = s := by
  cases r with
  | now => cases h
  | uuid => cases h
  | create record => exact storing_error h
  | get id => exact (Prod.mk.injEq _ _ _ _ ▸ h : _ ∧ _).2.symm
  | compareAndSwap id expected replacement => exact storing_error h

variable {c : Str → Option OperationState}

theorem Lawful.unchanged (h : Lawful c trace)
    (hx : ∀ id, storedBy id x = none) : Lawful c (trace ++ [x]) := by
  have hsame : ∀ id, stored id (trace ++ [x]) = stored id trace := by
    intro id
    rw [stored_append, hx id]
    exact List.append_nil _
  exact ⟨fun id => by rw [hsame, h.last id], fun id => by rw [hsame]; exact h.chain id⟩

/-- **One write.** It follows what is stored. -/
theorem Lawful.write (h : Lawful c trace)
    (hx : ∀ q, storedBy q x = if q = id then some s else none)
    (hs : ∀ a, c id = some a → Follows a s) :
    Lawful (Function.update c id (some s)) (trace ++ [x]) := by
  have hself : stored id (trace ++ [x]) = stored id trace ++ [s] := by
    rw [stored_append, hx id, if_pos rfl]
    rfl
  have hother : ∀ q, q ≠ id → stored q (trace ++ [x]) = stored q trace := by
    intro q hq
    rw [stored_append, hx q, if_neg hq]
    exact List.append_nil _
  constructor
  · intro q
    by_cases hq : q = id
    · subst hq
      rw [Function.update_self, hself, List.getLast?_concat]
    · rw [Function.update_of_ne hq, hother q hq, h.last q]
  · intro q
    by_cases hq : q = id
    · subst hq
      rw [hself]
      refine (h.chain q).append (List.isChain_singleton s) ?_
      intro a ha b hb
      rw [← h.last q] at ha
      have hb' : b = s := by simpa using hb.symm
      rw [hb']
      exact hs a ha
    · rw [hother q hq]
      exact h.chain q

/-- What an exchange shows: a write answered with what it stored, and a record that was handed
out was stored. -/
def Showed (x : Exchange OperationAnswer) (w : OperationWorld σ ε) : Prop :=
  Faithful x ∧ ∀ p, handedOut x = some p → p.2.state ∈ stored p.1 w.trace

theorem mem_stored_append
    (h : s ∈ stored id trace) (x : Exchange OperationAnswer) : s ∈ stored id (trace ++ [x]) := by
  rw [stored_append]
  exact List.mem_append_left _ h

variable {w w' : OperationWorld σ ε} {e : Event OperationRequest}

/-- **One step keeps the history lawful.** -/
theorem Lawful.step (hstore : LawfulStore store current) {s₀ : σ × ε}
    (hrun : AgreeingRun store environment current (World.initial s₀) w)
    (h : Lawful (current w.state.1) w.trace)
    (hshowed : ∀ t ∈ w.threads, ∀ x ∈ t.history, Showed x w) (ha : agrees current w e = true)
    (hs : Step OperationCall.code (handleOperation store environment)
      (fun s s' => s'.1 = s.1) w e w') :
    Lawful (current w'.state.1) w'.trace := by
  cases hs with
  | begin c => exact h
  | outside s hout =>
    show Lawful (current s.1) w.trace
    rw [hout]
    exact h
  | refuse i c past r g k err s hi hr =>
    show Lawful (current s.1) w.trace
    rw [handleOperation_error hr]
    exact h
  | answer i c past r g k a s hi hr =>
    cases r with
    | now =>
      cases hr
      exact h.unchanged (fun _ => rfl)
    | uuid =>
      cases hr
      exact h.unchanged (fun _ => rfl)
    | get id =>
      have hsame : s = w.state := (Prod.mk.injEq _ _ _ _ ▸ hr : _ ∧ _).2.symm
      rw [hsame]
      exact h.unchanged (fun _ => rfl)
    | create record =>
      obtain ⟨t, hok, rfl⟩ := storing_ok hr
      obtain ⟨hfree, hnew⟩ := hstore.create hok
      show Lawful (current t) _
      rw [hnew]
      refine h.write (fun q => ?_) (fun b hb => ?_)
      · simp only [storedBy, eq_comm]
      · rw [hfree] at hb
        cases hb
    | compareAndSwap id expected replacement =>
      obtain ⟨t, hok, rfl⟩ := storing_ok hr
      obtain ⟨-, hversion, hnew⟩ := hstore.swap hok
      show Lawful (current t) _
      rw [hnew]
      have hthread : (⟨c, past, .call (.compareAndSwap id expected replacement) g k⟩ :
          Thread OperationCall OperationAnswer OperationException OperationRef) ∈ w.threads :=
        List.mem_of_getElem? hi
      have hpast : ∀ x ∈ past, Showed x w := hshowed _ hthread
      obtain ⟨record, hheld, hfollows⟩ :=
        Run.request meets_code hrun hi (fun x hx => (hpast x hx).1)
      have hread : record.state ∈ stored id w.trace := by
        obtain ⟨x, hx, hout⟩ := exists_handedOut_of_held hheld
        exact (hpast x hx).2 _ hout
      refine h.write (fun q => by simp only [storedBy, eq_comm]) (fun b hb => ?_)
      -- the record was stored under the version that is stored now, so it is what is stored
      have hexpected : record.ref.version = expected := by
        have hagrees : id ≠ id ∨ record.ref.version = expected
            ∨ (current w.state.1 id).map OperationState.version ≠ some expected := by
          simpa [agrees, hi, hheld] using ha
        rcases hagrees with hne | hread | hstale
        · exact absurd rfl hne
        · exact hread
        · exact absurd hversion hstale
      have hb' : b.version = expected := by
        rw [hb] at hversion
        exact Option.some.inj hversion
      have hlast : (stored id w.trace).getLast? = some b := by rw [← h.last id, hb]
      have hsame : record.state = b :=
        eq_of_version_eq (h.chain id) hread hlast (hexpected.trans hb'.symm)
      rw [← hsame]
      exact hfollows

/-- **Every agreeing run is lawful**, over any store that keeps what it is given. -/
theorem showed_of_run (hstore : LawfulStore store current) {s₀ : σ × ε}
    (hempty : ∀ id, current s₀.1 id = none)
    (h : AgreeingRun store environment current (World.initial s₀) w) :
    Lawful (current w.state.1) w.trace ∧ ∀ t ∈ w.threads, ∀ x ∈ t.history, Showed x w := by
  refine Run.history (I := fun w => Lawful (current w.state.1) w.trace) h
    ⟨hempty, fun id => List.isChain_nil⟩ (fun t ht => by cases ht)
    (fun hrun hI hshowed ha hs => hI.step hstore hrun hshowed ha hs) ?_ ?_
  · intro w e w' x hI ha hs hI' htrace
    cases hs with
    | begin c => exact absurd htrace (by simp)
    | outside s hout => exact absurd htrace (by simp)
    | refuse i c past r g k err s hi hr => exact absurd htrace (by simp)
    | answer i c past r g k a s hi hr =>
      have hx : x = ⟨r, a⟩ := by simpa using (List.append_cancel_left htrace).symm
      subst hx
      cases r with
      | now => exact ⟨trivial, fun p hp => by cases hp⟩
      | uuid => exact ⟨trivial, fun p hp => by cases hp⟩
      | create record => exact ⟨trivial, fun p hp => by cases hp⟩
      | get id =>
        have hget : store.get id w.state.1 = .ok a := (Prod.mk.injEq _ _ _ _ ▸ hr : _ ∧ _).1
        refine ⟨trivial, fun p hp => ?_⟩
        cases hp
        have hlast := hI.last id
        rw [hstore.get hget] at hlast
        exact mem_stored_append (List.mem_of_getLast? hlast.symm) _
      | compareAndSwap id expected replacement =>
        obtain ⟨t, hok, -⟩ := storing_ok hr
        have ha : a = replacement := (hstore.swap hok).1
        refine ⟨ha, fun p hp => ?_⟩
        cases hp
        have hin : replacement.state ∈ stored id (w.trace ++ [⟨.compareAndSwap id expected replacement, a⟩]) := by
          rw [stored_append]
          exact List.mem_append_right _ (by simp [storedBy])
        have hstate : OperationRecord.state a = replacement.state := by rw [ha]
        show OperationRecord.state a ∈ _
        rw [hstate]
        exact hin
  · intro w e w' x hI hx hs hI'
    refine ⟨hx.1, fun p hp => ?_⟩
    have hold := hx.2 p hp
    cases hs with
    | begin c => exact hold
    | outside s hout => exact hold
    | refuse i c past r g k err s hi hr => exact hold
    | answer i c past r g k a s hi hr => exact mem_stored_append hold _

end

/-! ## Two clients at one operation -/

/-- A clock and a counter of identifiers, both standing still. -/
def stillEnvironment : OperationEnvironment Unit where
  clock s := (0, s)
  uuid s := ("0".toList, s)

def sampleIdentity : ConsumerIdentity := ⟨"tenant".toList, some "user".toList, none, "web".toList⟩

def sampleOperation : Str := "operation_0".toList

/-- A transition of the sample operation, with the version the client expects. -/
def transitionTo (status : OperationStatus) (expected : Nat) (code : Option Str) : OperationCall :=
  .transition sampleOperation status expected sampleIdentity code []

/-- One client reads the operation as accepted; another fails it; the first writes. -/
def staleSchedule : List (Move OperationCall) :=
  [.begin (.create "simulation.run".toList sampleIdentity []), .next 0, .next 0, .next 0,
    .begin (transitionTo .claimed 2 none), .next 1,
    .begin (transitionTo .failed 1 (some "timeout".toList)), .next 2, .next 2, .next 2,
    .next 1, .next 1]

/-- Every write follows the one before it, and none follows a terminal status. -/
def WellOrdered (current : Str → Option OperationState)
    (trace : List (Exchange OperationAnswer)) : Prop :=
  Lawful current trace ∧ ∀ id before s after, stored id trace = before ++ s :: after →
    s.status.Terminal → after = []

/-- **Operations are well ordered** in every run whose transitions expect the version that they
read, over the dictionary and over the table. -/
theorem operations_wellOrdered {ε : Type} {environment : OperationEnvironment ε} {e : ε} :
    (∀ w, AgreeingRun inMemoryOperationStore environment memoryState
        (World.initial (∅, e)) w → WellOrdered (memoryState w.state.1) w.trace)
      ∧ ∀ w, AgreeingRun sqlOperationStore environment rowState (World.initial ([], e)) w →
        WellOrdered (rowState w.state.1) w.trace := by
  constructor
  · intro w h
    have hlawful := (showed_of_run inMemoryOperationStore_lawful (fun id => rfl) h).1
    exact ⟨hlawful, fun id before s after hs ht => hlawful.terminal hs ht⟩
  · intro w h
    have hlawful := (showed_of_run sqlOperationStore_lawful (fun id => rfl) h).1
    exact ⟨hlawful, fun id before s after hs ht => hlawful.terminal hs ht⟩

/-- A client that expects the version it read. -/
def promptSchedule : List (Move OperationCall) :=
  [.begin (.create "simulation.run".toList sampleIdentity []), .next 0, .next 0, .next 0,
    .begin (transitionTo .claimed 1 none), .next 1,
    .begin (transitionTo .failed 1 (some "timeout".toList)), .next 2, .next 2, .next 2,
    .next 1, .next 1]

theorem operations_wellOrdered_prompt :
    ∃ w : OperationWorld OperationTable Unit,
      (stored sampleOperation w.trace).map OperationState.status = [.accepted, .failed]
        ∧ WellOrdered (memoryState w.state.1) w.trace := by
  have hrun : ((World.initial (∅, ()) : OperationWorld OperationTable Unit).movesIf
      OperationCall.code (handleOperation inMemoryOperationStore stillEnvironment)
      (agrees memoryState) promptSchedule).any
        (fun w => (stored sampleOperation w.trace).map OperationState.status
          = [.accepted, .failed]) = true := by
    decide +kernel
  obtain ⟨w, hw, hstored⟩ := (Option.any_eq_true _ _).mp hrun
  exact ⟨w, by simpa using hstored, operations_wellOrdered.1 w (World.run_of_movesIf hw)⟩

/-- **A stale transition.** The operation has failed and is then stored as claimed, under the
version it failed with. -/
theorem stale_transition :
    ∃ w : OperationWorld OperationTable Unit,
      FreeRun OperationCall.code (handleOperation inMemoryOperationStore stillEnvironment)
        (fun s s' => s'.1 = s.1) (World.initial (∅, ())) w
      ∧ (∃ s : OperationState, s ∈ stored sampleOperation w.trace ∧ s.status = .failed
          ∧ s.status.Terminal)
      ∧ memoryState w.state.1 sampleOperation = some ⟨.claimed, 2, none⟩
      ∧ ¬ WellOrdered (memoryState w.state.1) w.trace := by
  have hrun : ((World.initial (∅, ()) : OperationWorld OperationTable Unit).moves
      OperationCall.code (handleOperation inMemoryOperationStore stillEnvironment)
      staleSchedule).any (fun w => stored sampleOperation w.trace
        = [⟨.accepted, 1, none⟩, ⟨.failed, 2, some "timeout".toList⟩, ⟨.claimed, 2, none⟩]
          ∧ memoryState w.state.1 sampleOperation = some ⟨.claimed, 2, none⟩) = true := by
    decide +kernel
  obtain ⟨w, hw, hboth⟩ := (Option.any_eq_true _ _).mp hrun
  obtain ⟨hstored, hnow⟩ := of_decide_eq_true hboth
  refine ⟨w, World.run_of_moves hw, ⟨⟨.failed, 2, some "timeout".toList⟩, ?_, rfl, rfl⟩, hnow, ?_⟩
  · rw [hstored]
    simp
  · intro hordered
    have hafter := hordered.2 sampleOperation [⟨.accepted, 1, none⟩] _ _ hstored rfl
    cases hafter

end Ai00.Capability
