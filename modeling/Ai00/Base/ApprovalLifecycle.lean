import Ai00.Base.Approval

/-! # The life of an approval

`Repository.Sound` says what the methods of a repository do to the records its readers see, and
both repositories are sound. Over any sound repository a step of any interleaving is `Governed`:
only a listed approver decides, a final record stays, what a record is bound to never moves. The
one exception is a transition that names the final state of its record as the expected one
(`Reopens`), which the repositories let through.
-/

namespace Ai00.Base

open Program

/-- The methods of a repository. -/
structure Repository (ρ : Type) where
  add : ρ → ApprovalRequest → Except ApprovalError ρ
  get : ρ → Str → Str → Option ApprovalRequest
  transition : ρ → Transition → Int → Except ApprovalError (ApprovalRequest × Option ρ)

namespace Repository

variable {ρ : Type} (repository : Repository ρ)

def handle (draws : Draws) := answerRequest draws repository.add repository.get repository.transition

/-- `t` finds `current` and moves it. -/
structure Finds (s : ρ) (t : Transition) (current : ApprovalRequest) : Prop where
  found : repository.get s t.tenantGid t.approvalId = some current
  expected : current.status = t.expectedState
  active : ¬ (t.idempotentTarget = true ∧ current.status = t.targetState)

/-- What the methods do to the records that `get` shows. -/
structure Sound : Prop where
  add : ∀ {s s' request}, repository.add s request = .ok s' → ∀ tenantGid approvalId,
    repository.get s' tenantGid approvalId = repository.get s tenantGid approvalId ∨
      repository.get s tenantGid approvalId = none ∧
        ∃ stored, repository.get s' tenantGid approvalId = some stored ∧
          (request.status = pending → stored.status = pending)
  transition : ∀ {s t now updated s'}, repository.transition s t now = .ok (updated, some s') →
    ∃ current, repository.Finds s t current ∧ ∀ tenantGid approvalId,
      repository.get s' tenantGid approvalId = repository.get s tenantGid approvalId ∨
        repository.get s tenantGid approvalId = some current ∧
          repository.get s' tenantGid approvalId
            = some (current.moved t.targetState t.reason t.actorGid now)

/-- What a request does to the record that is seen under one key. -/
inductive Changes (s : ρ) (r : ApprovalAction) :
    Option ApprovalRequest → Option ApprovalRequest → Prop
  | kept (seen : Option ApprovalRequest) : Changes s r seen seen
  | added (request stored : ApprovalRequest) (hr : r = .add request)
      (hstatus : request.status = pending → stored.status = pending) : Changes s r none (some stored)
  | moved (t : Transition) (current : ApprovalRequest) (now : Int) (hr : r = .transition t)
      (hfinds : repository.Finds s t current) :
      Changes s r (some current) (some (current.moved t.targetState t.reason t.actorGid now))

variable {repository}

/-- **What one request can do.** -/
theorem Sound.changes (hsound : repository.Sound) (draws : Draws) (r : ApprovalAction)
    (s : ApprovalState ρ) (tenantGid approvalId : Str) :
    repository.Changes s.repository r (repository.get s.repository tenantGid approvalId)
      (repository.get (repository.handle draws r s).2.repository tenantGid approvalId) := by
  unfold handle
  cases r with
  | now => exact .kept _
  | uuid => exact .kept _
  | get tenant approval => exact .kept _
  | add request =>
    simp only [answerRequest]
    cases hadd : repository.add s.repository request with
    | error e => exact .kept _
    | ok s' =>
      dsimp only
      rcases hsound.add hadd tenantGid approvalId with hsame | ⟨hnone, stored, hsome, hstatus⟩
      · rw [hsame]
        exact .kept _
      · rw [hnone, hsome]
        exact .added request stored rfl hstatus
  | transition t =>
    simp only [answerRequest]
    cases htr : repository.transition s.repository t (draws.times s.readings) with
    | error e => exact .kept _
    | ok result =>
      obtain ⟨updated, after⟩ := result
      cases after with
      | none => exact .kept _
      | some s' =>
        dsimp only
        obtain ⟨current, hfinds, hall⟩ := hsound.transition htr
        rcases hall tenantGid approvalId with hsame | ⟨hcurrent, hmoved⟩
        · rw [hsame]
          exact .kept _
        · rw [hcurrent, hmoved]
          exact .moved t current _ rfl hfinds

end Repository

/-! ## Both repositories -/

def inMemory : Repository InMemoryApprovalRepository where
  add := InMemoryApprovalRepository.add
  get := InMemoryApprovalRepository.get
  transition := InMemoryApprovalRepository.transition

def sql (collate : Str → Str) : Repository SqlApprovalRepository where
  add := SqlApprovalRepository.add collate
  get := SqlApprovalRepository.get collate
  transition := SqlApprovalRepository.transition collate

namespace InMemoryApprovalRepository

theorem key_moved (request : ApprovalRequest) (target : Str) (reason : Option Str) (actor : Str)
    (now : Int) : key (request.moved target reason actor now) = key request := rfl

theorem transition_eq_some {repository repository' : InMemoryApprovalRepository} {t : Transition}
    {now : Int} {updated : ApprovalRequest}
    (h : repository.transition t now = .ok (updated, some repository')) :
    ∃ current, inMemory.Finds repository t current ∧
      updated = current.moved t.targetState t.reason t.actorGid now ∧
      repository' = { items := KeyedRows.upsert key updated repository.items } := by
  unfold transition at h
  cases hget : repository.get t.tenantGid t.approvalId with
  | none =>
    rw [hget] at h
    cases h
  | some current =>
    rw [hget] at h
    dsimp only at h
    split_ifs at h with hidem hstatus
    · cases h
    · cases h
      exact ⟨current, ⟨hget, not_not.mp hstatus, hidem⟩, rfl, rfl⟩

theorem sound : inMemory.Sound where
  add := by
    intro repository repository' request h tenantGid approvalId
    change repository.add request = _ at h
    unfold add at h
    split_ifs at h with hsome
    cases h
    have hnone : KeyedRows.lookup key (key request) repository.items = none := by
      simpa using hsome
    show KeyedRows.lookup key (tenantGid, approvalId) (KeyedRows.upsert key request _) = _ ∨
      KeyedRows.lookup key (tenantGid, approvalId) _ = none ∧
        ∃ stored, KeyedRows.lookup key (tenantGid, approvalId) (KeyedRows.upsert key request _) = some stored ∧ _
    by_cases hkey : key request = (tenantGid, approvalId)
    · rw [hkey] at hnone
      refine Or.inr ⟨hnone, request, ?_, id⟩
      rw [KeyedRows.lookup_upsert, if_pos hkey]
    · refine Or.inl ?_
      rw [KeyedRows.lookup_upsert, if_neg hkey]
      rfl
  transition := by
    intro repository t now updated repository' h
    obtain ⟨current, hfinds, rfl, rfl⟩ := transition_eq_some h
    refine ⟨current, hfinds, fun tenantGid approvalId => ?_⟩
    have hfound : KeyedRows.lookup key (t.tenantGid, t.approvalId) repository.items = some current :=
      hfinds.found
    show KeyedRows.lookup key (tenantGid, approvalId) (KeyedRows.upsert key _ _) = _ ∨
      KeyedRows.lookup key (tenantGid, approvalId) _ = _ ∧
        KeyedRows.lookup key (tenantGid, approvalId) (KeyedRows.upsert key _ _) = _
    rw [KeyedRows.lookup_upsert, key_moved, KeyedRows.key_of_lookup hfound]
    by_cases hkey : (t.tenantGid, t.approvalId) = (tenantGid, approvalId)
    · rw [if_pos hkey, ← hkey]
      exact Or.inr ⟨hfound, rfl⟩
    · rw [if_neg hkey]
      exact Or.inl rfl

end InMemoryApprovalRepository

namespace SqlApprovalRepository

variable {collate : Str → Str}

theorem request_setDecision (t : Transition) (now : Int) (row : ApprovalRow) :
    (setDecision t now row).request = row.request.moved t.targetState t.reason t.actorGid now := rfl

theorem key_setDecision (t : Transition) (now : Int) (row : ApprovalRow) :
    key collate (setDecision t now row) = key collate row := rfl

theorem transition_eq_some {repository repository' : SqlApprovalRepository} {t : Transition}
    {now : Int} {updated : ApprovalRequest}
    (h : repository.transition collate t now = .ok (updated, some repository')) :
    ∃ current, (sql collate).Finds repository t current ∧
      updated = current.moved t.targetState t.reason t.actorGid now ∧
      repository' =
        { rows := Rows.update (selected collate t) (setDecision t now) repository.rows } := by
  unfold transition at h
  cases hget : repository.get collate t.tenantGid t.approvalId with
  | none =>
    rw [hget] at h
    cases h
  | some current =>
    rw [hget] at h
    dsimp only at h
    split_ifs at h with hidem hstatus hcount
    · cases h
    · cases h
      exact ⟨current, ⟨hget, not_not.mp hstatus, hidem⟩, rfl, rfl⟩

theorem sql_get (repository : SqlApprovalRepository) (tenantGid approvalId : Str) :
    (sql collate).get repository tenantGid approvalId
      = (KeyedRows.lookup (key collate) (collate tenantGid, collate approvalId)
          repository.rows).map (·.request) := rfl

theorem selected_iff {t : Transition} {row : ApprovalRow} : selected collate t row = true ↔
    key collate row = (collate t.tenantGid, collate t.approvalId) ∧
      collate row.status = collate t.expectedState := by
  simp [selected]

theorem row_status {request : ApprovalRequest} {r : ApprovalRow} (h : row request = .ok r)
    (hstatus : request.status = pending) : r.status = pending := by
  obtain ⟨_, _, h⟩ := bind_eq_ok.mp h
  obtain ⟨_, _, h⟩ := bind_eq_ok.mp h
  obtain ⟨_, _, h⟩ := bind_eq_ok.mp h
  obtain ⟨_, _, h⟩ := bind_eq_ok.mp h
  obtain ⟨status, hfit, h⟩ := bind_eq_ok.mp h
  cases h
  rw [hstatus] at hfit
  exact (Except.ok.inj hfit).symm

theorem lookup_update {t : Transition} {now : Int} {rows : List ApprovalRow} {k : Str × Str} :
    KeyedRows.lookup (key collate) k (Rows.update (selected collate t) (setDecision t now) rows)
      = (KeyedRows.lookup (key collate) k rows).map
          (fun row => if selected collate t row = true then setDecision t now row else row) :=
  Rows.find?_update fun row _ => by rw [key_setDecision]

theorem sound : (sql collate).Sound where
  add := by
    intro repository repository' request h tenantGid approvalId
    change repository.add collate request = _ at h
    obtain ⟨row, hrow, h⟩ := bind_eq_ok.mp h
    cases hinsert : Rows.insert (fun r s => key collate r == key collate s) row repository.rows with
    | none =>
      rw [hinsert] at h
      cases h
    | some rows =>
      rw [hinsert] at h
      cases h
      obtain ⟨hnew, rfl⟩ := Rows.insert_eq_some.mp hinsert
      simp only [sql_get, KeyedRows.lookup_append, KeyedRows.lookup_cons, KeyedRows.lookup_nil]
      cases hold : KeyedRows.lookup (key collate) (collate tenantGid, collate approvalId) repository.rows with
      | some seen => exact Or.inl rfl
      | none =>
        split_ifs with hkey
        · exact Or.inr ⟨rfl, row.request, rfl, row_status hrow⟩
        · exact Or.inl rfl
  transition := by
    intro repository t now updated repository' h
    obtain ⟨current, hfinds, rfl, rfl⟩ := transition_eq_some h
    refine ⟨current, hfinds, fun tenantGid approvalId => ?_⟩
    obtain ⟨found, hfound, rfl⟩ := Option.map_eq_some_iff.mp hfinds.found
    simp only [sql_get, lookup_update]
    cases hold : KeyedRows.lookup (key collate) (collate tenantGid, collate approvalId) repository.rows with
    | none => exact Or.inl rfl
    | some seen =>
      by_cases hselected : selected collate t seen = true
      · -- the row of the key of `t` is the one that was found
        have hkey : key collate seen = (collate t.tenantGid, collate t.approvalId) :=
          (selected_iff.mp hselected).1
        rw [KeyedRows.key_of_lookup hold] at hkey
        rw [hkey, hfound] at hold
        obtain rfl := Option.some_injective _ hold
        refine Or.inr ⟨rfl, ?_⟩
        rw [Option.map_some, if_pos hselected, Option.map_some, request_setDecision]
      · rw [Option.map_some, if_neg hselected]
        exact Or.inl rfl

end SqlApprovalRepository

/-! ## What the calls send -/

/-- The transition of a call of `decide` whose actor was an approver when it looked. -/
structure Decides (c : ApprovalCall) (past : List (Exchange ApprovalAction.Answer))
    (t : Transition) : Prop where
  call : ∃ tenantGid reason, c = .decide tenantGid t.approvalId t.expectedState t.actorGid
    t.targetState reason ∧ t.reason = some reason ∧ tenantOf tenantGid = .ok t.tenantGid
  target : t.targetState = approved ∨ t.targetState = rejected
  looked : ∃ approval, ⟨.get t.tenantGid t.approvalId, some approval⟩ ∈ past ∧
    t.actorGid ∈ approval.approverIds

/-- What a call sends, given the exchanges it has had. -/
def Sends (c : ApprovalCall) (past : List (Exchange ApprovalAction.Answer)) : ApprovalAction → Prop
  | .add request => request.status = pending
  | .transition t => t.targetState = cancelled ∨ Decides c past t
  | _ => True

theorem get_meets (c : ApprovalCall) (tenantGid approvalId : Str) :
    (ApprovalService.get tenantGid approvalId).Meets (Sends c)
      (fun past approval => ∃ tenant, tenantOf tenantGid = .ok tenant ∧
        ⟨.get tenant approvalId, some approval⟩ ∈ past) [] := by
  unfold ApprovalService.get
  cases htenant : tenantOf tenantGid with
  | error e => trivial
  | ok tenant =>
    rw [lift_ok, ret_bind, meets_request_bind]
    refine ⟨trivial, fun seen => ?_⟩
    cases seen with
    | none => trivial
    | some approval => exact ⟨tenant, rfl, List.mem_singleton.mpr rfl⟩

theorem run_meets (str : Json → Str) (c : ApprovalCall) :
    (runApproval str c).Meets (Sends c) (fun _ _ => True) [] := by
  cases c with
  | create tenantGid requesterGid payload =>
    show (ApprovalService.create str tenantGid requesterGid payload).Meets _ _ _
    unfold ApprovalService.create
    refine Meets.bind (Q := fun _ _ => True) (Meets.lift fun _ _ => trivial) fun _ tenant _ => ?_
    refine Meets.bind (Q := fun _ _ => True) (Meets.lift fun _ _ => trivial) fun _ approvers _ => ?_
    exact ⟨trivial, fun now => ⟨trivial, fun uuid => ⟨rfl, fun _ => trivial⟩⟩⟩
  | get tenantGid approvalId => exact (get_meets _ _ _).mono (fun _ _ h => h) fun _ _ _ => trivial
  | decide tenantGid approvalId expectedState actorGid decision reason =>
    show (ApprovalService.decide tenantGid approvalId expectedState actorGid decision reason).Meets _ _ _
    unfold ApprovalService.decide
    refine (get_meets _ tenantGid approvalId).bind ?_
    rintro past approval ⟨tenant, htenant, hlooked⟩
    split_ifs with hactor hdecision
    · rw [htenant]
      refine ⟨Or.inr ?_, fun _ => trivial⟩
      exact
        { call := ⟨tenantGid, reason, rfl, rfl, htenant⟩
          target := by simpa using hdecision
          looked := ⟨approval, hlooked, hactor⟩ }
    · trivial
    · trivial
  | cancel tenantGid approvalId expectedState actorGid =>
    show (ApprovalService.cancel tenantGid approvalId expectedState actorGid).Meets _ _ _
    unfold ApprovalService.cancel
    refine Meets.bind (Q := fun _ _ => True) (Meets.lift fun _ _ => trivial) fun _ tenant _ => ?_
    exact ⟨Or.inl rfl, fun _ => trivial⟩

/-! ## Runs -/

/-- What a request is bound to: the record without its status and decision. -/
def ApprovalRequest.bound (request : ApprovalRequest) : ApprovalRequest :=
  { request with status := [], decisionReason := none, decidedBy := none, updatedAt := 0 }

@[simp] theorem ApprovalRequest.bound_moved (request : ApprovalRequest) (target : Str)
    (reason : Option Str) (actor : Str) (now : Int) :
    (request.moved target reason actor now).bound = request.bound := rfl

theorem ApprovalRequest.approverIds_of_bound {request request' : ApprovalRequest}
    (h : request.bound = request'.bound) : request.approverIds = request'.approverIds :=
  congrArg (·.approverIds) h

abbrev ApprovalWorld (ρ : Type) :=
  World (ApprovalState ρ) ApprovalCall ApprovalAction.Answer ApprovalError ApprovalRequest

namespace Repository

variable {ρ : Type} (repository : Repository ρ)

def sees (w : ApprovalWorld ρ) (tenantGid approvalId : Str) : Option ApprovalRequest :=
  repository.get w.state.repository tenantGid approvalId

/-- A transition names the final state of the record that it finds as the expected one. -/
def Reopens (w : ApprovalWorld ρ) (e : Event ApprovalAction) : Prop :=
  ∃ i t current, e = .requests i (.transition t) ∧ repository.Finds w.state.repository t current ∧
    current.status ∈ finalStates

/-- A listed approver decides the record `before`, which becomes `after`. -/
def DecidedBy (w : ApprovalWorld ρ) (e : Event ApprovalAction) (before after : ApprovalRequest) :
    Prop :=
  ∃ i r thread tenantGid tenant approvalId expected actor decision reason,
    e = .requests i r ∧ w.threads[i]? = some thread ∧
      thread.call = .decide tenantGid approvalId expected actor decision reason ∧
      tenantOf tenantGid = .ok tenant ∧ repository.sees w tenant approvalId = some before ∧
      actor ∈ before.approverIds ∧ after.status = decision ∧ after.decidedBy = some actor ∧
      after.decisionReason = some reason

/-- What a step may do to the record under one key. -/
structure Governed (w : ApprovalWorld ρ) (e : Event ApprovalAction) (w' : ApprovalWorld ρ)
    (tenantGid approvalId : Str) : Prop where
  /-- A record that becomes approved or rejected was pending and is decided by an approver. -/
  decided : ∀ after, repository.sees w' tenantGid approvalId = some after →
    after.status = approved ∨ after.status = rejected →
    (∀ before, repository.sees w tenantGid approvalId = some before →
      before.status ≠ after.status) →
    ∃ before, repository.sees w tenantGid approvalId = some before ∧ before.status = pending ∧
      repository.DecidedBy w e before after
  /-- A final record stays as it is. -/
  final : ∀ before, repository.sees w tenantGid approvalId = some before →
    before.status ∈ finalStates → repository.sees w' tenantGid approvalId = some before
  /-- What a record is bound to stays. -/
  bound : ∀ before, repository.sees w tenantGid approvalId = some before →
    ∃ after, repository.sees w' tenantGid approvalId = some after ∧ after.bound = before.bound

variable {repository} (str : Json → Str) (draws : Draws)

/-- Steps of the calls over the repository; nothing else changes it. -/
abbrev CallStep (repository : Repository ρ) :=
  Step (runApproval str) (repository.handle draws) (fun _ _ => False)

abbrev CallRun (repository : Repository ρ) :=
  Run (runApproval str) (repository.handle draws) (fun _ _ => False)

variable {str draws} {w w' : ApprovalWorld ρ} {e : Event ApprovalAction}

theorem step_changes (hsound : repository.Sound) (h : repository.CallStep str draws w e w') :
    (w'.state = w.state ∧ w'.trace = w.trace) ∨ ∃ i r thread, e = .requests i r ∧ w.threads[i]? = some thread ∧
      (∃ g k, thread.program = .call r g k) ∧
      ∀ tenantGid approvalId, repository.Changes w.state.repository r
        (repository.sees w tenantGid approvalId) (repository.sees w' tenantGid approvalId) := by
  cases h with
  | begin c => exact Or.inl ⟨rfl, rfl⟩
  | outside s h => exact h.elim
  | answer i c past r g k a s hi hr =>
    refine Or.inr ⟨i, r, _, rfl, hi, ⟨g, k, rfl⟩, fun tenantGid approvalId => ?_⟩
    have hchanges := hsound.changes draws r w.state tenantGid approvalId
    rw [hr] at hchanges
    exact hchanges
  | refuse i c past r g k err s hi hr =>
    refine Or.inr ⟨i, r, _, rfl, hi, ⟨g, k, rfl⟩, fun tenantGid approvalId => ?_⟩
    have hchanges := hsound.changes draws r w.state tenantGid approvalId
    rw [hr] at hchanges
    exact hchanges

theorem step_bound (hsound : repository.Sound) (h : repository.CallStep str draws w e w')
    {tenantGid approvalId : Str} {before : ApprovalRequest}
    (hbefore : repository.sees w tenantGid approvalId = some before) :
    ∃ after, repository.sees w' tenantGid approvalId = some after ∧ after.bound = before.bound := by
  rcases step_changes hsound h with ⟨hstate, -⟩ | ⟨i, r, thread, -, -, -, hall⟩
  · refine ⟨before, ?_, rfl⟩
    unfold sees at hbefore ⊢
    rwa [hstate]
  · have hchanges := hall tenantGid approvalId
    rw [hbefore] at hchanges
    generalize repository.sees w' tenantGid approvalId = seen at hchanges
    cases hchanges with
    | kept => exact ⟨before, rfl, rfl⟩
    | moved t _ now hr hfinds => exact ⟨_, rfl, ApprovalRequest.bound_moved ..⟩

/-- The record that a `get` has shown is there, bound to the same. -/
def Shows (repository : Repository ρ) (x : Exchange ApprovalAction.Answer) (w : ApprovalWorld ρ) :
    Prop :=
  ∀ tenantGid approvalId approval, x = ⟨.get tenantGid approvalId, some approval⟩ →
    ∃ seen, repository.sees w tenantGid approvalId = some seen ∧ seen.bound = approval.bound

/-- Every record has one of the four states. -/
def Stated (repository : Repository ρ) (w : ApprovalWorld ρ) : Prop :=
  ∀ tenantGid approvalId approval, repository.sees w tenantGid approvalId = some approval →
    approval.status = pending ∨ approval.status ∈ finalStates

theorem target_final {c : ApprovalCall} {past : List (Exchange ApprovalAction.Answer)}
    {t : Transition} (h : Sends c past (.transition t)) : t.targetState ∈ finalStates := by
  rcases h with h | h
  · simp [finalStates, h]
  · rcases h.target with h | h <;> simp [finalStates, h]

variable {allowed : ApprovalWorld ρ → Event ApprovalAction → Prop}

/-- **The states and what the calls have seen hold along every run.** -/
theorem run_invariant (hsound : repository.Sound) {s : ρ}
    (hempty : ∀ tenantGid approvalId, repository.get s tenantGid approvalId = none)
    (h : repository.CallRun str draws allowed (World.initial { repository := s }) w) :
    repository.Stated w ∧ ∀ t ∈ w.threads, ∀ x ∈ t.history, repository.Shows x w := by
  refine h.history (I := repository.Stated) ?_ (fun t ht => by cases ht) ?_ ?_ ?_
  · intro tenantGid approvalId approval hsome
    change repository.get s tenantGid approvalId = _ at hsome
    rw [hempty] at hsome
    cases hsome
  · intro w e w' hrun hI _ _ hs tenantGid approvalId approval hsome
    rcases step_changes hsound hs with ⟨hstate, -⟩ | ⟨i, r, thread, -, hi, ⟨g, k, hk⟩, hall⟩
    · refine hI tenantGid approvalId approval ?_
      unfold sees at hsome ⊢
      rwa [hstate] at hsome
    · have hsends : Sends thread.call thread.history r := by
        obtain ⟨c, past, p⟩ := thread
        cases hk
        exact hrun.request (run_meets str) hi
      have hchanges := hall tenantGid approvalId
      rw [hsome] at hchanges
      generalize hbefore : repository.sees w tenantGid approvalId = seen at hchanges
      cases hchanges with
      | kept => exact hI tenantGid approvalId approval hbefore
      | added request _ hr hstatus =>
        subst hr
        exact Or.inl (hstatus hsends)
      | moved t current now hr hfinds =>
        subst hr
        exact Or.inr (target_final hsends)
  · intro w e w' x hI _ hs _ htrace
    rintro tenantGid approvalId approval rfl
    cases hs with
    | begin c => simp at htrace
    | outside s h => exact h.elim
    | answer i c past r g k a s hi hr =>
      obtain hx : (⟨r, a⟩ : Exchange ApprovalAction.Answer) = _ :=
        List.singleton_injective (List.append_cancel_left htrace)
      cases hx
      obtain ⟨hseen, rfl⟩ := Prod.mk.inj hr
      exact ⟨approval, Except.ok.inj hseen, rfl⟩
    | refuse i c past r g k e s hi hr => simp at htrace
  · intro w e w' x _ hx hs _ tenantGid approvalId approval heq
    obtain ⟨seen, hseen, hbound⟩ := hx tenantGid approvalId approval heq
    obtain ⟨after, hafter, hsame⟩ := step_bound hsound hs hseen
    exact ⟨after, hafter, hsame.trans hbound⟩

/-- **A step that reopens nothing is governed**, in every world that a run reaches. -/
theorem step_governed (hsound : repository.Sound) {s : ρ}
    (hempty : ∀ tenantGid approvalId, repository.get s tenantGid approvalId = none)
    (h : repository.CallRun str draws allowed (World.initial { repository := s }) w)
    (hs : repository.CallStep str draws w e w') (hkeep : ¬ repository.Reopens w e)
    (tenantGid approvalId : Str) : repository.Governed w e w' tenantGid approvalId := by
  obtain ⟨hstated, hshows⟩ := run_invariant hsound hempty h
  rcases step_changes hsound hs with ⟨hstate, -⟩ | ⟨i, r, thread, rfl, hi, ⟨g, k, hk⟩, hall⟩
  · have hsame : repository.sees w' tenantGid approvalId
        = repository.sees w tenantGid approvalId := by
      unfold sees
      rw [hstate]
    refine ⟨?_, fun before hbefore _ => hsame.trans hbefore, fun before hbefore => step_bound hsound hs hbefore⟩
    intro after hafter _ hne
    exact absurd rfl (hne after (hsame ▸ hafter))
  · have hsends : Sends thread.call thread.history r := by
      obtain ⟨c, past, p⟩ := thread
      cases hk
      exact h.request (run_meets str) hi
    have hchanges := hall tenantGid approvalId
    refine ⟨?_, ?_, fun before hbefore => step_bound hsound hs hbefore⟩
    · intro after hafter hdecided hne
      rw [hafter] at hchanges
      generalize hbefore : repository.sees w tenantGid approvalId = seen at hchanges hne
      cases hchanges with
      | kept => exact absurd rfl (hne after rfl)
      | added request _ hr hstatus =>
        subst hr
        rw [hstatus hsends] at hdecided
        exact absurd hdecided (by decide)
      | moved t current now hr hfinds =>
        subst hr
        have hactive : current.status ∉ finalStates :=
          fun hfinal => hkeep ⟨i, t, current, rfl, hfinds, hfinal⟩
        refine ⟨current, rfl, (hstated _ _ _ hbefore).resolve_right hactive, ?_⟩
        rcases hsends with hcancel | hdecides
        · change t.targetState = approved ∨ t.targetState = rejected at hdecided
          rw [hcancel] at hdecided
          exact absurd hdecided (by decide)
        · obtain ⟨tenant, reason, hcall, hreason, htenant⟩ := hdecides.call
          obtain ⟨approval, hlooked, hactor⟩ := hdecides.looked
          obtain ⟨seen, hseen, hbound⟩ :=
            hshows _ (List.mem_of_getElem? hi) _ hlooked _ _ _ rfl
          obtain rfl : seen = current := Option.some_injective _ (hseen.symm.trans hfinds.found)
          refine ⟨i, _, thread, tenant, t.tenantGid, t.approvalId, t.expectedState, t.actorGid,
            t.targetState, reason, rfl, hi, hcall, htenant, hfinds.found, ?_, rfl, rfl, hreason⟩
          rwa [ApprovalRequest.approverIds_of_bound hbound]
    · intro before hbefore hfinal
      rw [hbefore] at hchanges
      generalize repository.sees w' tenantGid approvalId = seen at hchanges
      cases hchanges with
      | kept => rfl
      | moved t _ now hr hfinds =>
        subst hr
        exact absurd ⟨i, t, before, rfl, hfinds, hfinal⟩ hkeep

end Repository

end Ai00.Base
