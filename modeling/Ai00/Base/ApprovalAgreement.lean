import Ai00.Base.ApprovalLifecycle

/-! # One service over two repositories

The same schedule of calls runs over the dictionary and over the table, each with its own clock.
As long as the requests are `Portable` the two stay in step: every call is accepted by both or
refused by both, and the records they return differ in their timestamps only.
-/

namespace Ai00.Base

open Program

/-- A record without its timestamps. -/
def ApprovalRequest.untimed (request : ApprovalRequest) : ApprovalRequest :=
  { request with createdAt := 0, updatedAt := 0 }

variable {request request' : ApprovalRequest}

theorem untimed_moved (h : request.untimed = request'.untimed)
    (target : Str) (reason : Option Str) (actor : Str) (now now' : Int) :
    (request.moved target reason actor now).untimed = (request'.moved target reason actor now').untimed := by
  have hmoved : ∀ (q : ApprovalRequest) (n : Int), (q.moved target reason actor n).untimed
      = { q.untimed with status := target, decisionReason := reason, decidedBy := some actor } :=
    fun _ _ => rfl
  rw [hmoved, hmoved, h]

/-- Both refuse; a duplicate identifier has an error of its own in the table. -/
def ErrorsAlike (e f : ApprovalError) : Prop :=
  e = f ∨ e = .businessError "idempotency_conflict" "Approval ID already exists.".toList ∧
    f = .integrityError

/-- A record as `create` makes it. -/
structure ApprovalRequest.Fresh (request : ApprovalRequest) : Prop where
  status : request.status = pending
  decisionReason : request.decisionReason = none
  decidedBy : request.decidedBy = none

def RequestsAlike : ApprovalAction → ApprovalAction → Prop
  | .now, .now => True
  | .uuid, .uuid => True
  | .add request, .add request' => request.untimed = request'.untimed ∧ request.Fresh
  | .get tenantGid approvalId, .get tenantGid' approvalId' =>
    tenantGid = tenantGid' ∧ approvalId = approvalId'
  | .transition t, .transition t' => t = t' ∧ t.targetState ∈ finalStates
  | _, _ => False

def ExchangesAlike : Exchange ApprovalAction.Answer → Exchange ApprovalAction.Answer → Prop
  | ⟨.now, _⟩, ⟨.now, _⟩ => True
  | ⟨.uuid, uuid⟩, ⟨.uuid, uuid'⟩ => uuid = uuid'
  | ⟨.add _, _⟩, ⟨.add _, _⟩ => True
  | ⟨.get _ _, seen⟩, ⟨.get _ _, seen'⟩ =>
    seen.map ApprovalRequest.untimed = seen'.map ApprovalRequest.untimed
  | ⟨.transition _, updated⟩, ⟨.transition _, updated'⟩ => updated.untimed = updated'.untimed
  | _, _ => False

def likeness : Likeness ApprovalAction.Answer ApprovalError where
  request := RequestsAlike
  exchange := ExchangesAlike
  error := ErrorsAlike

def RecordsAlike (request request' : ApprovalRequest) : Prop := request.untimed = request'.untimed

/-! ## The calls agree with themselves -/

theorem get_agrees (tenantGid approvalId : Str) :
    Agrees likeness RecordsAlike (ApprovalService.get tenantGid approvalId)
      (ApprovalService.get tenantGid approvalId) := by
  unfold ApprovalService.get
  refine Agrees.lift (fun _ _ => Or.inl rfl) fun tenant _ => ?_
  refine Agrees.request ⟨rfl, rfl⟩ fun seen seen' hseen => ?_
  change seen.map ApprovalRequest.untimed = seen'.map ApprovalRequest.untimed at hseen
  cases seen with
  | none =>
    cases seen' with
    | none => exact Or.inl rfl
    | some approval => cases hseen
  | some approval =>
    cases seen' with
    | none => cases hseen
    | some approval' => exact Option.some_injective _ hseen

theorem run_agrees (str : Json → Str) (c : ApprovalCall) :
    Agrees likeness RecordsAlike (runApproval str c) (runApproval str c) := by
  cases c with
  | create tenantGid requesterGid payload =>
    show Agrees _ _ (ApprovalService.create str tenantGid requesterGid payload)
      (ApprovalService.create str tenantGid requesterGid payload)
    unfold ApprovalService.create
    refine Agrees.lift (fun _ _ => Or.inl rfl) fun tenant _ => ?_
    refine Agrees.lift (fun _ _ => Or.inl rfl) fun approvers _ => ?_
    refine @Agrees.request _ _ _ _ _ _ ApprovalAction.now ApprovalAction.now _ _ trivial fun now now' _ => ?_
    refine @Agrees.request _ _ _ _ _ _ ApprovalAction.uuid ApprovalAction.uuid _ _ trivial
      fun uuid uuid' huuid => ?_
    obtain rfl : uuid = uuid' := huuid
    exact ⟨⟨rfl, rfl, rfl, rfl⟩, fun _ _ h => h, fun _ _ _ => rfl⟩
  | get tenantGid approvalId => exact get_agrees tenantGid approvalId
  | decide tenantGid approvalId expectedState actorGid decision reason =>
    show Agrees _ _ (ApprovalService.decide tenantGid approvalId expectedState actorGid decision
      reason) (ApprovalService.decide tenantGid approvalId expectedState actorGid decision reason)
    unfold ApprovalService.decide
    refine (get_agrees tenantGid approvalId).bind fun current current' hcurrent => ?_
    have happrovers : current.approverIds = current'.approverIds :=
      congrArg (·.approverIds) hcurrent
    rw [happrovers]
    split_ifs with hactor hdecision
    · refine Agrees.lift (fun _ _ => Or.inl rfl) fun tenant _ => ?_
      refine ⟨⟨rfl, ?_⟩, fun _ _ h => h, fun _ _ h => h⟩
      rcases (by simpa using hdecision : decision = approved ∨ decision = rejected) with h | h <;>
        simp [finalStates, h]
    · exact Or.inl rfl
    · exact Or.inl rfl
  | cancel tenantGid approvalId expectedState actorGid =>
    show Agrees _ _ (ApprovalService.cancel tenantGid approvalId expectedState actorGid)
      (ApprovalService.cancel tenantGid approvalId expectedState actorGid)
    unfold ApprovalService.cancel
    refine Agrees.lift (fun _ _ => Or.inl rfl) fun tenant _ => ?_
    exact ⟨⟨rfl, by simp [finalStates]⟩, fun _ _ h => h, fun _ _ h => h⟩

/-! ## The states -/

/-- The two repositories hold the same records, apart from the timestamps. -/
structure StatesAlike (collate : Str → Str) (s : ApprovalState InMemoryApprovalRepository)
    (t : ApprovalState SqlApprovalRepository) : Prop where
  records : s.repository.items.map ApprovalRequest.untimed
    = t.repository.rows.map (fun row => row.request.untimed)
  keys : (t.repository.rows.map (SqlApprovalRepository.key collate)).Nodup
  identifiers : s.identifiers = t.identifiers

/-- Under the collation the key is that of a stored record only if it is its key. -/
def Unaliased (collate : Str → Str) (items : List ApprovalRequest) (tenantGid approvalId : Str) :
    Prop :=
  ∀ item ∈ items, collate item.tenantGid = collate tenantGid →
    collate item.approvalId = collate approvalId →
    item.tenantGid = tenantGid ∧ item.approvalId = approvalId

/-- The texts fit their columns. -/
structure Fits (request : ApprovalRequest) : Prop where
  tenantGid : request.tenantGid.length ≤ 64
  approvalId : request.approvalId.length ≤ 64
  subjectRef : request.subjectRef.length ≤ 191
  requesterGid : request.requesterGid.length ≤ 64

/-- What both repositories treat alike. -/
def Portable (collate : Str → Str) (repository : InMemoryApprovalRepository) :
    ApprovalAction → Prop
  | .now => True
  | .uuid => True
  | .add request =>
    Fits request ∧ Unaliased collate repository.items request.tenantGid request.approvalId
  | .get tenantGid approvalId => Unaliased collate repository.items tenantGid approvalId
  | .transition t =>
    Unaliased collate repository.items t.tenantGid t.approvalId ∧
      ∀ current ∈ repository.get t.tenantGid t.approvalId, current.status ∈ finalStates →
        current.status = t.expectedState →
        t.idempotentTarget = true ∧ current.status = t.targetState

/-- The key of a record as the table compares it. -/
def collatedKey (collate : Str → Str) (request : ApprovalRequest) : Str × Str :=
  (collate request.tenantGid, collate request.approvalId)

section

variable {collate : Str → Str} {s : ApprovalState InMemoryApprovalRepository}
  {t : ApprovalState SqlApprovalRepository} {tenantGid approvalId : Str}

/-- **A key that is not aliased finds the same record in both.** -/
theorem get_alike (h : StatesAlike collate s t)
    (hkey : Unaliased collate s.repository.items tenantGid approvalId) :
    (s.repository.get tenantGid approvalId).map ApprovalRequest.untimed
      = (t.repository.get collate tenantGid approvalId).map ApprovalRequest.untimed := by
  have hsame : ∀ x ∈ s.repository.items.map ApprovalRequest.untimed,
      InMemoryApprovalRepository.key x = (tenantGid, approvalId) ↔
        collatedKey collate x = (collate tenantGid, collate approvalId) := by
    intro x hx
    obtain ⟨item, hitem, rfl⟩ := List.mem_map.mp hx
    constructor
    · intro heq
      cases heq
      rfl
    · intro heq
      obtain ⟨htenant, hid⟩ := hkey item hitem (congrArg Prod.fst heq) (congrArg Prod.snd heq)
      exact Prod.ext htenant hid
  calc (s.repository.get tenantGid approvalId).map ApprovalRequest.untimed
      = KeyedRows.lookup InMemoryApprovalRepository.key (tenantGid, approvalId)
          (s.repository.items.map ApprovalRequest.untimed) := KeyedRows.map_lookup fun _ => rfl
    _ = KeyedRows.lookup (collatedKey collate) (collate tenantGid, collate approvalId)
          (t.repository.rows.map (fun row => row.request.untimed)) := by
        rw [KeyedRows.lookup_congr hsame, h.records]
    _ = (t.repository.get collate tenantGid approvalId).map ApprovalRequest.untimed := by
        rw [SqlApprovalRepository.get, Option.map_map]
        exact (KeyedRows.map_lookup fun _ => rfl).symm

theorem fitColumn_of_le {width : Nat} {value : Str} (h : value.length ≤ width) :
    fitColumn width value = .ok value := if_pos h

/-- A fresh record that fits is read back as it was written. -/
theorem row_of_fits {request : ApprovalRequest} (hfits : Fits request) (hfresh : request.Fresh) :
    ∃ row, SqlApprovalRepository.row request = .ok row ∧ row.request = request := by
  have hstatus : request.status.length ≤ 32 := by
    rw [hfresh.status]
    decide
  unfold SqlApprovalRepository.row
  rw [fitColumn_of_le hfits.tenantGid, fitColumn_of_le hfits.approvalId,
    fitColumn_of_le hfits.subjectRef, fitColumn_of_le hfits.requesterGid, fitColumn_of_le hstatus]
  refine ⟨_, rfl, ?_⟩
  have hreason := hfresh.decisionReason
  have hby := hfresh.decidedBy
  obtain ⟨⟩ := request
  simp only [ApprovalRow.request, Option.bind_none, Option.map_none] at *
  rw [hreason, hby]

variable {row : ApprovalRow}

theorem add_of_row {repository : SqlApprovalRepository} {request : ApprovalRequest}
    (hrow : SqlApprovalRepository.row request = .ok row) :
    repository.add collate request =
      match Rows.insert (fun r s => SqlApprovalRepository.key collate r
          == SqlApprovalRepository.key collate s) row repository.rows with
      | none => .error .integrityError
      | some rows => .ok { rows } := by
  rw [SqlApprovalRepository.add, hrow]
  rfl

theorem fits_of_untimed (hlike : request.untimed = request'.untimed) (h : Fits request) : Fits request' := by
  have htenant : request'.tenantGid = request.tenantGid := congrArg (·.tenantGid) hlike.symm
  have hid : request'.approvalId = request.approvalId := congrArg (·.approvalId) hlike.symm
  have hsubject : request'.subjectRef = request.subjectRef := congrArg (·.subjectRef) hlike.symm
  have hrequester : request'.requesterGid = request.requesterGid :=
    congrArg (·.requesterGid) hlike.symm
  exact
    { tenantGid := htenant ▸ h.tenantGid
      approvalId := hid ▸ h.approvalId
      subjectRef := hsubject ▸ h.subjectRef
      requesterGid := hrequester ▸ h.requesterGid }

theorem fresh_of_untimed
    (hlike : request.untimed = request'.untimed) (h : request.Fresh) : request'.Fresh where
  status := (congrArg (·.status) hlike.symm).trans h.status
  decisionReason := (congrArg (·.decisionReason) hlike.symm).trans h.decisionReason
  decidedBy := (congrArg (·.decidedBy) hlike.symm).trans h.decidedBy

/-- A new record is refused by both or stored by both. -/
theorem add_alike (h : StatesAlike collate s t)
    (hlike : request.untimed = request'.untimed) (hfresh : request.Fresh) (hfits : Fits request)
    (hkey : Unaliased collate s.repository.items request.tenantGid request.approvalId)
    (draws draws' : Draws) :
    AnswersAlike likeness (StatesAlike collate) (.add request) (.add request')
      (inMemory.handle draws (.add request) s) ((sql collate).handle draws' (.add request') t) := by
  obtain ⟨row, hrow, hread⟩ :=
    row_of_fits (fits_of_untimed hlike hfits) (fresh_of_untimed hlike hfresh)
  have hrowkey : SqlApprovalRepository.key collate row
      = (collate request.tenantGid, collate request.approvalId) := by
    have hrequest : row.request.untimed = request.untimed := hread ▸ hlike.symm
    exact congrArg (collatedKey collate) hrequest
  have hget := get_alike h hkey
  change (KeyedRows.lookup _ (InMemoryApprovalRepository.key request) _).map _ = _ at hget
  simp only [Repository.handle, answerRequest, inMemory, sql, InMemoryApprovalRepository.add]
  cases hmemory : KeyedRows.lookup InMemoryApprovalRepository.key
      (InMemoryApprovalRepository.key request) s.repository.items with
  | some seen =>
    rw [hmemory, SqlApprovalRepository.get, Option.map_some] at hget
    obtain ⟨found, hfound, -⟩ := Option.map_eq_some_iff.mp hget.symm
    obtain ⟨old, hold, -⟩ := Option.map_eq_some_iff.mp hfound
    have hclash : Rows.insert (fun r r' => SqlApprovalRepository.key collate r
        == SqlApprovalRepository.key collate r') row t.repository.rows = none := by
      refine Rows.insert_eq_none.mpr ⟨old, KeyedRows.mem_of_lookup hold, ?_⟩
      rw [beq_iff_eq, hrowkey, KeyedRows.key_of_lookup hold]
    simp only [Option.isSome_some, if_true, add_of_row hrow, hclash]
    exact ⟨Or.inr ⟨rfl, rfl⟩, h⟩
  | none =>
    rw [hmemory, SqlApprovalRepository.get, Option.map_none, eq_comm, Option.map_eq_none_iff,
      Option.map_eq_none_iff, KeyedRows.lookup_eq_none_iff] at hget
    have hinsert : Rows.insert (fun r r' => SqlApprovalRepository.key collate r
        == SqlApprovalRepository.key collate r') row t.repository.rows = some (t.repository.rows ++ [row]) := by
      refine Rows.insert_eq_some.mpr ⟨fun old hold => ?_, rfl⟩
      rw [beq_eq_false_iff_ne, hrowkey]
      exact (hget old hold).symm
    simp only [Option.isSome_none, Bool.false_eq_true, if_false, add_of_row hrow, hinsert]
    refine ⟨trivial, ?_, ?_, h.identifiers⟩
    · rw [KeyedRows.upsert_of_new (KeyedRows.lookup_eq_none_iff.mp hmemory), List.map_append,
        List.map_append, h.records, List.map_singleton, List.map_singleton, hread, hlike]
    · refine Rows.nodup_map_concat h.keys ?_
      rw [hrowkey]
      intro hin
      obtain ⟨old, hold, heq⟩ := List.mem_map.mp hin
      exact hget old hold heq

variable {tr : Transition}

/-- The one row that `t` selects is the one it finds. -/
theorem countP_selected {rows : List ApprovalRow} {n : Int}
    (hkeys : (rows.map (SqlApprovalRepository.key collate)).Nodup) (hrow : row ∈ rows)
    (hselected : SqlApprovalRepository.selected collate tr row = true)
    (hchanged : row.status ≠ tr.targetState) :
    rows.countP (fun r => SqlApprovalRepository.selected collate tr r
      && SqlApprovalRepository.setDecision tr n r != r) = 1 := by
  refine le_antisymm (KeyedRows.countP_le_one (k := SqlApprovalRepository.key collate row) hkeys ?_)
    (List.countP_pos_iff.mpr ⟨row, hrow, ?_⟩)
  · intro r _ hr
    rw [Bool.and_eq_true] at hr
    exact (SqlApprovalRepository.selected_iff.mp hr.1).1.trans
      (SqlApprovalRepository.selected_iff.mp hselected).1.symm
  · rw [hselected, Bool.true_and, bne_iff_ne]
    intro heq
    exact hchanged (congrArg (·.status) heq).symm

/-- The table selects by the key and the expected status what the dictionary finds by the key. -/
theorem selected_iff_key (h : StatesAlike collate s t) {current : ApprovalRequest}
    (hkey : Unaliased collate s.repository.items tr.tenantGid tr.approvalId)
    (hfinds : inMemory.Finds s.repository tr current)
    (hrow : row ∈ t.repository.rows) :
    SqlApprovalRepository.selected collate tr row = true ↔
      InMemoryApprovalRepository.key row.request.untimed = (tr.tenantGid, tr.approvalId) := by
  rw [SqlApprovalRepository.selected_iff]
  constructor
  · rintro ⟨hrowkey, -⟩
    have hitem : row.request.untimed ∈ s.repository.items.map ApprovalRequest.untimed :=
      h.records ▸ List.mem_map_of_mem hrow
    obtain ⟨item, hitem, heq⟩ := List.mem_map.mp hitem
    have htenant : item.tenantGid = row.tenantGid := congrArg (·.tenantGid) heq
    have hid : item.approvalId = row.approvalId := congrArg (·.approvalId) heq
    obtain ⟨h1, h2⟩ := hkey item hitem (htenant ▸ congrArg Prod.fst hrowkey)
      (hid ▸ congrArg Prod.snd hrowkey)
    exact Prod.ext (htenant.symm.trans h1) (hid.symm.trans h2)
  · intro hrowkey
    have htenant : row.tenantGid = tr.tenantGid := congrArg Prod.fst hrowkey
    have hid : row.approvalId = tr.approvalId := congrArg Prod.snd hrowkey
    have hcollated : SqlApprovalRepository.key collate row = (collate tr.tenantGid, collate tr.approvalId) := by
      rw [SqlApprovalRepository.key, htenant, hid]
    refine ⟨hcollated, ?_⟩
    have hget := get_alike h hkey
    have hlookup := KeyedRows.lookup_of_mem h.keys hrow
    rw [hcollated] at hlookup
    have hfound : s.repository.get tr.tenantGid tr.approvalId = some current := hfinds.found
    rw [hfound, SqlApprovalRepository.get, hlookup] at hget
    have hstatus : current.status = row.status :=
      congrArg (·.status) (Option.some_injective _ hget)
    rw [← hstatus, hfinds.expected]

theorem records_moved (h : StatesAlike collate s t) {current : ApprovalRequest}
    {now now' : Int} (hkey : Unaliased collate s.repository.items tr.tenantGid tr.approvalId)
    (hfinds : inMemory.Finds s.repository tr current) :
    (KeyedRows.upsert InMemoryApprovalRepository.key
        (current.moved tr.targetState tr.reason tr.actorGid now)
        s.repository.items).map ApprovalRequest.untimed
      = (Rows.update (SqlApprovalRepository.selected collate tr)
          (SqlApprovalRepository.setDecision tr now') t.repository.rows).map
            (fun row => row.request.untimed) := by
  have hfound : KeyedRows.lookup InMemoryApprovalRepository.key (tr.tenantGid, tr.approvalId)
      s.repository.items = some current := hfinds.found
  have hcurrent : InMemoryApprovalRepository.key current = (tr.tenantGid, tr.approvalId) :=
    KeyedRows.key_of_lookup hfound
  have hkeys : (s.repository.items.map InMemoryApprovalRepository.key).Nodup := by
    have hcollated : (s.repository.items.map ApprovalRequest.untimed).map (collatedKey collate)
        = t.repository.rows.map (SqlApprovalRepository.key collate) := by
      rw [h.records, List.map_map]
      rfl
    have hnodup := h.keys
    rw [← hcollated, List.map_map] at hnodup
    have hpair : collatedKey collate ∘ ApprovalRequest.untimed
        = Prod.map collate collate ∘ InMemoryApprovalRepository.key := rfl
    rw [hpair, ← List.map_map] at hnodup
    exact hnodup.of_map _
  -- both sides rewrite the record of the key, seen without timestamps
  let move : ApprovalRequest → ApprovalRequest := fun x =>
    if InMemoryApprovalRepository.key x = (tr.tenantGid, tr.approvalId) then
      (x.moved tr.targetState tr.reason tr.actorGid now).untimed
    else x
  calc (KeyedRows.upsert InMemoryApprovalRepository.key
        (current.moved tr.targetState tr.reason tr.actorGid now)
        s.repository.items).map ApprovalRequest.untimed
      = (s.repository.items.map ApprovalRequest.untimed).map move := by
        rw [KeyedRows.upsert_eq_map hkeys (KeyedRows.mem_of_lookup hfound)
          (InMemoryApprovalRepository.key_moved ..).symm, List.map_map, List.map_map]
        refine List.map_congr_left fun item hitem => ?_
        rw [Function.comp_apply, Function.comp_apply, InMemoryApprovalRepository.key_moved, hcurrent]
        by_cases hitemkey : InMemoryApprovalRepository.key item = (tr.tenantGid, tr.approvalId)
        · have heq : item = current := by
            have hitemfound := KeyedRows.lookup_of_mem hkeys hitem
            rw [hitemkey, hfound] at hitemfound
            exact (Option.some_injective _ hitemfound).symm
          rw [if_pos hitemkey, heq]
          exact (if_pos hcurrent).symm
        · rw [if_neg hitemkey]
          exact (if_neg hitemkey).symm
    _ = (t.repository.rows.map (fun row => row.request.untimed)).map move := by rw [h.records]
    _ = (Rows.update (SqlApprovalRepository.selected collate tr)
          (SqlApprovalRepository.setDecision tr now') t.repository.rows).map
            (fun row => row.request.untimed) := by
        rw [Rows.update, List.map_map, List.map_map]
        refine List.map_congr_left fun row hrow => ?_
        rw [Function.comp_apply, Function.comp_apply]
        by_cases hselected : SqlApprovalRepository.selected collate tr row = true
        · rw [if_pos hselected]
          exact if_pos ((selected_iff_key h hkey hfinds hrow).mp hselected)
        · rw [if_neg hselected]
          exact if_neg fun hrowkey => hselected ((selected_iff_key h hkey hfinds hrow).mpr hrowkey)

/-- The table takes a transition as the dictionary does, unless it reopens a final record. -/
theorem transition_alike (h : StatesAlike collate s t)
    (hport : Portable collate s.repository (.transition tr)) (htarget : tr.targetState ∈ finalStates)
    (draws draws' : Draws) :
    AnswersAlike likeness (StatesAlike collate) (.transition tr) (.transition tr)
      (inMemory.handle draws (.transition tr) s)
      ((sql collate).handle draws' (.transition tr) t) := by
  obtain ⟨hkey, hfinal⟩ := hport
  have hget := get_alike h hkey
  simp only [Repository.handle, answerRequest, inMemory, sql,
    InMemoryApprovalRepository.transition, SqlApprovalRepository.transition]
  cases hmemory : s.repository.get tr.tenantGid tr.approvalId with
  | none =>
    rw [hmemory, Option.map_none, eq_comm, Option.map_eq_none_iff] at hget
    rw [hget]
    exact ⟨Or.inl rfl, h⟩
  | some current =>
    rw [hmemory, Option.map_some] at hget
    obtain ⟨current', hsql, hcurrent⟩ := Option.map_eq_some_iff.mp hget.symm
    have hstatus : current'.status = current.status := congrArg (·.status) hcurrent
    rw [hsql]
    dsimp only
    rw [hstatus]
    by_cases hidem : tr.idempotentTarget = true ∧ current.status = tr.targetState
    · rw [if_pos hidem, if_pos hidem]
      exact ⟨hcurrent.symm, h⟩
    · rw [if_neg hidem, if_neg hidem]
      by_cases hexpected : current.status = tr.expectedState
      · rw [if_neg (not_not.mpr hexpected), if_neg (not_not.mpr hexpected)]
        have hfinds : inMemory.Finds s.repository tr current := ⟨hmemory, hexpected, hidem⟩
        have hactive : current.status ∉ finalStates :=
          fun hin => hidem (hfinal current hmemory hin hexpected)
        obtain ⟨row, hrow, hread⟩ := Option.map_eq_some_iff.mp hsql
        have hselected : SqlApprovalRepository.selected collate tr row = true := by
          refine SqlApprovalRepository.selected_iff.mpr ⟨KeyedRows.key_of_lookup hrow, ?_⟩
          have hrowstatus : row.status = current.status := (congrArg (·.status) hread).trans hstatus
          rw [hrowstatus, hexpected]
        have hchanged : row.status ≠ tr.targetState := by
          have hrowstatus : row.status = current.status := (congrArg (·.status) hread).trans hstatus
          rw [hrowstatus]
          exact fun heq => hactive (heq ▸ htarget)
        have hcount := countP_selected (n := draws'.times t.readings) h.keys
          (KeyedRows.mem_of_lookup hrow) hselected hchanged
        rw [if_neg (not_not.mpr hcount)]
        refine ⟨untimed_moved hcurrent.symm .., records_moved h hkey hfinds, ?_, h.identifiers⟩
        rw [Rows.update, List.map_map]
        convert h.keys using 2
        funext r
        rw [Function.comp_apply]
        split_ifs with hr
        · exact SqlApprovalRepository.key_setDecision ..
        · rfl
      · rw [if_pos hexpected, if_pos hexpected]
        exact ⟨Or.inl rfl, h⟩

/-- **A portable request is answered alike.** -/
theorem handle_alike (h : StatesAlike collate s t) {r r' : ApprovalAction}
    (hreq : RequestsAlike r r') (hport : Portable collate s.repository r) (times times' : Nat → Int)
    (uuids : Nat → Str) :
    AnswersAlike likeness (StatesAlike collate) r r' (inMemory.handle ⟨times, uuids⟩ r s)
      ((sql collate).handle ⟨times', uuids⟩ r' t) := by
  cases r with
  | now =>
    cases r' with
    | now => exact ⟨trivial, h.records, h.keys, h.identifiers⟩
    | _ => exact hreq.elim
  | uuid =>
    cases r' with
    | uuid =>
      refine ⟨congrArg uuids h.identifiers, h.records, h.keys, ?_⟩
      exact congrArg (· + 1) h.identifiers
    | _ => exact hreq.elim
  | add request =>
    cases r' with
    | add request' => exact add_alike h hreq.1 hreq.2 hport.1 hport.2 _ _
    | _ => exact hreq.elim
  | get tenantGid approvalId =>
    cases r' with
    | get tenantGid' approvalId' =>
      obtain ⟨rfl, rfl⟩ := hreq
      exact ⟨get_alike h hport, h⟩
    | _ => exact hreq.elim
  | transition tr =>
    cases r' with
    | transition tr' =>
      obtain ⟨rfl, htarget⟩ := hreq
      exact transition_alike h hport htarget _ _
    | _ => exact hreq.elim

end

instance (request : ApprovalRequest) : Decidable (Fits request) :=
  decidable_of_iff (request.tenantGid.length ≤ 64 ∧ request.approvalId.length ≤ 64 ∧
      request.subjectRef.length ≤ 191 ∧ request.requesterGid.length ≤ 64)
    ⟨fun ⟨h1, h2, h3, h4⟩ => ⟨h1, h2, h3, h4⟩, fun ⟨h1, h2, h3, h4⟩ => ⟨h1, h2, h3, h4⟩⟩

instance (collate : Str → Str) (items : List ApprovalRequest) (tenantGid approvalId : Str) :
    Decidable (Unaliased collate items tenantGid approvalId) :=
  inferInstanceAs (Decidable (∀ item ∈ items, _))

instance (collate : Str → Str) (repository : InMemoryApprovalRepository) :
    DecidablePred (Portable collate repository)
  | .now => .isTrue trivial
  | .uuid => .isTrue trivial
  | .add _ => inferInstanceAs (Decidable (_ ∧ _))
  | .get _ _ => inferInstanceAs (Decidable (Unaliased _ _ _ _))
  | .transition _ => inferInstanceAs (Decidable (_ ∧ ∀ _ ∈ _, _))

def portableEvent (collate : Str → Str) (w : ApprovalWorld InMemoryApprovalRepository) :
    Event ApprovalAction → Bool
  | .requests _ r => decide (Portable collate w.state.repository r)
  | _ => true

/-- The same call, in flight in both, refused by both or with the same record. -/
def SameOutcome
    (t u : Thread ApprovalCall ApprovalAction.Answer ApprovalError ApprovalRequest) : Prop :=
  t.call = u.call ∧
    match t.program, u.program with
    | .ret request, .ret request' => RecordsAlike request request'
    | .raise e, .raise f => ErrorsAlike e f
    | .call .., .call .. => True
    | _, _ => False

theorem sameOutcome_of_agrees {t u : Thread ApprovalCall ApprovalAction.Answer ApprovalError ApprovalRequest}
    (h : t.call = u.call ∧ Agrees likeness RecordsAlike t.program u.program) : SameOutcome t u := by
  obtain ⟨c, past, p⟩ := t
  obtain ⟨c', past', p'⟩ := u
  refine ⟨h.1, ?_⟩
  have hagrees := h.2
  cases p <;> cases p' <;> trivial

/-- No approval has been asked for yet. -/
def started {ρ : Type} (repository : ρ) : ApprovalWorld ρ := World.initial { repository }

/-- What holds of the service over either repository, and of the two against each other. -/
structure ApprovalsHold (str : Json → Str) (collate : Str → Str) (times times' : Nat → Int)
    (uuids : Nat → Str) : Prop where
  memory : ∀ w e w', inMemory.CallRun str ⟨times, uuids⟩ (fun w e => ¬ inMemory.Reopens w e)
      (started {}) w → ¬ inMemory.Reopens w e → inMemory.CallStep str ⟨times, uuids⟩ w e w' →
    ∀ tenantGid approvalId, inMemory.Governed w e w' tenantGid approvalId
  table : ∀ w e w', (sql collate).CallRun str ⟨times', uuids⟩
      (fun w e => ¬ (sql collate).Reopens w e) (started {}) w → ¬ (sql collate).Reopens w e →
      (sql collate).CallStep str ⟨times', uuids⟩ w e w' →
    ∀ tenantGid approvalId, (sql collate).Governed w e w' tenantGid approvalId
  same : ∀ ms w, (started {}).movesIf (runApproval str) (inMemory.handle ⟨times, uuids⟩)
      (portableEvent collate) ms = some w →
    ∃ v, (started {}).moves (runApproval str) ((sql collate).handle ⟨times', uuids⟩) ms = some v ∧
      List.Forall₂ SameOutcome w.threads v.threads

/-- **Approvals are decided once, by their approvers, over either repository**, in every run in
which no step reopens a final record, and the repositories agree on portable requests. -/
theorem approvals_hold (str : Json → Str) (collate : Str → Str) (times times' : Nat → Int)
    (uuids : Nat → Str) : ApprovalsHold str collate times times' uuids where
  memory := fun _ _ _ hrun hkeep hs => Repository.step_governed InMemoryApprovalRepository.sound
    (fun _ _ => rfl) hrun hs hkeep
  table := fun _ _ _ hrun hkeep hs => Repository.step_governed SqlApprovalRepository.sound
    (fun _ _ => rfl) hrun hs hkeep
  same := by
    intro ms w hmoves
    have hstart : InStep likeness RecordsAlike (StatesAlike collate) (started {}) (started {}) :=
      InStep.initial _ _ _ ⟨rfl, List.nodup_nil, rfl⟩
    obtain ⟨v, hv, hstep⟩ := World.moves_inStep (run_agrees str)
      (fun w t i r r' hlike hcheck hreq => handle_alike hlike hreq (of_decide_eq_true hcheck)
        times times' uuids) hstart hmoves
    exact ⟨v, hv, hstep.threads.imp fun _ _ h => sameOutcome_of_agrees h⟩

/-! ## A decision taken back -/

def releaseRequest : List (Str × Json) :=
  [("subject_ref".toList, .str "release-7".toList), ("resource_ref".toList, .str "spec".toList),
    ("revision".toList, .str "r3".toList),
    ("content_hash".toList, .str ("sha256:".toList ++ List.replicate 64 'a')),
    ("reason".toList, .str "ship".toList), ("approver_ids".toList, .arr [.str "ann".toList])]

def approvalDraws : Draws where
  times := fun n => n
  uuids := fun n => Nat.toDigits 10 n

/-- Ann rejects the release, then approves it with `rejected` as the expected state. -/
def reversal : List (Move ApprovalCall) :=
  [.begin (.create "t1".toList "bob".toList releaseRequest), .next 0, .next 0, .next 0,
    .begin (.decide "t1".toList "apr_0".toList pending "ann".toList rejected "no".toList),
    .next 1, .next 1,
    .begin (.decide "t1".toList "apr_0".toList rejected "ann".toList approved "yes".toList),
    .next 2]

theorem reversal_ungoverned : ∃ w e w',
    FreeRun (runApproval fun _ => []) (inMemory.handle approvalDraws) (fun _ _ => False)
      (started {}) w ∧
    inMemory.CallStep (fun _ => []) approvalDraws w e w' ∧
    ¬ inMemory.Governed w e w' "t1".toList "apr_0".toList := by
  have hbefore : ((started {}).moves (runApproval fun _ => []) (inMemory.handle approvalDraws)
      reversal).map (fun w => (inMemory.sees w "t1".toList "apr_0".toList).map (·.status))
        = some (some rejected) := by
    decide +kernel
  have hafter : ((started {}).moves (runApproval fun _ => []) (inMemory.handle approvalDraws)
      reversal).bind (fun w => (w.move (runApproval fun _ => []) (inMemory.handle approvalDraws)
        (.next 2)).map (fun w' => (inMemory.sees w' "t1".toList "apr_0".toList).map (·.status)))
        = some (some approved) := by
    decide +kernel
  obtain ⟨w, hw, hsees⟩ := Option.map_eq_some_iff.mp hbefore
  obtain ⟨before, hbefore, hstatus⟩ := Option.map_eq_some_iff.mp hsees
  rw [hw, Option.bind_some] at hafter
  obtain ⟨w', hw', hsees'⟩ := Option.map_eq_some_iff.mp hafter
  obtain ⟨after, hafter, hstatus'⟩ := Option.map_eq_some_iff.mp hsees'
  have hstep : ∃ e, w.event (.next 2) = some e ∧
      inMemory.CallStep (fun _ => []) approvalDraws w e w' := World.step_of_move hw'
  obtain ⟨e, -, hs⟩ := hstep
  refine ⟨w, e, w', World.run_of_moves hw, hs, fun hgoverned => ?_⟩
  have hkept := hgoverned.final before hbefore (by rw [hstatus]; decide)
  rw [hafter] at hkept
  rw [Option.some_injective _ hkept, hstatus] at hstatus'
  exact absurd hstatus' (by decide)

end Ai00.Base
