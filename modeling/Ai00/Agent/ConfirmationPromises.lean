import Ai00.Agent.ConfirmationRuns

/-! # Single use of confirmation tokens

In a run of lawful calls both stores follow the book, so that single use is a matter of what a
call leaves of its token there: a grant leaves it in flight until it is finished, an accepted one
leaves nothing (`Tracks.next`, `tokens_used_once`). A table whose collation takes two users for
one grants the token of the one to the other (`granted_to_another_user`).
-/

namespace Ai00.Agent

open Successive

variable {H J : Type} [DecidableEq H] (payloadHash : J → Str) (columns : Columns J)

/-! ## Runs -/

/-- What the two stores promise of a call after the calls of `past`. -/
structure Promised (past : List (TokenEntry H J)) (e : TokenEntry H J) : Prop where
  alike : e.inMemory = e.sql
  answered : ∃ grant, e.inMemory = .ok grant
  once : ∀ k, e.Grants k → ¬ Held past k
  final : ∀ k, e.Grants k → ∀ d ∈ past, ¬ d.Finishes k true
  bound : ∀ k, e.Grants k → ∃ expected record, e.call.request = .begin k expected
    ∧ (∃ d ∈ past, d.call.request = .save k record) ∧ InMemory.Matches expected record
    ∧ e.call.now < record.expiresAt ∧ e.inMemory = .ok (some (record.withState .inflight))

def bookAfter (history : List (TokenEntry H J)) : Book H J :=
  history.foldl (fun book e => (book.next payloadHash e.call).2) fun _ => none

def clockAfter (history : List (TokenEntry H J)) : Nat :=
  (history.getLast?.map fun e => e.call.now).getD 0

/-- Where a run of lawful calls is. -/
structure Tracks (s : TokenStores H J) : Prop where
  inMemory : InMemory.Holds (clockAfter s.history) (bookAfter payloadHash s.history) s.records
  sql : Sql.Holds (clockAfter s.history) (bookAfter payloadHash s.history) s.rows
  unseen : ∀ row ∈ s.rows, ∃ e ∈ s.history, e.call.tokenHash = row.tokenHash
  origin : ∀ k record, bookAfter payloadHash s.history k = some record →
    ∃ e ∈ s.history, ∃ saved state, e.call.request = .save k saved
      ∧ WellFormed payloadHash columns saved ∧ record = saved.withState state
  held : ∀ k, Held s.history k →
    ∃ record, bookAfter payloadHash s.history k = some record ∧ record.state = some .inflight
  done : ∀ k, ∀ e ∈ s.history, e.Finishes k true → bookAfter payloadHash s.history k = none
  promised : ∀ past e later, s.history = past ++ e :: later → Promised past e

theorem bookAfter_concat (history : List (TokenEntry H J)) (e : TokenEntry H J) :
    bookAfter payloadHash (history ++ [e])
      = ((bookAfter payloadHash history).next payloadHash e.call).2 := List.foldl_concat ..

omit [DecidableEq H] in
theorem clockAfter_concat (history : List (TokenEntry H J)) (e : TokenEntry H J) :
    clockAfter (history ++ [e]) = e.call.now := by simp [clockAfter]

omit [DecidableEq H] in
theorem TokenStores.Allows.clockAfter_le {s : TokenStores H J} {c : TokenCall H J}
    (h : s.Allows c) : clockAfter s.history ≤ c.purged := by
  unfold clockAfter
  cases hlast : s.history.getLast? with
  | none => exact Nat.zero_le _
  | some e => exact h.clock e (List.mem_of_getLast? hlast)

theorem split_concat {α : Type} {history past later : List α} {x e : α}
    (h : history ++ [x] = past ++ e :: later) :
    (later = [] ∧ past = history ∧ e = x) ∨ ∃ rest, later = rest ++ [x] ∧ history = past ++ e :: rest := by
  rcases List.eq_nil_or_concat later with rfl | ⟨rest, y, rfl⟩
  · obtain ⟨hpast, hlast⟩ := List.append_inj' h rfl
    exact Or.inl ⟨rfl, hpast.symm, (List.cons.inj hlast).1.symm⟩
  · rw [List.concat_eq_append, ← List.cons_append, ← List.append_assoc] at h
    obtain ⟨hpast, hlast⟩ := List.append_inj' h rfl
    obtain rfl := (List.cons.inj hlast).1
    exact Or.inr ⟨rest, List.concat_eq_append .., hpast⟩

variable {k : H}

omit [DecidableEq H] in
theorem Held.concat {history : List (TokenEntry H J)} {x : TokenEntry H J}
    (h : Held (history ++ [x]) k) :
    x.Grants k ∨ (Held history k ∧ ∀ accepted, ¬ x.Finishes k accepted) := by
  obtain ⟨past, e, later, hsplit, hgrants, hopen⟩ := h
  rcases split_concat hsplit with ⟨-, -, rfl⟩ | ⟨rest, rfl, hbefore⟩
  · exact Or.inl hgrants
  · exact Or.inr ⟨⟨past, e, rest, hbefore, hgrants, fun d hd => hopen d (List.mem_append_left _ hd)⟩,
      hopen x (by simp)⟩

omit [DecidableEq H] in
theorem Held.seen {history : List (TokenEntry H J)} (h : Held history k) :
    ∃ e ∈ history, e.call.tokenHash = k := by
  obtain ⟨past, e, later, rfl, hgrants, -⟩ := h
  exact ⟨e, by simp, hgrants.1⟩

theorem granted_eq_some {now : Nat} {expected : Expected} {entry : Option (ConfirmationRecord J)}
    {grant : ConfirmationRecord J} (h : granted payloadHash now expected entry = some grant) :
    ∃ record, entry = some record ∧ Grantable payloadHash now expected record
      ∧ grant = record.withState .inflight := by
  obtain ⟨record, hrecord, rfl⟩ := Option.map_eq_some_iff.mp h
  obtain ⟨hentry, hgrantable⟩ := Option.filter_eq_some_iff.mp hrecord
  exact ⟨record, hentry, of_decide_eq_true hgrantable, rfl⟩

theorem Book.next_of_ne {book : Book H J} {c : TokenCall H J} (h : c.tokenHash ≠ k) :
    (book.next payloadHash c).2 k = book k := by
  unfold TokenCall.tokenHash TokenRequest.tokenHash at h
  unfold Book.next
  cases hrequest : c.request with
  | save tokenHash record =>
    rw [hrequest] at h
    exact Function.update_of_ne (Ne.symm h) ..
  | begin tokenHash expected =>
    rw [hrequest] at h
    exact Function.update_of_ne (Ne.symm h) ..
  | finish tokenHash accepted =>
    rw [hrequest] at h
    exact Function.update_of_ne (Ne.symm h) ..

section

variable {s : TokenStores H J} {c : TokenCall H J} {payloadHash columns}

theorem Tracks.answers (h : Tracks payloadHash columns s) (hallows : s.Allows c)
    (hlawful : s.Lawful payloadHash columns c) :
    ((InMemory.call payloadHash c s.records).1 = .ok ((bookAfter payloadHash s.history).next payloadHash c).1
      ∧ InMemory.Holds c.now ((bookAfter payloadHash s.history).next payloadHash c).2
          (InMemory.call payloadHash c s.records).2)
    ∧ (Sql.call columns c s.rows).1 = .ok ((bookAfter payloadHash s.history).next payloadHash c).1
      ∧ Sql.Holds c.now ((bookAfter payloadHash s.history).next payloadHash c).2
          (Sql.call columns c s.rows).2 := by
  have hclock := hallows.clockAfter_le
  refine ⟨(h.inMemory.mono hclock).call payloadHash hallows.ordered,
    (h.sql.mono hclock).call payloadHash columns hallows.ordered hallows.purges ?_ ?_⟩
  · intro k record hrequest
    unfold TokenStores.Lawful at hlawful
    rw [hrequest] at hlawful
    refine ⟨hlawful, KeyedRows.lookup_eq_none_iff.mpr fun row hrow hkey => ?_⟩
    obtain ⟨e, he, hseen⟩ := h.unseen row hrow
    exact hallows.fresh k record hrequest e he (hseen.trans hkey)
  · intro k expected hrequest record hbook
    unfold TokenStores.Lawful at hlawful
    rw [hrequest] at hlawful
    obtain ⟨e, he, saved, state, hsave, hformed, rfl⟩ := h.origin k record hbook
    have htold := hlawful e he saved hsave
    exact ⟨hformed.payloadHash, htold.toolName, htold.sessionGid, htold.userGid,
      htold.catalogRelease, htold.capabilityId⟩

theorem Tracks.grants (h : Tracks payloadHash columns s) (hallows : s.Allows c)
    (hlawful : s.Lawful payloadHash columns c)
    (hgrants : TokenEntry.Grants ⟨c, (InMemory.call payloadHash c s.records).1,
      (Sql.call columns c s.rows).1⟩ k) :
    ∃ expected record, c.request = .begin k expected ∧ bookAfter payloadHash s.history k = some record
      ∧ Grantable payloadHash c.now expected record
      ∧ ((bookAfter payloadHash s.history).next payloadHash c).1 = some (record.withState .inflight) := by
  obtain ⟨⟨hmemory, -⟩, hsql, -⟩ := h.answers hallows hlawful
  obtain ⟨hkey, grant, hanswer⟩ := hgrants
  have hbook : ((bookAfter payloadHash s.history).next payloadHash c).1 = some grant := by
    rcases hanswer with hanswer | hanswer
    · exact Except.ok.inj (hmemory.symm.trans hanswer)
    · exact Except.ok.inj (hsql.symm.trans hanswer)
  have hkey : c.request.tokenHash = k := hkey
  rw [hbook]
  unfold Book.next at hbook
  cases hrequest : c.request with
  | save tokenHash record =>
    rw [hrequest] at hbook
    cases hbook
  | begin tokenHash expected =>
    rw [hrequest] at hbook hkey
    obtain rfl : tokenHash = k := hkey
    obtain ⟨record, hentry, hgrantable, rfl⟩ := granted_eq_some payloadHash hbook
    exact ⟨expected, record, rfl, hentry, hgrantable, rfl⟩
  | finish tokenHash accepted =>
    rw [hrequest] at hbook
    cases hbook

theorem Tracks.promise (h : Tracks payloadHash columns s) (hallows : s.Allows c)
    (hlawful : s.Lawful payloadHash columns c) :
    Promised s.history ⟨c, (InMemory.call payloadHash c s.records).1,
      (Sql.call columns c s.rows).1⟩ := by
  obtain ⟨⟨hmemory, -⟩, hsql, -⟩ := h.answers hallows hlawful
  refine ⟨hmemory.trans hsql.symm, ⟨_, hmemory⟩, fun k hgrants hheld => ?_,
    fun k hgrants d hd hfinish => ?_, fun k hgrants => ?_⟩
  · obtain ⟨expected, record, -, hbook, hgrantable, -⟩ := h.grants hallows hlawful hgrants
    obtain ⟨record', hbook', hinflight⟩ := h.held k hheld
    cases hbook.symm.trans hbook'
    cases hgrantable.1.symm.trans hinflight
  · obtain ⟨expected, record, -, hbook, -⟩ := h.grants hallows hlawful hgrants
    cases hbook.symm.trans (h.done k d hd hfinish)
  · obtain ⟨expected, record, hrequest, hbook, hgrantable, hanswer⟩ := h.grants hallows hlawful hgrants
    obtain ⟨e, he, saved, state, hsave, -, rfl⟩ := h.origin k record hbook
    exact ⟨expected, saved, hrequest, ⟨e, he, hsave⟩, hgrantable.2.2.1, hgrantable.2.1,
      hmemory.trans (congrArg Except.ok hanswer)⟩

theorem Tracks.unseen_next (h : Tracks payloadHash columns s)
    (hlawful : s.Lawful payloadHash columns c) : ∀ row ∈ (Sql.call columns c s.rows).2,
      row.tokenHash = c.tokenHash ∨ ∃ e ∈ s.history, e.call.tokenHash = row.tokenHash := by
  have hupdate : ∀ (p : ConfirmationRow H J → Bool) state (rows : Sql.Rows H J),
      (∀ row ∈ rows, row ∈ s.rows) → ∀ row ∈ Rows.update p (·.withState state) rows,
        ∃ e ∈ s.history, e.call.tokenHash = row.tokenHash := by
    intro p state rows hsub row hrow
    obtain ⟨old, hold, rfl⟩ := List.mem_map.mp hrow
    obtain ⟨e, he, hkey⟩ := h.unseen old (hsub old hold)
    refine ⟨e, he, hkey.trans ?_⟩
    split_ifs <;> rfl
  have hpurge : ∀ gone, ∀ row ∈ Sql.purge gone s.rows, row ∈ s.rows :=
    fun gone row hrow => List.mem_of_mem_filter hrow
  intro row hrow
  unfold TokenStores.Lawful at hlawful
  unfold Sql.call at hrow
  cases hrequest : c.request with
  | save tokenHash record =>
    rw [hrequest] at hlawful hrow
    obtain ⟨new, hnew, hkey, -⟩ := Sql.row_of_wellFormed payloadHash columns hlawful tokenHash
    cases hsave : Sql.save columns c.gone tokenHash record s.rows with
    | error e =>
      simp only [hsave] at hrow
      exact Or.inr (h.unseen row hrow)
    | ok rows =>
      simp only [hsave] at hrow
      rw [Sql.save_eq_ok columns hnew hsave] at hrow
      rcases List.mem_append.mp hrow with hrow | hrow
      · exact Or.inr (h.unseen row (hpurge _ row hrow))
      · left
        rw [List.mem_singleton.mp hrow, hkey, TokenCall.tokenHash, hrequest]
        rfl
  | begin tokenHash expected =>
    rw [hrequest] at hrow
    unfold Sql.begin at hrow
    dsimp only at hrow
    right
    split_ifs at hrow
    · exact h.unseen row (hpurge _ row hrow)
    · exact hupdate _ _ _ (hpurge _) row hrow
  | finish tokenHash accepted =>
    rw [hrequest] at hrow
    dsimp only at hrow
    unfold Sql.finish at hrow
    right
    split_ifs at hrow
    · exact h.unseen row (List.mem_of_mem_filter hrow)
    · exact hupdate _ _ _ (fun _ h => h) row hrow

/-- A token that is held is in flight after the call, too. -/
theorem Tracks.held_next (h : Tracks payloadHash columns s) (hallows : s.Allows c)
    (hlawful : s.Lawful payloadHash columns c)
    (hheld : Held (s.next payloadHash columns c).history k) :
    ∃ record, ((bookAfter payloadHash s.history).next payloadHash c).2 k = some record
      ∧ record.state = some .inflight := by
  rcases hheld.concat with hgrants | ⟨hbefore, hopen⟩
  · obtain ⟨expected, record, hrequest, hbook, hgrantable, hanswer⟩ := h.grants hallows hlawful hgrants
    refine ⟨record.withState .inflight, ?_, rfl⟩
    unfold Book.next at hanswer ⊢
    rw [hrequest] at hanswer ⊢
    dsimp only at hanswer ⊢
    rw [Function.update_self, hanswer]
    rfl
  · obtain ⟨record, hbook, hinflight⟩ := h.held k hbefore
    refine ⟨record, ?_, hinflight⟩
    by_cases hkey : c.tokenHash = k
    · unfold Book.next
      unfold TokenCall.tokenHash at hkey
      cases hrequest : c.request with
      | save tokenHash new =>
        obtain ⟨e, he, hseen⟩ := hbefore.seen
        rw [hrequest] at hkey
        exact absurd (hseen.trans hkey.symm) (hallows.fresh tokenHash new hrequest e he)
      | begin tokenHash expected =>
        rw [hrequest] at hkey
        obtain rfl : tokenHash = k := hkey
        have hnone : granted payloadHash c.now expected (some record) = none := by
          simp [granted, Option.filter, Grantable, hinflight]
        dsimp only
        rw [Function.update_self, hbook, hnone]
        rfl
      | finish tokenHash accepted =>
        rw [hrequest] at hkey
        obtain rfl : tokenHash = k := hkey
        exact absurd hrequest (hopen accepted)
    · rw [Book.next_of_ne payloadHash hkey, hbook]

theorem Tracks.done_next (h : Tracks payloadHash columns s) (hallows : s.Allows c)
    (hlawful : s.Lawful payloadHash columns c) {e : TokenEntry H J}
    (he : e ∈ (s.next payloadHash columns c).history) (hfinish : e.Finishes k true) :
    ((bookAfter payloadHash s.history).next payloadHash c).2 k = none := by
  rcases List.mem_append.mp he with he | he
  · have hnone := h.done k e he hfinish
    by_cases hkey : c.tokenHash = k
    · have hseen : e.call.tokenHash = k := by
        unfold TokenCall.tokenHash
        rw [hfinish]
        rfl
      unfold Book.next
      unfold TokenCall.tokenHash at hkey
      cases hrequest : c.request with
      | save tokenHash new =>
        rw [hrequest] at hkey
        exact absurd (hseen.trans hkey.symm) (hallows.fresh tokenHash new hrequest e he)
      | begin tokenHash expected =>
        rw [hrequest] at hkey
        obtain rfl : tokenHash = k := hkey
        dsimp only
        rw [Function.update_self, hnone]
        rfl
      | finish tokenHash accepted =>
        rw [hrequest] at hkey
        obtain rfl : tokenHash = k := hkey
        dsimp only
        rw [Function.update_self, hnone]
        rfl
    · rw [Book.next_of_ne payloadHash hkey, hnone]
  · obtain rfl := List.mem_singleton.mp he
    have hrequest : c.request = .finish k true := hfinish
    unfold TokenStores.Lawful at hlawful
    rw [hrequest] at hlawful
    obtain ⟨record, hbook, hinflight⟩ := h.held k (hlawful rfl)
    unfold Book.next
    rw [hrequest]
    dsimp only
    rw [Function.update_self, hbook, settled, Option.bind_some, if_neg (not_not.mpr hinflight)]
    rfl

theorem Tracks.origin_next (h : Tracks payloadHash columns s)
    (hlawful : s.Lawful payloadHash columns c) {record : ConfirmationRecord J}
    (hbook : ((bookAfter payloadHash s.history).next payloadHash c).2 k = some record) :
    ∃ e ∈ (s.next payloadHash columns c).history, ∃ saved state, e.call.request = .save k saved
      ∧ WellFormed payloadHash columns saved ∧ record = saved.withState state := by
  -- an entry whose state is all that changed
  have hold : ∀ old state, bookAfter payloadHash s.history k = some old →
      (record = old ∨ record = old.withState state) →
      ∃ e ∈ (s.next payloadHash columns c).history, ∃ saved state, e.call.request = .save k saved
        ∧ WellFormed payloadHash columns saved ∧ record = saved.withState state := by
    intro old state hentry hrecord
    obtain ⟨e, he, saved, before, hsave, hformed, rfl⟩ := h.origin k old hentry
    refine ⟨e, List.mem_append_left _ he, saved, ?_⟩
    rcases hrecord with rfl | rfl
    · exact ⟨before, hsave, hformed, rfl⟩
    · exact ⟨state, hsave, hformed, rfl⟩
  by_cases hkey : c.tokenHash = k
  · unfold Book.next at hbook
    unfold TokenStores.Lawful at hlawful
    unfold TokenCall.tokenHash at hkey
    cases hrequest : c.request with
    | save tokenHash new =>
      rw [hrequest] at hbook hlawful hkey
      obtain rfl : tokenHash = k := hkey
      dsimp only at hbook hlawful
      rw [Function.update_self] at hbook
      obtain rfl := Option.some.inj hbook
      refine ⟨_, List.mem_append_right _ (List.mem_singleton_self _), new, .pending, hrequest, hlawful, ?_⟩
      rw [ConfirmationRecord.withState, ← hlawful.state]
    | begin tokenHash expected =>
      rw [hrequest] at hbook hkey
      obtain rfl : tokenHash = k := hkey
      dsimp only at hbook
      rw [Function.update_self] at hbook
      cases hgrant : granted payloadHash c.now expected (bookAfter payloadHash s.history tokenHash) with
      | none =>
        rw [hgrant] at hbook
        exact hold record .pending hbook (Or.inl rfl)
      | some grant =>
        rw [hgrant] at hbook
        obtain ⟨old, hentry, -, rfl⟩ := granted_eq_some payloadHash hgrant
        exact hold old .inflight hentry (Or.inr (Option.some.inj hbook).symm)
    | finish tokenHash accepted =>
      rw [hrequest] at hbook hkey
      obtain rfl : tokenHash = k := hkey
      dsimp only at hbook
      rw [Function.update_self] at hbook
      obtain ⟨old, hentry, hsettled⟩ := Option.bind_eq_some_iff.mp hbook
      split_ifs at hsettled
      · exact hold old .pending hentry (Or.inl (Option.some.inj hsettled).symm)
      · exact hold old .pending hentry (Or.inr (Option.some.inj hsettled).symm)
  · rw [Book.next_of_ne payloadHash hkey] at hbook
    exact hold record .pending hbook (Or.inl rfl)

/-- **A lawful call leaves the run on its track.** -/
theorem Tracks.next (h : Tracks payloadHash columns s) (hallows : s.Allows c)
    (hlawful : s.Lawful payloadHash columns c) :
    Tracks payloadHash columns (s.next payloadHash columns c) := by
  obtain ⟨⟨-, hmemory⟩, -, hsql⟩ := h.answers hallows hlawful
  have hbook : bookAfter payloadHash (s.next payloadHash columns c).history
      = ((bookAfter payloadHash s.history).next payloadHash c).2 :=
    bookAfter_concat payloadHash s.history _
  have hclock : clockAfter (s.next payloadHash columns c).history = c.now :=
    clockAfter_concat s.history _
  refine ⟨?_, ?_, fun row hrow => ?_, fun k record hrecord => ?_, fun k hheld => ?_,
    fun k e he hfinish => ?_, fun past e later hsplit => ?_⟩
  · rw [hbook, hclock]
    exact hmemory
  · rw [hbook, hclock]
    exact hsql
  · rcases h.unseen_next hlawful row hrow with hnew | ⟨e, he, hkey⟩
    · exact ⟨_, List.mem_append_right _ (List.mem_singleton_self _), hnew.symm⟩
    · exact ⟨e, List.mem_append_left _ he, hkey⟩
  · rw [hbook] at hrecord
    exact h.origin_next hlawful hrecord
  · rw [hbook]
    exact h.held_next hallows hlawful hheld
  · rw [hbook]
    exact h.done_next hallows hlawful he hfinish
  · rcases split_concat hsplit with ⟨-, rfl, rfl⟩ | ⟨rest, -, hbefore⟩
    · exact h.promise hallows hlawful
    · exact h.promised past e rest hbefore

end

theorem tracks_empty : Tracks payloadHash columns (TokenStores.empty : TokenStores H J) := by
  refine ⟨⟨List.nodup_nil, fun h => rfl⟩, ⟨List.nodup_nil, fun h => rfl⟩, nofun, nofun, ?_, nofun, ?_⟩
  · rintro k ⟨past, e, later, hsplit, -⟩
    exact absurd hsplit (by simp [TokenStores.empty])
  · intro past e later hsplit
    exact absurd hsplit (by simp [TokenStores.empty])

/-- **Confirmation tokens are used once.** In every run of lawful calls both stores give the same
answer to every call; a token is not granted while it is held, nor after it was accepted, and only
for what it was saved for and before it expires. -/
theorem tokens_used_once (calls : List (TokenCall H J))
    (hrun : ∀ past c, past ++ [c] <+: calls →
      (after (TokenStores.next payloadHash columns) .empty past).Allows c
      ∧ (after (TokenStores.next payloadHash columns) .empty past).Lawful payloadHash columns c) :
    ∀ past e later, (after (TokenStores.next payloadHash columns) .empty calls).history
      = past ++ e :: later → Promised past e :=
  (after_invariant (tracks_empty payloadHash columns)
    (fun s c h (hcall : s.Allows c ∧ s.Lawful payloadHash columns c) => h.next hcall.1 hcall.2)
    hrun).promised

/-! ## A table that takes one user for another -/

/-- Texts compared without their case, payloads that hash to a fixed text. -/
def caseless : Columns Unit where
  collate := List.map Char.toLower
  json := id

def fixedHash (_ : Unit) : Str := "sha256:0".toList

def aliceRecord : ConfirmationRecord Unit where
  toolName := "cap__project__task__change__apply__v1".toList
  inputs := ()
  sessionGid := "session-1".toList
  userGid := "alice".toList
  catalogRelease := "rel-1".toList
  capabilityId := "project.task.change.apply".toList
  majorVersion := 1
  payloadHash := "sha256:0".toList
  idempotencyKey := "idem-1".toList
  agentIdentity := ()
  state := some .pending
  expiresAt := 300

def expectedFor (userGid : String) : Expected where
  toolName := "cap__project__task__change__apply__v1".toList
  sessionGid := "session-1".toList
  userGid := userGid.toList
  majorVersion := 1
  catalogRelease := some "rel-1".toList
  capabilityId := some "project.task.change.apply".toList

/-- A token saved for one user, and a `begin` for another. -/
def aliceThen (userGid : String) : List (TokenCall Nat Unit) :=
  [⟨.save 1 aliceRecord, 0, 0, []⟩, ⟨.begin 1 (expectedFor userGid), 10, 10, []⟩]

/-- The stores after the first calls of a run, and what they answer to the next. -/
abbrev aliceStores (calls : List (TokenCall Nat Unit)) : TokenStores Nat Unit :=
  after (TokenStores.next fixedHash caseless) .empty calls

theorem allows_save : (aliceStores []).Allows ⟨.save 1 aliceRecord, 0, 0, []⟩ :=
  ⟨Nat.le_refl _, nofun, fun _ _ _ => nofun, List.nodup_nil, nofun, rfl⟩

/-- The table grants the token of `alice` to `ALICE`, the dictionary does not. -/
theorem granted_to_another_user :
    (∀ past c, past ++ [c] <+: aliceThen "ALICE" → (aliceStores past).Allows c)
    ∧ ∃ past e, (aliceStores (aliceThen "ALICE")).history = past ++ [e]
        ∧ e.call.request = .begin 1 (expectedFor "ALICE")
        ∧ e.inMemory = .ok none ∧ e.sql = .ok (some (aliceRecord.withState .inflight))
        ∧ aliceRecord.userGid ≠ (expectedFor "ALICE").userGid ∧ ¬ Promised past e := by
  refine ⟨forall_prefix_iff.mpr fun i hi => ?_, _, _, rfl, rfl, by decide +kernel,
    by decide +kernel, by decide, fun h => ?_⟩
  · have hi : i < 2 := hi
    interval_cases i
    · exact allows_save
    · show (aliceStores [⟨.save 1 aliceRecord, 0, 0, []⟩]).Allows
        ⟨.begin 1 (expectedFor "ALICE"), 10, 10, []⟩
      exact ⟨by decide, by decide +kernel, nofun, by decide, by decide, by decide +kernel⟩
  · exact absurd h.alike (by decide +kernel)

/-- Alice begins and accepts, and begins again. -/
def aliceFinishes : List (TokenCall Nat Unit) :=
  aliceThen "alice" ++ [⟨.finish 1 true, 20, 20, []⟩, ⟨.begin 1 (expectedFor "alice"), 30, 30, []⟩]

theorem aliceRecord_wellFormed : WellFormed fixedHash caseless aliceRecord := by
  constructor <;> first | rfl | decide

theorem toldApart_alice : ToldApart caseless (expectedFor "alice") aliceRecord where
  toolName := fun _ => rfl
  sessionGid := fun _ => rfl
  userGid := fun _ => rfl
  catalogRelease := by
    rintro release ⟨⟩
    exact ⟨by decide, fun _ => rfl⟩
  capabilityId := by
    rintro capability ⟨⟩
    exact ⟨by decide, fun _ => rfl⟩

theorem lawful_begin_alice {calls : List (TokenCall Nat Unit)} {now : Nat}
    (h : ∀ e ∈ (aliceStores calls).history, e.call.request = .save 1 aliceRecord
      ∨ ∀ record, e.call.request ≠ .save 1 record) :
    (aliceStores calls).Lawful fixedHash caseless ⟨.begin 1 (expectedFor "alice"), now, now, []⟩ := by
  intro e he record hsave
  rcases h e he with hown | hother
  · obtain ⟨-, rfl⟩ := TokenRequest.save.inj (hown.symm.trans hsave)
    exact toldApart_alice
  · exact absurd hsave (hother record)

theorem tokens_used_once_alice :
    (aliceStores aliceFinishes).history.map (·.sql)
        = [.ok none, .ok (some (aliceRecord.withState .inflight)), .ok none, .ok none]
      ∧ ∀ past e later, (aliceStores aliceFinishes).history = past ++ e :: later →
        Promised past e := by
  refine ⟨by decide +kernel, tokens_used_once fixedHash caseless aliceFinishes
    (forall_prefix_iff.mpr fun i hi => ?_)⟩
  have hi : i < 4 := hi
  interval_cases i
  · exact ⟨allows_save, aliceRecord_wellFormed⟩
  · refine ⟨show (aliceStores (aliceFinishes.take 1)).Allows
      ⟨.begin 1 (expectedFor "alice"), 10, 10, []⟩ from ⟨by decide, by decide +kernel, nofun,
        by decide, by decide, by decide +kernel⟩, lawful_begin_alice ?_⟩
    rintro e (_ | ⟨_, ⟨⟩⟩)
    exact Or.inl rfl
  · refine ⟨show (aliceStores (aliceFinishes.take 2)).Allows ⟨.finish 1 true, 20, 20, []⟩ from
      ⟨by decide, by decide +kernel, nofun, by decide, by decide, by decide +kernel⟩, fun _ => ?_⟩
    exact ⟨_, _, [], rfl, ⟨rfl, aliceRecord.withState .inflight, Or.inl (by decide +kernel)⟩, nofun⟩
  · refine ⟨show (aliceStores (aliceFinishes.take 3)).Allows
      ⟨.begin 1 (expectedFor "alice"), 30, 30, []⟩ from ⟨by decide, by decide +kernel, nofun,
        by decide, by decide, by decide +kernel⟩, lawful_begin_alice ?_⟩
    rintro e (_ | ⟨_, (_ | ⟨_, (_ | ⟨_, ⟨⟩⟩)⟩)⟩)
    · exact Or.inl rfl
    · exact Or.inr nofun
    · exact Or.inr nofun

end Ai00.Agent
