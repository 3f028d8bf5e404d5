import Ai00.Agent.ConfirmationTokens
import Ai00.Basic.Successive

/-! # Confirmation tokens in two stores

Any number of workers call `save`, `begin` and `finish`, and both stores see every call. What the
stores are for is a book of tokens (`Book`) that forgets nothing: a token is pending, granted or
gone, and `begin` grants a pending one that has not expired. The dictionary answers as the book
(`InMemory.Holds.call`), and so does the table on well-formed records and texts that it tells
apart (`Sql.Holds.call`).
-/

namespace Ai00.Agent

variable {H J : Type} [DecidableEq H]

/-! ## Calls and runs -/

inductive TokenRequest (H J : Type) where
  | save (tokenHash : H) (record : ConfirmationRecord J)
  | begin (tokenHash : H) (expected : Expected)
  | finish (tokenHash : H) (accepted : Bool)

/-- A call, the clock at its two statements, and the expired rows that the table drops. -/
structure TokenCall (H J : Type) where
  request : TokenRequest H J
  purged : Nat
  now : Nat
  gone : List H

/-- What a call answers: a grant, if there is one, or the error of the database. -/
abbrev TokenAnswer (J : Type) := Except DatabaseError (Option (ConfirmationRecord J))

/-- A call that has been answered by both stores. -/
structure TokenEntry (H J : Type) where
  call : TokenCall H J
  inMemory : TokenAnswer J
  sql : TokenAnswer J

/-- The two stores and what has been called so far. -/
structure TokenStores (H J : Type) where
  records : InMemory.Records H J
  rows : Sql.Rows H J
  history : List (TokenEntry H J)

variable (payloadHash : J → Str) (columns : Columns J)

def InMemory.call (c : TokenCall H J) (records : InMemory.Records H J) :
    TokenAnswer J × InMemory.Records H J :=
  match c.request with
  | .save tokenHash record => (.ok none, InMemory.save c.purged tokenHash record records)
  | .begin tokenHash expected =>
    let (granted, records) := InMemory.begin payloadHash c.purged c.now tokenHash expected records
    (.ok granted, records)
  | .finish tokenHash accepted => (.ok none, InMemory.finish tokenHash accepted records)

def Sql.call (c : TokenCall H J) (rows : Sql.Rows H J) : TokenAnswer J × Sql.Rows H J :=
  match c.request with
  | .save tokenHash record =>
    match Sql.save columns c.gone tokenHash record rows with
    | .ok rows => (.ok none, rows)
    | .error e => (.error e, rows)
  | .begin tokenHash expected =>
    let (granted, rows) := Sql.begin columns c.gone c.now tokenHash expected rows
    (.ok granted, rows)
  | .finish tokenHash accepted => (.ok none, Sql.finish tokenHash accepted rows)

def TokenStores.next (s : TokenStores H J) (c : TokenCall H J) : TokenStores H J where
  records := (InMemory.call payloadHash c s.records).2
  rows := (Sql.call columns c s.rows).2
  history := s.history ++ [⟨c, (InMemory.call payloadHash c s.records).1, (Sql.call columns c s.rows).1⟩]

def TokenStores.empty : TokenStores H J := ⟨[], [], []⟩

def TokenRequest.tokenHash : TokenRequest H J → H
  | .save tokenHash _ => tokenHash
  | .begin tokenHash _ => tokenHash
  | .finish tokenHash _ => tokenHash

abbrev TokenCall.tokenHash (c : TokenCall H J) : H := c.request.tokenHash

def TokenEntry.Grants (e : TokenEntry H J) (tokenHash : H) : Prop :=
  e.call.tokenHash = tokenHash
    ∧ ∃ record, e.inMemory = .ok (some record) ∨ e.sql = .ok (some record)

def TokenEntry.Finishes (e : TokenEntry H J) (tokenHash : H) (accepted : Bool) : Prop :=
  e.call.request = .finish tokenHash accepted

/-- The clock does not go back, a token is saved under a new hash, and the table drops rows that
have expired. -/
structure TokenStores.Allows (s : TokenStores H J) (c : TokenCall H J) : Prop where
  ordered : c.purged ≤ c.now
  clock : ∀ e ∈ s.history, e.call.now ≤ c.purged
  fresh : ∀ tokenHash record, c.request = .save tokenHash record →
    ∀ e ∈ s.history, e.call.tokenHash ≠ tokenHash
  purges : Sql.Purges c.purged s.rows c.gone

/-! ## Where the stores keep their promises -/

/-- What `issue_confirm_token` makes, in a size that fits the columns. -/
structure WellFormed (record : ConfirmationRecord J) : Prop where
  state : record.state = some .pending
  payloadHash : record.payloadHash = payloadHash record.inputs
  toolName : record.toolName.length ≤ 128
  sessionGid : record.sessionGid.length ≤ 128
  userGid : record.userGid.length ≤ 191
  catalogRelease : record.catalogRelease.length ≤ 64
  capabilityId : record.capabilityId.length ≤ 255
  majorVersion : record.majorVersion < 2 ^ 32
  hashLength : record.payloadHash.length ≤ 71
  idempotencyKey : record.idempotencyKey.length ≤ 191
  inputs : columns.json record.inputs = record.inputs
  agentIdentity : columns.json record.agentIdentity = record.agentIdentity

/-- The collation tells the texts apart that are not the same, and no key is there but empty. -/
structure ToldApart (expected : Expected) (record : ConfirmationRecord J) : Prop where
  toolName : columns.collate record.toolName = columns.collate expected.toolName →
    record.toolName = expected.toolName
  sessionGid : columns.collate record.sessionGid = columns.collate expected.sessionGid →
    record.sessionGid = expected.sessionGid
  userGid : columns.collate record.userGid = columns.collate expected.userGid →
    record.userGid = expected.userGid
  catalogRelease : ∀ release ∈ expected.catalogRelease, release ≠ []
    ∧ (columns.collate record.catalogRelease = columns.collate release →
      record.catalogRelease = release)
  capabilityId : ∀ capability ∈ expected.capabilityId, capability ≠ []
    ∧ (columns.collate record.capabilityId = columns.collate capability →
      record.capabilityId = capability)

/-- A worker holds the token: it was granted and no call has finished it. -/
def Held (history : List (TokenEntry H J)) (tokenHash : H) : Prop :=
  ∃ past e later, history = past ++ e :: later ∧ e.Grants tokenHash
    ∧ ∀ d ∈ later, ∀ accepted, ¬ d.Finishes tokenHash accepted

/-- A call of a well-behaved worker on texts that the table tells apart. -/
def TokenStores.Lawful (s : TokenStores H J) (c : TokenCall H J) : Prop :=
  match c.request with
  | .save _ record => WellFormed payloadHash columns record
  | .begin tokenHash expected =>
    ∀ e ∈ s.history, ∀ record, e.call.request = .save tokenHash record →
      ToldApart columns expected record
  | .finish tokenHash accepted => accepted = true → Held s.history tokenHash

/-! ## The book of tokens -/

/-- What has become of each token. -/
abbrev Book (H J : Type) := H → Option (ConfirmationRecord J)

def Grantable (now : Nat) (expected : Expected) (record : ConfirmationRecord J) : Prop :=
  record.state = some .pending ∧ now < record.expiresAt ∧ InMemory.Matches expected record
    ∧ record.payloadHash = payloadHash record.inputs

instance (now : Nat) (expected : Expected) : DecidablePred (Grantable payloadHash now expected) :=
  fun _ => inferInstanceAs (Decidable (_ ∧ _ ∧ _ ∧ _))

def granted (now : Nat) (expected : Expected) (entry : Option (ConfirmationRecord J)) :
    Option (ConfirmationRecord J) :=
  (entry.filter fun record => Grantable payloadHash now expected record).map
    (·.withState .inflight)

/-- What `finish` leaves of a token. -/
def settled (accepted : Bool) (entry : Option (ConfirmationRecord J)) :
    Option (ConfirmationRecord J) :=
  entry.bind fun record =>
    if record.state ≠ some .inflight then some record
    else if accepted then none
    else some (record.withState .pending)

def Book.next (c : TokenCall H J) (book : Book H J) : Option (ConfirmationRecord J) × Book H J :=
  match c.request with
  | .save tokenHash record => (none, Function.update book tokenHash (some record))
  | .begin tokenHash expected =>
    let grant := granted payloadHash c.now expected (book tokenHash)
    (grant, Function.update book tokenHash (grant.or (book tokenHash)))
  | .finish tokenHash accepted =>
    (none, Function.update book tokenHash (settled accepted (book tokenHash)))

def live (now : Nat) (entry : Option (ConfirmationRecord J)) : Option (ConfirmationRecord J) :=
  entry.filter fun record => now < record.expiresAt

/-! ## The dictionary follows the book -/

/-- The dictionary holds what the book holds, as far as it has not expired. -/
structure InMemory.Holds (now : Nat) (book : Book H J) (records : InMemory.Records H J) : Prop where
  nodup : (records.map Prod.fst).Nodup
  live : ∀ h, live now (InMemory.get records h) = live now (book h)

variable {now : Nat} {record : ConfirmationRecord J}

theorem live_eq_some {entry : Option (ConfirmationRecord J)} :
    live now entry = some record ↔ entry = some record ∧ now < record.expiresAt := by
  simp [live, Option.filter_eq_some_iff]

theorem live_mono {now now' : Nat} (hle : now ≤ now') {a b : Option (ConfirmationRecord J)}
    (h : live now a = live now b) : live now' a = live now' b := by
  have hagain : ∀ c : Option (ConfirmationRecord J), live now' c = live now' (live now c) := by
    intro c
    cases c with
    | none => rfl
    | some record =>
      unfold live
      by_cases hlive : now < record.expiresAt
      · simp [Option.filter, hlive]
      · have hlater : ¬ now' < record.expiresAt := by omega
        simp [Option.filter, hlive, hlater]
  rw [hagain a, hagain b, h]

variable {records : InMemory.Records H J} {book : Book H J}

theorem InMemory.Holds.mono {now now' : Nat} (hle : now ≤ now')
    (h : InMemory.Holds now book records) :
    InMemory.Holds now' book records := ⟨h.nodup, fun k => live_mono hle (h.live k)⟩

theorem InMemory.get_purgeExpired (hnodup : (records.map Prod.fst).Nodup) (h : H) :
    live now (InMemory.get (InMemory.purgeExpired now records) h) = live now (InMemory.get records h) := by
  show live now ((KeyedRows.lookup Prod.fst h (records.filter _)).map Prod.snd)
    = live now ((KeyedRows.lookup Prod.fst h records).map Prod.snd)
  rw [KeyedRows.lookup_filter hnodup]
  cases hfound : KeyedRows.lookup Prod.fst h records with
  | none => rfl
  | some e =>
    have hkey : e.1 = h := KeyedRows.key_of_lookup hfound
    by_cases hgone : h ∈ ((records.filter fun e => e.2.expiresAt ≤ now).map Prod.fst).take 100
    · -- what is dropped has expired
      obtain ⟨d, hd, rfl⟩ := List.mem_map.mp (List.mem_of_mem_take hgone)
      obtain ⟨hmem, hexpired⟩ := List.mem_filter.mp hd
      obtain rfl := Option.some.inj (hfound.symm.trans (KeyedRows.lookup_of_mem hnodup hmem))
      have hdead : ¬ now < e.2.expiresAt := by simpa using hexpired
      simp [hgone, live, Option.filter, hdead]
    · simp [hkey, hgone, Option.filter]

theorem InMemory.nodup_purgeExpired (hnodup : (records.map Prod.fst).Nodup) :
    ((InMemory.purgeExpired now records).map Prod.fst).Nodup :=
  (List.filter_sublist.map _).nodup hnodup

theorem InMemory.Holds.purge (h : InMemory.Holds now book records) :
    InMemory.Holds now book (InMemory.purgeExpired now records) :=
  ⟨InMemory.nodup_purgeExpired h.nodup, fun k => (InMemory.get_purgeExpired h.nodup k).trans (h.live k)⟩

theorem InMemory.get_set (tokenHash h : H) (record : ConfirmationRecord J)
    (records : InMemory.Records H J) : InMemory.get (InMemory.set tokenHash record records) h
      = if tokenHash = h then some record else InMemory.get records h := by
  rw [InMemory.get, InMemory.set, KeyedRows.lookup_upsert]
  split_ifs <;> rfl

theorem InMemory.get_erase (hnodup : (records.map Prod.fst).Nodup)
    (tokenHash h : H) : InMemory.get (records.filter (·.1 ≠ tokenHash)) h
      = if tokenHash = h then none else InMemory.get records h := by
  rw [InMemory.get, KeyedRows.lookup_filter hnodup]
  cases hfound : KeyedRows.lookup Prod.fst h records with
  | none => simp [InMemory.get, hfound]
  | some e =>
    have hkey : e.1 = h := KeyedRows.key_of_lookup hfound
    by_cases hk : tokenHash = h
    · simp [hkey, hk, Option.filter]
    · simp [hkey, hk, Ne.symm hk, Option.filter, InMemory.get, hfound]

variable {tokenHash : H}

variable {entry' : Option (ConfirmationRecord J)}

theorem InMemory.Holds.change {records records' : InMemory.Records H J}
    (h : InMemory.Holds now book records) (entry : Option (ConfirmationRecord J))
    (hnodup : (records'.map Prod.fst).Nodup)
    (hget : ∀ k, InMemory.get records' k = if tokenHash = k then entry else InMemory.get records k)
    (hentry : Ai00.Agent.live now entry = Ai00.Agent.live now entry') :
    InMemory.Holds now (Function.update book tokenHash entry') records' := by
  refine ⟨hnodup, fun k => ?_⟩
  rw [hget]
  by_cases hk : tokenHash = k
  · subst hk
    rw [if_pos rfl, Function.update_self, hentry]
  · rw [if_neg hk, Function.update_of_ne (Ne.symm hk), h.live k]

/-! What a call does to a token does not depend on whether an expired one is still there. -/

theorem granted_live (now : Nat) (expected : Expected) (entry : Option (ConfirmationRecord J)) :
    granted payloadHash now expected (live now entry) = granted payloadHash now expected entry := by
  cases entry with
  | none => rfl
  | some record =>
    by_cases hlive : now < record.expiresAt
    · simp [live, Option.filter, hlive]
    · simp [live, granted, Option.filter, Grantable, hlive]

theorem live_settled (now : Nat) (accepted : Bool) (entry : Option (ConfirmationRecord J)) :
    live now (settled accepted entry) = settled accepted (live now entry) := by
  cases entry with
  | none => rfl
  | some record =>
    by_cases hlive : now < record.expiresAt <;> by_cases hstate : record.state = some .inflight <;> cases accepted
      <;> simp [live, settled, Option.filter, hlive, hstate, ConfirmationRecord.withState]

theorem live_or {grant entry entry' : Option (ConfirmationRecord J)}
    (h : live now entry = live now entry') :
    live now (grant.or entry) = live now (grant.or entry') := by
  cases grant with
  | none => simpa using h
  | some record => rfl

/-- `begin` of the dictionary, in terms of what it holds. -/
theorem InMemory.begin_eq (purged now : Nat) (tokenHash : H) (expected : Expected)
    (records : InMemory.Records H J) :
    InMemory.begin payloadHash purged now tokenHash expected records
      = let records := InMemory.purgeExpired purged records
        let grant := granted payloadHash now expected (InMemory.get records tokenHash)
        (grant, (grant.map fun record => InMemory.set tokenHash record records).getD records) := by
  unfold InMemory.begin
  dsimp only
  cases hget : InMemory.get (InMemory.purgeExpired purged records) tokenHash with
  | none => rfl
  | some record =>
    dsimp only
    by_cases hstate : record.state ≠ some .pending ∨ record.expiresAt ≤ now
    · have hnot : ¬ Grantable payloadHash now expected record := fun hg =>
        hstate.elim (fun h => h hg.1) fun h => absurd hg.2.1 (not_lt.mpr h)
      simp [hstate, granted, Option.filter, hnot]
    · have hpending := not_or.mp hstate
      rw [if_neg hstate]
      by_cases hmatch : InMemory.Matches expected record
      · rw [if_neg (not_not.mpr hmatch)]
        by_cases hhash : record.payloadHash = payloadHash record.inputs
        · have hgrant : Grantable payloadHash now expected record :=
            ⟨not_not.mp hpending.1, not_le.mp hpending.2, hmatch, hhash⟩
          rw [if_neg (not_not.mpr hhash)]
          simp [granted, Option.filter, hgrant]
        · have hnot : ¬ Grantable payloadHash now expected record := fun hg => hhash hg.2.2.2
          rw [if_pos hhash]
          simp [granted, Option.filter, hnot]
      · have hnot : ¬ Grantable payloadHash now expected record := fun hg => hmatch hg.2.2.1
        rw [if_pos hmatch]
        simp [granted, Option.filter, hnot]

theorem InMemory.nodup_finish {accepted : Bool}
    (h : (records.map Prod.fst).Nodup) :
    ((InMemory.finish tokenHash accepted records).map Prod.fst).Nodup := by
  unfold InMemory.finish
  split
  · exact h
  · split_ifs
    · exact h
    · exact (List.filter_sublist.map _).nodup h
    · exact KeyedRows.nodup_upsert h

theorem InMemory.get_finish (hnodup : (records.map Prod.fst).Nodup)
    (tokenHash k : H) (accepted : Bool) : InMemory.get (InMemory.finish tokenHash accepted records) k
      = if tokenHash = k then settled accepted (InMemory.get records tokenHash)
        else InMemory.get records k := by
  have hself : ∀ entry, InMemory.get records tokenHash = entry →
      InMemory.get records k = if tokenHash = k then entry else InMemory.get records k := by
    rintro entry rfl
    split_ifs with hk
    · rw [hk]
    · rfl
  unfold InMemory.finish
  cases hget : InMemory.get records tokenHash with
  | none => exact hself none hget
  | some record =>
    dsimp only
    by_cases hstate : record.state ≠ some .inflight
    · rw [if_pos hstate, settled, Option.bind_some, if_pos hstate]
      exact hself _ hget
    · rw [if_neg hstate, settled, Option.bind_some, if_neg hstate]
      cases accepted with
      | true => exact InMemory.get_erase hnodup tokenHash k
      | false => exact InMemory.get_set tokenHash k _ records

/-- **The dictionary answers as the book.** -/
theorem InMemory.Holds.call {c : TokenCall H J}
    (h : InMemory.Holds c.purged book records) (hle : c.purged ≤ c.now) :
    (InMemory.call payloadHash c records).1 = .ok (book.next payloadHash c).1
      ∧ InMemory.Holds c.now (book.next payloadHash c).2 (InMemory.call payloadHash c records).2 := by
  unfold InMemory.call Book.next
  cases c.request with
  | save tokenHash record =>
    refine ⟨rfl, (h.purge.change _ (KeyedRows.nodup_upsert h.purge.nodup) ?_ rfl).mono hle⟩
    exact fun k => InMemory.get_set tokenHash k record _
  | begin tokenHash expected =>
    have hpurged := h.purge.mono hle
    have hgrant : granted payloadHash c.now expected
          (InMemory.get (InMemory.purgeExpired c.purged records) tokenHash)
        = granted payloadHash c.now expected (book tokenHash) := by
      rw [← granted_live, hpurged.live, granted_live]
    dsimp only
    rw [InMemory.begin_eq]
    dsimp only
    rw [hgrant]
    refine ⟨rfl, ?_⟩
    refine hpurged.change ((granted payloadHash c.now expected (book tokenHash)).or
      (InMemory.get (InMemory.purgeExpired c.purged records) tokenHash)) ?_ ?_
      (live_or (hpurged.live tokenHash))
    · cases granted payloadHash c.now expected (book tokenHash) with
      | none => exact hpurged.nodup
      | some record => exact KeyedRows.nodup_upsert hpurged.nodup
    · intro k
      cases granted payloadHash c.now expected (book tokenHash) with
      | none =>
        by_cases hk : tokenHash = k
        · subst hk
          simp
        · simp [hk]
      | some record => exact InMemory.get_set tokenHash k record _
  | finish tokenHash accepted =>
    have hlater := h.mono hle
    refine ⟨rfl, hlater.change _ (InMemory.nodup_finish hlater.nodup)
      (fun k => InMemory.get_finish hlater.nodup tokenHash k accepted) ?_⟩
    rw [live_settled, live_settled, hlater.live]

/-! ## The table follows the book -/

/-- The table holds what the book holds, as far as it has not expired. -/
structure Sql.Holds (now : Nat) (book : Book H J) (rows : Sql.Rows H J) : Prop where
  nodup : (rows.map ConfirmationRow.tokenHash).Nodup
  live : ∀ h, Ai00.Agent.live now ((Sql.get rows h).map (·.record)) = Ai00.Agent.live now (book h)

variable {rows : Sql.Rows H J}

theorem Sql.Holds.mono {now now' : Nat} (hle : now ≤ now')
    (h : Sql.Holds now book rows) : Sql.Holds now' book rows :=
  ⟨h.nodup, fun k => live_mono hle (h.live k)⟩

theorem Sql.Holds.purge (h : Sql.Holds now book rows) {gone : List H} (hgone : Sql.Purges now rows gone) :
    Sql.Holds now book (Sql.purge gone rows) := by
  refine ⟨(List.filter_sublist.map _).nodup h.nodup, fun k => ?_⟩
  rw [← h.live k, Sql.purge, Sql.get, KeyedRows.lookup_filter h.nodup]
  cases hfound : KeyedRows.lookup ConfirmationRow.tokenHash k rows with
  | none => simp [Sql.get, hfound]
  | some row =>
    have hkey : row.tokenHash = k := KeyedRows.key_of_lookup hfound
    by_cases hin : k ∈ gone
    · -- what is dropped has expired
      obtain ⟨r, hr, hrkey, hexpired⟩ := hgone.2.1 k hin
      obtain rfl := Option.some.inj
        (hfound.symm.trans ((KeyedRows.lookup_iff_mem h.nodup).mpr ⟨hr, hrkey⟩))
      have hdead : ¬ now < row.record.expiresAt := not_lt.mpr hexpired
      simp [Sql.get, hfound, hkey, hin, Ai00.Agent.live, Option.filter, hdead]
    · simp [Sql.get, hfound, hkey, hin, Option.filter]

theorem Sql.Holds.change {rows rows' : Sql.Rows H J}
    (h : Sql.Holds now book rows) (entry : Option (ConfirmationRecord J))
    (hnodup : (rows'.map ConfirmationRow.tokenHash).Nodup)
    (hget : ∀ k, (Sql.get rows' k).map (·.record)
      = if tokenHash = k then entry else (Sql.get rows k).map (·.record))
    (hentry : Ai00.Agent.live now entry = Ai00.Agent.live now entry') :
    Sql.Holds now (Function.update book tokenHash entry') rows' := by
  refine ⟨hnodup, fun k => ?_⟩
  rw [hget]
  by_cases hk : tokenHash = k
  · subst hk
    rw [if_pos rfl, Function.update_self, hentry]
  · rw [if_neg hk, Function.update_of_ne (Ne.symm hk), h.live k]

theorem textColumn_of_le {width : Nat} {value : Str} (h : value.length ≤ width) :
    textColumn width value = .ok value := if_pos h

omit [DecidableEq H] in
theorem Sql.row_of_wellFormed (h : WellFormed payloadHash columns record) (tokenHash : H) :
    ∃ row, Sql.row columns tokenHash record = .ok row ∧ row.tokenHash = tokenHash
      ∧ row.record = record := by
  have hunsigned : unsignedColumn record.majorVersion = .ok record.majorVersion :=
    if_pos h.majorVersion
  refine ⟨{
    tokenHash
    toolName := record.toolName
    inputsJson := columns.json record.inputs
    sessionGid := record.sessionGid
    userGid := record.userGid
    catalogRelease := record.catalogRelease
    capabilityId := record.capabilityId
    majorVersion := record.majorVersion
    payloadHash := record.payloadHash
    idempotencyKey := record.idempotencyKey
    agentIdentityJson := columns.json record.agentIdentity
    state := .pending
    expiresAt := record.expiresAt }, ?_, rfl, ?_⟩
  · rw [Sql.row, textColumn_of_le h.toolName, textColumn_of_le h.sessionGid,
      textColumn_of_le h.userGid, textColumn_of_le h.catalogRelease, textColumn_of_le h.capabilityId,
      hunsigned, textColumn_of_le h.hashLength, textColumn_of_le h.idempotencyKey]
    rfl
  · have hstate : some TokenState.pending = record.state := h.state.symm
    rw [ConfirmationRow.record]
    simp only [h.inputs, h.agentIdentity, hstate]

/-- `save` adds the row of the record. -/
theorem Sql.save_eq_ok {row : ConfirmationRow H J}
    {gone : List H} {rows rows' : Sql.Rows H J} (hrow : Sql.row columns tokenHash record = .ok row)
    (h : Sql.save columns gone tokenHash record rows = .ok rows') :
    rows' = Sql.purge gone rows ++ [row] := by
  unfold Sql.save at h
  rw [hrow] at h
  cases hinsert : Rows.insert (fun r s => r.tokenHash = s.tokenHash) row (Sql.purge gone rows) with
  | none =>
    simp only [bind, Except.bind, hinsert] at h
    cases h
  | some rows =>
    simp only [bind, Except.bind, hinsert] at h
    cases h
    exact (Rows.insert_eq_some.mp hinsert).2

omit [DecidableEq H] in
theorem ToldApart.matches_iff {expected : Expected} {row : ConfirmationRow H J}
    (hkey : row.tokenHash = tokenHash)
    (hhash : row.record.payloadHash = payloadHash row.record.inputs)
    (h : ToldApart columns expected row.record) :
    Sql.Selects columns now tokenHash expected row
      ↔ Grantable payloadHash now expected row.record := by
  constructor
  · rintro ⟨-, hstate, hlive, htool, hsession, huser, hversion, hrelease, hcapability⟩
    refine ⟨congrArg some hstate, hlive, ⟨h.toolName htool, h.sessionGid hsession,
      h.userGid huser, hversion, fun release hr => ?_, fun capability hc => ?_⟩, hhash⟩
    · obtain ⟨hne, htold⟩ := h.catalogRelease release hr
      exact htold (hrelease release hr hne)
    · obtain ⟨hne, htold⟩ := h.capabilityId capability hc
      exact htold (hcapability capability hc hne)
  · rintro ⟨hstate, hlive, ⟨htool, hsession, huser, hversion, hrelease, hcapability⟩, -⟩
    exact ⟨hkey, Option.some.inj hstate, hlive, congrArg _ htool, congrArg _ hsession,
      congrArg _ huser, hversion, fun release hr _ => congrArg _ (hrelease release hr),
      fun capability hc _ => congrArg _ (hcapability capability hc)⟩

theorem Sql.get_update (p : ConfirmationRow H J → Bool) (state : TokenState)
    (rows : Sql.Rows H J) (k : H) : Sql.get (Rows.update p (·.withState state) rows) k
      = (Sql.get rows k).map fun row => if p row then row.withState state else row :=
  Rows.find?_update fun _ _ => rfl

omit [DecidableEq H] in
theorem Sql.nodup_update {p : ConfirmationRow H J → Bool} {state : TokenState}
    (h : (rows.map ConfirmationRow.tokenHash).Nodup) :
    ((Rows.update p (·.withState state) rows).map ConfirmationRow.tokenHash).Nodup := by
  have hsame : (Rows.update p (·.withState state) rows).map ConfirmationRow.tokenHash
      = rows.map ConfirmationRow.tokenHash := by
    rw [Rows.update, List.map_map]
    refine List.map_congr_left fun row _ => ?_
    rw [Function.comp_apply]
    split_ifs <;> rfl
  rw [hsame]
  exact h

/-- `begin` of the table, in terms of what it holds. -/
theorem Sql.begin_eq {gone : List H}
    {expected : Expected} (hnodup : ((Sql.purge gone rows).map ConfirmationRow.tokenHash).Nodup)
    (hselects : ∀ row, Sql.get (Sql.purge gone rows) tokenHash = some row →
      (Sql.Selects columns now tokenHash expected row ↔ Grantable payloadHash now expected row.record)) :
    (Sql.begin columns gone now tokenHash expected rows).1 = granted payloadHash now expected
          ((Sql.get (Sql.purge gone rows) tokenHash).map (·.record))
      ∧ ((Sql.begin columns gone now tokenHash expected rows).2.map ConfirmationRow.tokenHash).Nodup
      ∧ ∀ k, (Sql.get (Sql.begin columns gone now tokenHash expected rows).2 k).map (·.record)
        = if tokenHash = k then (granted payloadHash now expected
            ((Sql.get (Sql.purge gone rows) tokenHash).map (·.record))).or
              ((Sql.get (Sql.purge gone rows) tokenHash).map (·.record))
          else (Sql.get (Sql.purge gone rows) k).map (·.record) := by
  have hcount := KeyedRows.countP_eq_one_iff (k := tokenHash)
    (p := fun row => Sql.Selects columns now tokenHash expected row) hnodup
    fun row _ hrow => (of_decide_eq_true hrow).1
  unfold Sql.begin
  dsimp only
  generalize Sql.purge gone rows = kept at hnodup hselects hcount ⊢
  by_cases hone : kept.countP (fun row => Sql.Selects columns now tokenHash expected row) = 1
  · obtain ⟨row, hrow, hsel⟩ := hcount.mp hone
    have hrow : Sql.get kept tokenHash = some row := hrow
    have hgrant := (hselects row hrow).mp (of_decide_eq_true hsel)
    rw [if_neg (not_not.mpr hone), hrow]
    dsimp only
    refine ⟨?_, Sql.nodup_update hnodup, fun k => ?_⟩
    · rw [Sql.get_update, hrow, Option.map_some, if_pos hsel]
      simp [granted, Option.filter, hgrant]
      rfl
    · rw [Sql.get_update]
      by_cases hk : tokenHash = k
      · subst hk
        rw [if_pos rfl, hrow, Option.map_some, Option.map_some, if_pos hsel]
        simp [granted, Option.filter, hgrant]
        rfl
      · rw [if_neg hk]
        cases hother : Sql.get kept k with
        | none => rfl
        | some other =>
          have hkey : other.tokenHash = k := KeyedRows.key_of_lookup hother
          have hnot : ¬ Sql.Selects columns now tokenHash expected other := fun h =>
            hk (h.1.symm.trans hkey)
          rw [Option.map_some, Option.map_some, if_neg (by simpa using hnot)]
          rfl
  · have hnone : granted payloadHash now expected ((Sql.get kept tokenHash).map (·.record)) = none := by
      cases hrow : Sql.get kept tokenHash with
      | none => rfl
      | some row =>
        have hnot : ¬ Grantable payloadHash now expected row.record := fun hg =>
          hone (hcount.mpr ⟨row, hrow, decide_eq_true ((hselects row hrow).mpr hg)⟩)
        simp [granted, Option.filter, hnot]
    rw [if_pos hone, hnone]
    refine ⟨rfl, hnodup, fun k => ?_⟩
    split_ifs with hk
    · rw [hk]
      rfl
    · rfl

theorem Sql.get_finish (hnodup : (rows.map ConfirmationRow.tokenHash).Nodup)
    (tokenHash k : H) (accepted : Bool) :
    (Sql.get (Sql.finish tokenHash accepted rows) k).map (·.record)
      = if tokenHash = k then settled accepted ((Sql.get rows tokenHash).map (·.record))
        else (Sql.get rows k).map (·.record) := by
  have hstate : ∀ row : ConfirmationRow H J, row.record.state = some row.state := fun _ => rfl
  unfold Sql.finish
  cases accepted with
  | true =>
    rw [if_pos rfl, Sql.get, KeyedRows.lookup_filter hnodup]
    by_cases hk : tokenHash = k
    · subst hk
      cases hrow : Sql.get rows tokenHash with
      | none => simp [Sql.get] at hrow; simp [hrow, settled]
      | some row =>
        have hkey : row.tokenHash = tokenHash := KeyedRows.key_of_lookup hrow
        by_cases hin : row.state = .inflight
        · simp [Sql.get] at hrow
          simp [hrow, hkey, hin, settled, hstate, Option.filter]
        · simp [Sql.get] at hrow
          simp [hrow, hkey, hin, settled, hstate, Option.filter]
    · cases hrow : Sql.get rows k with
      | none => simp [Sql.get] at hrow; simp [hrow, hk]
      | some row =>
        have hkey : row.tokenHash = k := KeyedRows.key_of_lookup hrow
        simp [Sql.get] at hrow
        simp [hrow, hkey, hk, Ne.symm hk, Option.filter]
  | false =>
    rw [if_neg Bool.false_ne_true, Sql.get_update]
    by_cases hk : tokenHash = k
    · subst hk
      cases hrow : Sql.get rows tokenHash with
      | none => simp [settled]
      | some row =>
        have hkey : row.tokenHash = tokenHash := KeyedRows.key_of_lookup hrow
        by_cases hin : row.state = .inflight
        · simp [hkey, hin, settled, hstate]
          rfl
        · simp [hkey, hin, settled, hstate]
    · cases hrow : Sql.get rows k with
      | none => simp [hk]
      | some row =>
        have hkey : row.tokenHash = k := KeyedRows.key_of_lookup hrow
        simp [hkey, hk, Ne.symm hk]

theorem Sql.nodup_finish (h : (rows.map ConfirmationRow.tokenHash).Nodup)
    (tokenHash : H) (accepted : Bool) :
    ((Sql.finish tokenHash accepted rows).map ConfirmationRow.tokenHash).Nodup := by
  unfold Sql.finish
  cases accepted with
  | true => exact (List.filter_sublist.map _).nodup h
  | false => exact Sql.nodup_update h

/-- **The table answers as the book**, on well-formed records and texts it tells apart. -/
theorem Sql.Holds.call {c : TokenCall H J}
    (h : Sql.Holds c.purged book rows) (hle : c.purged ≤ c.now)
    (hpurges : Sql.Purges c.purged rows c.gone)
    (hsave : ∀ k record, c.request = .save k record →
      WellFormed payloadHash columns record ∧ Sql.get rows k = none)
    (hbegin : ∀ k expected, c.request = .begin k expected → ∀ record, book k = some record →
      record.payloadHash = payloadHash record.inputs ∧ ToldApart columns expected record) :
    (Sql.call columns c rows).1 = .ok (book.next payloadHash c).1
      ∧ Sql.Holds c.now (book.next payloadHash c).2 (Sql.call columns c rows).2 := by
  have hpurged := h.purge hpurges
  unfold Sql.call Book.next
  cases hrequest : c.request with
  | save tokenHash record =>
    obtain ⟨hformed, hnew⟩ := hsave tokenHash record hrequest
    obtain ⟨row, hrow, hkey, hrecord⟩ := Sql.row_of_wellFormed payloadHash columns hformed tokenHash
    have hnone : ∀ r ∈ Sql.purge c.gone rows, r.tokenHash ≠ tokenHash := fun r hr =>
      KeyedRows.lookup_eq_none_iff.mp hnew r (List.mem_of_mem_filter hr)
    have hinsert : Rows.insert (fun r s => r.tokenHash = s.tokenHash) row (Sql.purge c.gone rows)
        = some (Sql.purge c.gone rows ++ [row]) := by
      refine Rows.insert_eq_some.mpr ⟨fun r hr => ?_, rfl⟩
      have hne := hnone r hr
      simpa [hkey] using Ne.symm hne
    have hsaved : Sql.save columns c.gone tokenHash record rows = .ok (Sql.purge c.gone rows ++ [row]) := by
      rw [Sql.save, hrow]
      dsimp only [Bind.bind, Except.bind]
      rw [hinsert]
    dsimp only
    rw [hsaved]
    refine ⟨rfl, (hpurged.change (some record) ?_ ?_ rfl).mono hle⟩
    · refine Rows.nodup_map_concat hpurged.nodup fun hin => ?_
      obtain ⟨r, hr, hrkey⟩ := List.mem_map.mp hin
      exact hnone r hr (hrkey.trans hkey)
    · intro k
      rw [Sql.get, KeyedRows.lookup_append, KeyedRows.lookup_cons, KeyedRows.lookup_nil, hkey]
      by_cases hk : tokenHash = k
      · subst hk
        have hlookup := KeyedRows.lookup_eq_none_iff.mpr hnone
        simp [hlookup, hrecord]
      · simp [hk]
  | begin tokenHash expected =>
    have hlater := hpurged.mono hle
    have hselects : ∀ row, Sql.get (Sql.purge c.gone rows) tokenHash = some row →
        (Sql.Selects columns c.now tokenHash expected row ↔ Grantable payloadHash c.now expected row.record) := by
      intro row hrow
      by_cases hlive : c.now < row.record.expiresAt
      · have hbook : book tokenHash = some row.record := by
          have hsame := hlater.live tokenHash
          rw [hrow, Option.map_some, live_eq_some.mpr ⟨rfl, hlive⟩] at hsame
          exact (live_eq_some.mp hsame.symm).1
        obtain ⟨hhash, htold⟩ := hbegin tokenHash expected hrequest row.record hbook
        exact htold.matches_iff payloadHash columns (KeyedRows.key_of_lookup hrow) hhash
      · exact iff_of_false (fun hsel => hlive hsel.2.2.1) fun hg => hlive hg.2.1
    obtain ⟨hanswer, hnodup, hget⟩ := Sql.begin_eq payloadHash columns hpurged.nodup hselects
    have hgrant : granted payloadHash c.now expected
          ((Sql.get (Sql.purge c.gone rows) tokenHash).map (·.record))
        = granted payloadHash c.now expected (book tokenHash) := by
      rw [← granted_live, hlater.live, granted_live]
    rw [hgrant] at hanswer hget
    exact ⟨congrArg Except.ok hanswer, hlater.change _ hnodup hget (live_or (hlater.live tokenHash))⟩
  | finish tokenHash accepted =>
    have hlater := h.mono hle
    refine ⟨rfl, hlater.change _ (Sql.nodup_finish hlater.nodup tokenHash accepted)
      (fun k => Sql.get_finish hlater.nodup tokenHash k accepted) ?_⟩
    rw [live_settled, live_settled, hlater.live]

end Ai00.Agent
