import Ai00.Craft.Operations

/-! # The ledger of operations

What a call that goes through `_begin` and `_complete` (or `_write`) does: either its row is on
record and the call gives back the outcome there, or it does its work in a world with a running
row, which its outcome completes (`ledgered_of_record`, `ledgered_of_new`).
-/

namespace Ai00.Craft.CraftWorld

variable {hash : Json → Str} {w v : CraftWorld} {caller : Caller} {kind : Str} {request : Json}
  {effect : CraftWorld → Except ProposalError (Outcome × CraftWorld)} {outcome : Outcome}

/-- The row of a call that runs. -/
def runningRow (hash : Json → Str) (w : CraftWorld) (tenantGid : Gid) (kind key : Str)
    (request : Json) : LedgerRow :=
  ⟨w.issued + 1, tenantGid, kind, key, (hash request).drop 7, none⟩

/-- The world in which a call that is not on record does its work. -/
def running (hash : Json → Str) (w : CraftWorld) (tenantGid : Gid) (kind key : Str)
    (request : Json) : CraftWorld :=
  { db := { w.db with ledger := w.db.ledger ++ [runningRow hash w tenantGid kind key request] }
    issued := w.issued + 1 }

def record? (w : CraftWorld) (tenantGid : Gid) (kind key : Str) : Option LedgerRow :=
  w.db.ledger.find? (LedgerRow.isFor tenantGid kind key)

theorem ledgered_of_record {row : LedgerRow}
    (hrow : w.record? caller.tenantGid kind caller.idempotencyKey = some row)
    (houtcome : row.outcome = some outcome) {r : Outcome × CraftWorld} :
    ledgered hash w caller kind request effect = .ok r ↔
      row.requestHash = (hash request).drop 7 ∧ r = (outcome, w) := by
  unfold ledgered begin
  unfold record? at hrow
  rw [hrow]
  dsimp only
  rw [bind_eq_ok]
  constructor
  · rintro ⟨a, ha, hr⟩
    obtain ⟨u, hu, ha⟩ := bind_eq_ok.mp ha
    cases ha
    dsimp only at hr
    rw [houtcome] at hr
    cases hr
    exact ⟨orRaise_eq_ok.mp hu, rfl⟩
  · rintro ⟨hhash, rfl⟩
    refine ⟨_, bind_eq_ok.mpr ⟨(), orRaise_eq_ok.mpr hhash, rfl⟩, ?_⟩
    dsimp only
    rw [houtcome]
    rfl

theorem ledgered_of_new (hrow : w.record? caller.tenantGid kind caller.idempotencyKey = none)
    {r : Outcome × CraftWorld} : ledgered hash w caller kind request effect = .ok r ↔
      ∃ v, effect (w.running hash caller.tenantGid kind caller.idempotencyKey request) = .ok (r.1, v)
        ∧ r.2 = v.complete (some (w.issued + 1)) r.1 := by
  unfold ledgered begin
  unfold record? at hrow
  rw [hrow]
  dsimp only
  show (effect (w.running hash caller.tenantGid kind caller.idempotencyKey request) >>= fun p =>
      (Except.ok (p.1, p.2.complete (some (w.issued + 1)) p.1) :
        Except ProposalError (Outcome × CraftWorld))) = .ok r ↔ _
  rw [bind_eq_ok]
  constructor
  · rintro ⟨⟨o, v⟩, hbody, hr⟩
    cases hr
    exact ⟨v, hbody, rfl⟩
  · rintro ⟨v, hbody, hr⟩
    exact ⟨(r.1, v), hbody, by rw [← hr]⟩

theorem ledgered_of_effect (hrow : w.record? caller.tenantGid kind caller.idempotencyKey = none)
    (heffect : effect (w.running hash caller.tenantGid kind caller.idempotencyKey request)
      = .ok (outcome, v)) : ledgered hash w caller kind request effect
        = .ok (outcome, v.complete (some (w.issued + 1)) outcome) :=
  (ledgered_of_new hrow).mpr ⟨v, heffect, rfl⟩

/-- Every row is complete, and its gid was given out. -/
structure LedgerSafe (w : CraftWorld) : Prop where
  gids : ∀ r ∈ w.db.ledger, r.gid ≤ w.issued
  completed : ∀ r ∈ w.db.ledger, r.outcome.isSome

/-- The row a call that has run leaves. -/
def completedRow (hash : Json → Str) (w : CraftWorld) (tenantGid : Gid) (kind key : Str)
    (request : Json) (outcome : Outcome) : LedgerRow :=
  { runningRow hash w tenantGid kind key request with outcome := some outcome }

/-- A call that leaves the ledger alone between `_begin` and `_complete` adds its own row. -/
theorem ledger_complete (hsafe : w.LedgerSafe) {tenantGid : Gid} {key : Str}
    (hledger : v.db.ledger = (w.running hash tenantGid kind key request).db.ledger) :
    (v.complete (some (w.issued + 1)) outcome).db.ledger
      = w.db.ledger ++ [completedRow hash w tenantGid kind key request outcome] := by
  have hold : ∀ r ∈ w.db.ledger, (some r.gid == some (w.issued + 1)) = false := by
    intro r hr
    simp only [beq_eq_false_iff_ne, ne_eq, Option.some.injEq]
    exact ne_of_lt (Nat.lt_succ_of_le (hsafe.gids r hr))
  unfold complete
  dsimp only
  rw [hledger]
  show Rows.update _ _ (w.db.ledger ++ [_]) = _
  rw [Rows.update_append, Rows.update_of_none hold]
  congr 1
  simp [Rows.update, runningRow, completedRow]

theorem LedgerSafe.append (hsafe : w.LedgerSafe) {row : LedgerRow}
    (hledger : v.db.ledger = w.db.ledger ++ [row]) (hissued : w.issued ≤ v.issued)
    (hgid : row.gid ≤ v.issued) (houtcome : row.outcome.isSome) : v.LedgerSafe := by
  constructor
  · intro r hr
    rw [hledger, List.mem_append, List.mem_singleton] at hr
    rcases hr with hr | rfl
    · exact le_trans (hsafe.gids r hr) hissued
    · exact hgid
  · intro r hr
    rw [hledger, List.mem_append, List.mem_singleton] at hr
    rcases hr with hr | rfl
    · exact hsafe.completed r hr
    · exact houtcome

theorem LedgerSafe.same (hsafe : w.LedgerSafe) (hledger : v.db.ledger = w.db.ledger)
    (hissued : w.issued ≤ v.issued) : v.LedgerSafe := by
  constructor <;> rw [hledger]
  · exact fun r hr => le_trans (hsafe.gids r hr) hissued
  · exact hsafe.completed

/-- **A call through the ledger** that returns: on record it writes nothing, else it has run. -/
theorem ledgered_cases (hsafe : w.LedgerSafe)
    (h : ledgered hash w caller kind request effect = .ok (outcome, v)) :
    (∃ row, w.record? caller.tenantGid kind caller.idempotencyKey = some row ∧
      row.requestHash = (hash request).drop 7 ∧ row.outcome = some outcome ∧ v = w) ∨
    (w.record? caller.tenantGid kind caller.idempotencyKey = none ∧
      ∃ u, effect (w.running hash caller.tenantGid kind caller.idempotencyKey request)
        = .ok (outcome, u) ∧ v = u.complete (some (w.issued + 1)) outcome) := by
  cases hrecord : w.record? caller.tenantGid kind caller.idempotencyKey with
  | none => exact Or.inr ⟨rfl, (ledgered_of_new hrecord).mp h⟩
  | some row =>
    have hin := List.mem_of_find?_eq_some hrecord
    obtain ⟨recorded, hrecorded⟩ := Option.isSome_iff_exists.mp (hsafe.completed row hin)
    obtain ⟨hhash, heq⟩ := (ledgered_of_record hrecord hrecorded).mp h
    cases heq
    exact Or.inl ⟨row, rfl, hhash, hrecorded, rfl⟩

/-- `_write`, in the same way. -/
theorem write_cases {tenantGid : Gid} {operation key : Str} {payload : Json}
    {effect : CraftWorld → Except RepositoryError (Outcome × CraftWorld)}
    (h : write hash w tenantGid operation key payload effect = .ok (outcome, v)) :
    v = w ∨ ∃ u, effect (w.running hash tenantGid operation key payload) = .ok (outcome, u) ∧
      v = u.complete (some (w.issued + 1)) outcome := by
  unfold write at h
  dsimp only at h
  split at h
  · obtain ⟨u, -, h⟩ := bind_eq_ok.mp h
    split at h
    · cases h
      exact Or.inl rfl
    · cases h
  · obtain ⟨⟨o, u⟩, heffect, h⟩ := bind_eq_ok.mp h
    cases h
    exact Or.inr ⟨u, heffect, rfl⟩

end Ai00.Craft.CraftWorld
