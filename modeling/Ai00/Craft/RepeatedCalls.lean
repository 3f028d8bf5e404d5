import Ai00.Craft.SpaceHistory

/-! # Synchronizations called again

What a call has put on record stays there through any later calls. A synchronization that is called again therefore
gives what it gave the first time, and changes nothing (`sync_made_once`).
-/

namespace Ai00.Craft.CraftWorld

variable {hash : Json → Str} {w v : CraftWorld} {caller : Caller} {tenant : Gid} {kind key : Str} {row : LedgerRow}
  {outcome : Outcome}

theorem LedgerGrows.record (h : LedgerGrows w v) (hrow : w.record? tenant kind key = some row) :
    v.record? tenant kind key = some row := by
  unfold record? at hrow ⊢
  rcases h with h | ⟨_, h, -⟩ <;> rw [h]
  · exact hrow
  · rw [List.find?_append, hrow]
    rfl

theorem record_spaceRun (hw : w.Keyed) (hrow : w.record? tenant kind key = some row)
    (calls : List (Caller × SpaceCall)) : (w.spaceRun hash calls).record? tenant kind key = some row := by
  induction calls generalizing w with
  | nil => exact hrow
  | cons c calls ih => exact ih (hw.spaceStep c) ((spaceStep_stepped hash hw c).ledger.record hrow)

/-- A call through the ledger whose work leaves the ledger alone is on record. -/
theorem record_of_ledgered {request : Json} {effect : CraftWorld → Except ProposalError (Outcome × CraftWorld)}
    (hw : w.LedgerSafe) (heffect : ∀ u u', effect u = .ok (outcome, u') → u'.db.ledger = u.db.ledger)
    (h : ledgered hash w caller kind request effect = .ok (outcome, v)) :
    ∃ row, v.record? caller.tenantGid kind caller.idempotencyKey = some row
      ∧ row.requestHash = (hash request).drop 7 ∧ row.outcome = some outcome := by
  rcases ledgered_cases hw h with ⟨row, hrow, hhash, houtcome, rfl⟩ | ⟨hnone, u, hu, rfl⟩
  · exact ⟨row, hrow, hhash, houtcome⟩
  · refine ⟨completedRow hash w caller.tenantGid kind caller.idempotencyKey request outcome, ?_, rfl, rfl⟩
    unfold record? at hnone ⊢
    rw [ledger_complete hw (heffect _ _ hu), List.find?_append, hnone]
    simp [completedRow, runningRow, LedgerRow.isFor]

/-- **A synchronization is made once.** Called again after any later calls, it gives what it gave. -/
theorem sync_made_once {operation space : Gid} {keys : List MemberKey} {expected : Nat} (hw : w.Keyed)
    (h : applySync hash w caller operation space keys expected = .ok (outcome, v))
    (calls : List (Caller × SpaceCall)) :
    applySync hash (v.spaceRun hash calls) caller operation space keys expected
      = .ok (outcome, v.spaceRun hash calls) := by
  obtain ⟨row, hrow, hhash, houtcome⟩ := record_of_ledgered hw.ledger (fun u u' hbody => by
    unfold applySyncBody at hbody
    split at hbody
    · cases hbody
    · obtain ⟨_, -, hbody⟩ := bind_eq_ok.mp hbody
      split at hbody
      · cases hbody
      · obtain ⟨_, -, hbody⟩ := bind_eq_ok.mp hbody
        cases hbody
        rfl) h
  exact (ledgered_of_record (record_spaceRun (hw.step (applySync_stepped hw h)) hrow calls) houtcome).mpr ⟨hhash, rfl⟩

theorem sync_made_once_overtaken : ∃ (outcome : Outcome) (v : CraftWorld),
    applySync (Json.dumps fun _ => []) (v.spaceRun (Json.dumps fun _ => []) overtakingCalls) ⟨9, 8, "e".toList⟩ 103 3
      [⟨.node, 10⟩] 1 = .ok (outcome, v.spaceRun (Json.dumps fun _ => []) overtakingCalls) := by
  have hsync : (applySync (Json.dumps fun _ => []) (twoSpaces.spaceRun (Json.dumps fun _ => []) compareCalls)
      ⟨9, 8, "e".toList⟩ 103 3 [⟨.node, 10⟩] 1).isOk = true := by decide +kernel
  cases h : applySync (Json.dumps fun _ => []) (twoSpaces.spaceRun (Json.dumps fun _ => []) compareCalls)
      ⟨9, 8, "e".toList⟩ 103 3 [⟨.node, 10⟩] 1 with
  | error =>
    rw [h] at hsync
    cases hsync
  | ok r => exact ⟨r.1, r.2, sync_made_once (twoSpaces_keyed.spaceRun compareCalls) h overtakingCalls⟩

end Ai00.Craft.CraftWorld
