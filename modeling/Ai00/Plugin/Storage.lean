import Ai00.Basic.Checks
import Ai00.Basic.Successive

/-! # Plugin storage

`put_value` and `delete_value` of `plugin_platform/storage.py` on one key of a namespace, called by any
number of clients; each call is one transaction. A call whose context, key or value is refused raises before
its transaction, and is none of these calls.

A version numbers the writes since the key was last created. `World` keeps beside the row what the calls did,
so that a version can be traced to the call that returned it (`Receipt`): it names one value as long as the
key was not removed (`versions_name_values`).
-/

namespace Ai00.Plugin.Storage

/-- The row of the key in `workmanship_plugin_namespace_kv`. -/
structure StorageRow where
  valueJson : Str
  version : ℤ
  createdBy : Str
  updatedBy : Str

inductive StorageError where
  | versionConflict (expected : Option ℤ) (current : ℤ)
  | keyDoesNotExist

/-- `expected is not None and int(expected) != current` raises. -/
def checkVersion (expected : Option ℤ) (row : StorageRow) : Except StorageError Unit :=
  require (expected = none ∨ expected = some row.version) (.versionConflict expected row.version)

/-- `put_value`: the row it leaves, whose version it returns. -/
def putValue (encoded userGid : Str) (expected : Option ℤ) : Option StorageRow → Except StorageError StorageRow
  | some row => do
    checkVersion expected row
    return { row with valueJson := encoded, version := row.version + 1, updatedBy := userGid }
  | none => do
    require (expected = none ∨ expected = some 0) .keyDoesNotExist
    return { valueJson := encoded, version := 1, createdBy := userGid, updatedBy := userGid }

/-- `delete_value`: whether it deleted the row. -/
def deleteValue (expected : Option ℤ) : Option StorageRow → Except StorageError Bool
  | some row => do
    checkVersion expected row
    return true
  | none => return false

/-! ## Calls of clients -/

section

variable {κ : Type}

inductive Operation where
  | put (encoded : Str)
  | delete

/-- A call of a client, with the `expected_version` of its payload. -/
structure Call (κ : Type) where
  client : κ
  userGid : Str
  operation : Operation
  expected : Option ℤ

/-- What a call did: it wrote a value and returned its version, or it removed the row. -/
inductive Event (κ : Type) where
  | wrote (client : κ) (version : ℤ)
  | removed

structure World (κ : Type) where
  row : Option StorageRow := none
  log : List (Event κ) := []

/-- One call; what raises changes nothing. -/
def World.step (w : World κ) (call : Call κ) : World κ :=
  match call.operation with
  | .put encoded =>
    match putValue encoded call.userGid call.expected w.row with
    | .ok row => ⟨some row, w.log ++ [.wrote call.client row.version]⟩
    | .error _ => w
  | .delete =>
    match deleteValue call.expected w.row with
    | .ok true => ⟨none, w.log ++ [.removed]⟩
    | _ => w

/-- The store after calls on a key that was never written. -/
def afterCalls (calls : List (Call κ)) : World κ := Successive.after World.step {} calls

/-- The call writes or removes something. -/
def World.Takes (w : World κ) (call : Call κ) : Prop := (w.step call).log.length = w.log.length + 1

/-- The version the call carries was returned to its client by the `i`-th of the calls that took. -/
def World.Receipt (w : World κ) (call : Call κ) (i : ℕ) : Prop :=
  ∃ version, 0 < version ∧ call.expected = some version ∧ w.log[i]? = some (.wrote call.client version)

/-- The value that is there was written by the `i`-th of the calls that took. -/
def World.HoldsValueOf (w : World κ) (i : ℕ) : Prop := w.row ≠ none ∧ i + 1 = w.log.length

/-- The key was removed since the `i`-th of the calls that took. -/
def World.RemovedSince (w : World κ) (i : ℕ) : Prop := .removed ∈ w.log.drop (i + 1)

/-- **What a version is to guard**: a call that carries the version of a receipt takes only where the value of
that receipt still is, and a put that carries 0 only where there is no row. -/
def World.KeepsVersions (w : World κ) (call : Call κ) : Prop :=
  (∀ i, w.Receipt call i → w.Takes call → w.HoldsValueOf i)
    ∧ ∀ encoded, call.operation = .put encoded → call.expected = some 0 → w.Takes call → w.row = none

/-- The row was removed after the receipt of the call, and a later one has reached its version again. -/
def World.Revived (w : World κ) (call : Call κ) : Prop :=
  ∃ i, w.Receipt call i ∧ w.RemovedSince i ∧ ∃ row, w.row = some row ∧ call.expected = some row.version

/-! ## One call -/

variable {w : World κ} {call : Call κ}

/-- What a call does to a row. -/
inductive World.Did (w : World κ) (call : Call κ) : World κ → Prop
  | created (row : StorageRow) (hnone : w.row = none) (hversion : row.version = 1)
      (hexpected : call.expected = none ∨ call.expected = some 0) :
      w.Did call ⟨some row, w.log ++ [.wrote call.client row.version]⟩
  | replaced (old row : StorageRow) (hold : w.row = some old) (hversion : row.version = old.version + 1)
      (hexpected : call.expected = none ∨ call.expected = some old.version) :
      w.Did call ⟨some row, w.log ++ [.wrote call.client row.version]⟩
  | removed (old : StorageRow) (hold : w.row = some old)
      (hexpected : call.expected = none ∨ call.expected = some old.version) :
      w.Did call ⟨none, w.log ++ [.removed]⟩

theorem step_did : w.step call = w ∨ w.Did call (w.step call) := by
  unfold World.step
  cases hoperation : call.operation with
  | put encoded =>
    cases hrow : w.row with
    | none =>
      by_cases hexpected : call.expected = none ∨ call.expected = some 0
      · simp only [putValue, require, if_pos hexpected, ok_bind]
        exact .inr (.created _ hrow rfl hexpected)
      · simp only [putValue, require, if_neg hexpected]
        exact .inl rfl
    | some old =>
      by_cases hexpected : call.expected = none ∨ call.expected = some old.version
      · simp only [putValue, checkVersion, require, if_pos hexpected, ok_bind]
        exact .inr (.replaced old _ hrow rfl hexpected)
      · simp only [putValue, checkVersion, require, if_neg hexpected]
        exact .inl rfl
  | delete =>
    cases hrow : w.row with
    | none => exact .inl rfl
    | some old =>
      by_cases hexpected : call.expected = none ∨ call.expected = some old.version
      · simp only [deleteValue, checkVersion, require, if_pos hexpected, ok_bind]
        exact .inr (.removed old hrow hexpected)
      · simp only [deleteValue, checkVersion, require, if_neg hexpected]
        exact .inl rfl

theorem not_takes_of_eq (h : w.step call = w) : ¬ w.Takes call := by
  rw [World.Takes, h]
  omega

theorem takes_of_version {row : StorageRow} (hrow : w.row = some row)
    (hexpected : call.expected = some row.version) : w.Takes call := by
  unfold World.Takes World.step
  cases call.operation with
  | put encoded => simp [hrow, hexpected, putValue, checkVersion, require, ok_bind, pure, Except.pure]
  | delete => simp [hrow, hexpected, deleteValue, checkVersion, require, ok_bind, pure, Except.pure]

/-! ## Versions -/

/-- **The invariant**: since a value that was not removed the version has grown by one with every write. -/
structure Numbered (w : World κ) : Prop where
  positive : ∀ row ∈ w.row, 0 < row.version
  grown : ∀ i client version, w.log[i]? = some (.wrote client version) → ¬ w.RemovedSince i →
    ∃ row, w.row = some row ∧ version + w.log.length = row.version + (i + 1)

theorem removedSince_concat {row : Option StorageRow} {event : Event κ} {i : ℕ} (hi : i < w.log.length) :
    (World.mk row (w.log ++ [event])).RemovedSince i ↔ w.RemovedSince i ∨ event = .removed := by
  unfold World.RemovedSince
  rw [List.drop_append_of_le_length (by omega), List.mem_append, List.mem_singleton]
  exact or_congr_right eq_comm

/-- A receipt in a log that grew by one call is older, or that of the call. -/
theorem getElem?_concat_cases {events : List (Event κ)} {event found : Event κ} {i : ℕ}
    (h : (events ++ [event])[i]? = some found) :
    i < events.length ∧ events[i]? = some found ∨ i = events.length ∧ event = found := by
  rcases Nat.lt_trichotomy i events.length with hi | rfl | hi
  · rw [List.getElem?_append_left hi] at h
    exact .inl ⟨hi, h⟩
  · rw [List.getElem?_concat_length] at h
    exact .inr ⟨rfl, Option.some.inj h⟩
  · rw [List.getElem?_eq_none (by simpa using hi)] at h
    cases h

theorem Numbered.write (h : Numbered w) {row : StorageRow} (hpositive : 0 < row.version)
    (hnext : ∀ old, w.row = some old → row.version = old.version + 1) :
    Numbered (World.mk (some row) (w.log ++ [.wrote call.client row.version])) := by
  refine ⟨?_, fun i client version hi hsince => ⟨row, rfl, ?_⟩⟩
  · rintro _ ⟨⟩
    exact hpositive
  · simp only [List.length_append, List.length_singleton]
    rcases getElem?_concat_cases hi with ⟨hlt, hi⟩ | ⟨rfl, hevent⟩
    · rw [removedSince_concat hlt, not_or] at hsince
      obtain ⟨old, hold, hversion⟩ := h.grown i client version hi hsince.1
      have hrow := hnext old hold
      push_cast
      omega
    · cases hevent
      push_cast
      omega

theorem Numbered.step (h : Numbered w) (call : Call κ) : Numbered (w.step call) := by
  rcases (step_did : w.step call = w ∨ _) with heq | hdid
  · rwa [heq]
  generalize w.step call = w' at hdid
  cases hdid with
  | created row hnone hversion _ =>
    refine h.write (by omega) fun old hold => ?_
    rw [hnone] at hold
    cases hold
  | replaced old row hold hversion _ =>
    have hpositive := h.positive old hold
    refine h.write (by omega) fun other hother => ?_
    cases hold.symm.trans hother
    exact hversion
  | removed old hold _ =>
    refine ⟨fun _ hrow => (nomatch hrow), fun i client version hi hsince => ?_⟩
    rcases getElem?_concat_cases hi with ⟨hlt, -⟩ | ⟨-, hevent⟩
    · exact absurd ((removedSince_concat hlt).mpr (.inr rfl)) hsince
    · cases hevent

theorem numbered_after (calls : List (Call κ)) : Numbered (afterCalls calls) :=
  Successive.after_keeps ⟨fun _ h => (nomatch h), fun _ _ _ h => (nomatch h)⟩ fun _ call h => h.step call

/-- **Versions guard values** exactly where no row of the key has come back to the version of an older one. -/
theorem versions_name_values (calls : List (Call κ)) (call : Call κ) :
    (afterCalls calls).KeepsVersions call ↔ ¬ (afterCalls calls).Revived call := by
  have hnumbered := numbered_after calls
  generalize afterCalls calls = w at hnumbered ⊢
  constructor
  · rintro ⟨hkeeps, -⟩ ⟨i, hreceipt, hremoved, row, hrow, hexpected⟩
    obtain ⟨-, hlast⟩ := hkeeps i hreceipt (takes_of_version hrow hexpected)
    rw [World.RemovedSince, hlast, List.drop_length] at hremoved
    cases hremoved
  · intro hrevived
    refine ⟨fun i hreceipt htakes => ?_, fun encoded hput hzero htakes => ?_⟩
    · have hcarried := hreceipt
      obtain ⟨version, hpositive, hexpected, hlog⟩ := hcarried
      have hi : i < w.log.length := (List.getElem?_eq_some_iff.mp hlog).1
      -- a positive version takes only where a row has it
      have hrow : ∃ row, w.row = some row ∧ call.expected = some row.version := by
        rcases (step_did : w.step call = w ∨ _) with heq | hdid
        · exact absurd htakes (not_takes_of_eq heq)
        generalize w.step call = w' at hdid
        rcases hdid with ⟨_, _, _, hnone | hzero⟩ | ⟨old, _, hold, _, hnone | hsome⟩ | ⟨old, hold, hnone | hsome⟩
        all_goals simp_all
      obtain ⟨row, hrow, hsame⟩ := hrow
      have hsince : ¬ w.RemovedSince i := fun hremoved => hrevived ⟨i, hreceipt, hremoved, row, hrow, hsame⟩
      obtain ⟨row', hrow', hversion⟩ := hnumbered.grown i call.client version hlog hsince
      cases hrow.symm.trans hrow'
      cases hexpected.symm.trans hsame
      exact ⟨by simp [hrow], by omega⟩
    · by_contra hrow
      obtain ⟨row, hrow⟩ := Option.ne_none_iff_exists'.mp hrow
      have hpositive := hnumbered.positive row hrow
      rcases (step_did : w.step call = w ∨ _) with heq | hdid
      · exact not_takes_of_eq heq htakes
      generalize w.step call = w' at hdid
      rcases hdid with ⟨_, hnone, _, _⟩ | ⟨old, _, hold, _, hnone | hsome⟩ | ⟨old, hold, hnone | hsome⟩
      all_goals simp_all

end

/-- The first client's version names the value of the second one: its put replaces a value it never saw. -/
theorem version_names_two_values : ∃ (calls : List (Call Bool)) (call : Call Bool),
    (afterCalls calls).Receipt call 0
    ∧ ¬ (afterCalls calls).KeepsVersions call := by
  refine ⟨[⟨false, [], .put ['1'], none⟩, ⟨false, [], .delete, some 1⟩, ⟨true, [], .put ['2'], some 0⟩],
    ⟨false, [], .put ['3'], some 1⟩, ⟨1, one_pos, rfl, rfl⟩, fun h => ?_⟩
  have hlast := (h.1 0 ⟨1, one_pos, rfl, rfl⟩ rfl).2
  cases hlast

end Ai00.Plugin.Storage
