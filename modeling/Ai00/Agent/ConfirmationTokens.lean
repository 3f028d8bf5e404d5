import Ai00.Basic.KeyedRows
import Ai00.Basic.Python
import Ai00.Basic.Rows

/-! # Confirmation tokens

`data/confirmation_repository.py`: a write that a user has to confirm is stored under the hash of
a token, and `begin` grants it to one worker at a time until `finish`. There are two stores, a
dictionary under a lock and a table. What they do not share is kept apart here: the dictionary
compares every expected field and hashes the inputs again, the table compares texts under its
collation, skips what is empty, and stores what its columns take.

Times are microseconds in UTC. A call on the table is one transaction, and of its statements only
the last reads what other workers write, so that calls are taken one after another; each statement
reads the clock anew.
-/

namespace Ai00.Agent

inductive TokenState where
  | pending
  | inflight
  deriving DecidableEq

/-- What is stored for a token. `J` is what a JSON column holds. -/
structure ConfirmationRecord (J : Type) where
  toolName : Str
  inputs : J
  sessionGid : Str
  userGid : Str
  catalogRelease : Str
  capabilityId : Str
  majorVersion : Nat
  payloadHash : Str
  idempotencyKey : Str
  agentIdentity : J
  state : Option TokenState
  expiresAt : Nat
  deriving DecidableEq

/-- `expected`; the last two keys may be missing. -/
structure Expected where
  toolName : Str
  sessionGid : Str
  userGid : Str
  majorVersion : Nat
  catalogRelease : Option Str
  capabilityId : Option Str

def ConfirmationRecord.withState {J : Type} (record : ConfirmationRecord J) (state : TokenState) :
    ConfirmationRecord J := { record with state := some state }

variable {H J : Type} [DecidableEq H]

/-! ## `InMemoryConfirmationRepository` -/

namespace InMemory

/-- The dictionary, in the order in which its keys came. -/
abbrev Records (H J : Type) := List (H × ConfirmationRecord J)

abbrev get (records : Records H J) (tokenHash : H) : Option (ConfirmationRecord J) :=
  (KeyedRows.lookup Prod.fst tokenHash records).map Prod.snd

abbrev set (tokenHash : H) (record : ConfirmationRecord J) (records : Records H J) : Records H J :=
  KeyedRows.upsert Prod.fst (tokenHash, record) records

/-- `_purge_expired_locked`: the first hundred that have expired. -/
def purgeExpired (now : Nat) (records : Records H J) : Records H J :=
  let expired := ((records.filter fun e => e.2.expiresAt ≤ now).map Prod.fst).take 100
  records.filter fun e => e.1 ∉ expired

def save (now : Nat) (tokenHash : H) (record : ConfirmationRecord J) (records : Records H J) :
    Records H J :=
  set tokenHash record (purgeExpired now records)

/-- `any(record.get(key) != value for key, value in expected.items())` is false. -/
def Matches (expected : Expected) (record : ConfirmationRecord J) : Prop :=
  record.toolName = expected.toolName ∧ record.sessionGid = expected.sessionGid
    ∧ record.userGid = expected.userGid ∧ record.majorVersion = expected.majorVersion
    ∧ (∀ release ∈ expected.catalogRelease, record.catalogRelease = release)
    ∧ ∀ capability ∈ expected.capabilityId, record.capabilityId = capability

instance (expected : Expected) : DecidablePred (Matches (J := J) expected) := fun _ =>
  inferInstanceAs (Decidable (_ ∧ _ ∧ _ ∧ _ ∧ _ ∧ _))

/-- The purge and the check each read the clock. -/
def begin (payloadHash : J → Str) (purged now : Nat) (tokenHash : H) (expected : Expected)
    (records : Records H J) : Option (ConfirmationRecord J) × Records H J :=
  let records := purgeExpired purged records
  match get records tokenHash with
  | none => (none, records)
  | some record =>
    if record.state ≠ some .pending ∨ record.expiresAt ≤ now then (none, records)
    else if ¬ Matches expected record then (none, records)
    else if record.payloadHash ≠ payloadHash record.inputs then (none, records)
    else (some (record.withState .inflight), set tokenHash (record.withState .inflight) records)

def finish (tokenHash : H) (accepted : Bool) (records : Records H J) : Records H J :=
  match get records tokenHash with
  | none => records
  | some record =>
    if record.state ≠ some .inflight then records
    else if accepted then records.filter (·.1 ≠ tokenHash)
    else set tokenHash (record.withState .pending) records

end InMemory

/-! ## `SqlConfirmationRepository` -/

/-- A row of `workmanship_agent_confirmation_tokens`. -/
structure ConfirmationRow (H J : Type) where
  tokenHash : H
  toolName : Str
  inputsJson : J
  sessionGid : Str
  userGid : Str
  catalogRelease : Str
  capabilityId : Str
  majorVersion : Nat
  payloadHash : Str
  idempotencyKey : Str
  agentIdentityJson : J
  state : TokenState
  expiresAt : Nat

def ConfirmationRow.record (row : ConfirmationRow H J) : ConfirmationRecord J where
  toolName := row.toolName
  inputs := row.inputsJson
  sessionGid := row.sessionGid
  userGid := row.userGid
  catalogRelease := row.catalogRelease
  capabilityId := row.capabilityId
  majorVersion := row.majorVersion
  payloadHash := row.payloadHash
  idempotencyKey := row.idempotencyKey
  agentIdentity := row.agentIdentityJson
  state := some row.state
  expiresAt := row.expiresAt

def ConfirmationRow.withState (row : ConfirmationRow H J) (state : TokenState) :
    ConfirmationRow H J := { row with state }

inductive DatabaseError where
  | dataError
  | integrityError
  deriving DecidableEq

/-- A text column under strict mode: blanks at the end are cut, other text is too long. -/
def textColumn (width : Nat) (value : Str) : Except DatabaseError Str :=
  if value.length ≤ width then .ok value
  else if ∀ c ∈ value.drop width, c = ' ' then .ok (value.take width)
  else .error .dataError

/-- `INT UNSIGNED`. -/
def unsignedColumn (value : Nat) : Except DatabaseError Nat :=
  if value < 2 ^ 32 then .ok value else .error .dataError

/-- What the table makes of the values that are put into it. -/
structure Columns (J : Type) where
  /-- The weights under which the collation compares a text. -/
  collate : Str → Str
  /-- What a JSON column gives back. -/
  json : J → J

namespace Sql

variable (columns : Columns J)

abbrev Rows (H J : Type) := List (ConfirmationRow H J)

abbrev get (rows : Rows H J) (tokenHash : H) : Option (ConfirmationRow H J) :=
  KeyedRows.lookup ConfirmationRow.tokenHash tokenHash rows

/-- `_purge_expired`. The `DELETE` has no `ORDER BY`: which hundred go is the database's choice. -/
def Purges (now : Nat) (rows : Rows H J) (gone : List H) : Prop :=
  gone.Nodup ∧ (∀ h ∈ gone, ∃ row ∈ rows, row.tokenHash = h ∧ row.expiresAt ≤ now)
    ∧ gone.length = min 100 (rows.countP fun row => row.expiresAt ≤ now)

def purge (gone : List H) (rows : Rows H J) : Rows H J := rows.filter fun row => row.tokenHash ∉ gone

/-- The row that `save` inserts. -/
def row (tokenHash : H) (record : ConfirmationRecord J) :
    Except DatabaseError (ConfirmationRow H J) := do
  let toolName ← textColumn 128 record.toolName
  let sessionGid ← textColumn 128 record.sessionGid
  let userGid ← textColumn 191 record.userGid
  let catalogRelease ← textColumn 64 record.catalogRelease
  let capabilityId ← textColumn 255 record.capabilityId
  let majorVersion ← unsignedColumn record.majorVersion
  let payloadHash ← textColumn 71 record.payloadHash
  let idempotencyKey ← textColumn 191 record.idempotencyKey
  return {
    tokenHash, toolName, sessionGid, userGid, catalogRelease, capabilityId, majorVersion
    payloadHash, idempotencyKey
    inputsJson := columns.json record.inputs
    agentIdentityJson := columns.json record.agentIdentity
    state := .pending
    expiresAt := record.expiresAt }

/-- An error rolls the transaction back. -/
def save (gone : List H) (tokenHash : H) (record : ConfirmationRecord J) (rows : Rows H J) :
    Except DatabaseError (Rows H J) := do
  let row ← row columns tokenHash record
  match Rows.insert (fun r s => r.tokenHash = s.tokenHash) row (purge gone rows) with
  | none => .error .integrityError
  | some rows => .ok rows

/-- The `WHERE` of the `UPDATE` in `begin`; a key that is missing or empty adds no condition. -/
def Selects (now : Nat) (tokenHash : H) (expected : Expected) (row : ConfirmationRow H J) : Prop :=
  row.tokenHash = tokenHash ∧ row.state = .pending ∧ now < row.expiresAt
    ∧ columns.collate row.toolName = columns.collate expected.toolName
    ∧ columns.collate row.sessionGid = columns.collate expected.sessionGid
    ∧ columns.collate row.userGid = columns.collate expected.userGid
    ∧ row.majorVersion = expected.majorVersion
    ∧ (∀ release ∈ expected.catalogRelease, release ≠ [] →
        columns.collate row.catalogRelease = columns.collate release)
    ∧ ∀ capability ∈ expected.capabilityId, capability ≠ [] →
        columns.collate row.capabilityId = columns.collate capability

instance (now : Nat) (tokenHash : H) (expected : Expected) :
    DecidablePred (Selects (J := J) columns now tokenHash expected) := fun _ =>
  inferInstanceAs (Decidable (_ ∧ _ ∧ _ ∧ _ ∧ _ ∧ _ ∧ _ ∧ _ ∧ _))

def begin (gone : List H) (now : Nat) (tokenHash : H) (expected : Expected) (rows : Rows H J) :
    Option (ConfirmationRecord J) × Rows H J :=
  let rows := purge gone rows
  if rows.countP (Selects columns now tokenHash expected) ≠ 1 then (none, rows)
  else
    let rows := Rows.update (Selects columns now tokenHash expected) (·.withState .inflight) rows
    ((get rows tokenHash).map fun row => row.record.withState .inflight, rows)

def finish (tokenHash : H) (accepted : Bool) (rows : Rows H J) : Rows H J :=
  if accepted then rows.filter fun row => ¬ (row.tokenHash = tokenHash ∧ row.state = .inflight)
  else Rows.update (fun row => row.tokenHash = tokenHash ∧ row.state = .inflight)
    (·.withState .pending) rows

end Sql

end Ai00.Agent
