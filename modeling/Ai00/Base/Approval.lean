import Ai00.Basic.Lockstep
import Ai00.Basic.KeyedRows
import Ai00.Basic.Rows
import Ai00.Json.Builtins

/-! # Business approvals

`base/approval.py`: a request for approval is created with its approvers, decided by one of them
or cancelled by its workflow. `ApprovalService` works over a repository, the dictionary
`InMemoryApprovalRepository` or the table of `SqlApprovalRepository`; a method of the repository
is one atomic request of a call, as is a reading of the clock and a random identifier.

The table compares text under its collation and keeps what fits its columns (`fitColumn`).
-/

namespace Ai00.Base

open Program

inductive ApprovalError where
  | businessError (code : String) (message : Str)
  | integrityError
  | dataError
  | typeError

structure ApprovalRequest where
  tenantGid : Str
  approvalId : Str
  subjectRef : Str
  requesterGid : Str
  resourceRef : Str
  revision : Str
  contentHash : Str
  reason : Str
  approverIds : List Str
  status : Str
  decisionReason : Option Str
  decidedBy : Option Str
  createdAt : Int
  updatedAt : Int

def pending : Str := "pending".toList
def approved : Str := "approved".toList
def rejected : Str := "rejected".toList
def cancelled : Str := "cancelled".toList

def finalStates : List Str := [approved, rejected, cancelled]

def notFound : ApprovalError :=
  .businessError "resource_not_found" "Approval request was not found.".toList

def stateConflict (status expected : Str) : ApprovalError :=
  .businessError "state_conflict"
    ("Approval is ".toList ++ status ++ ", expected ".toList ++ expected ++ ".".toList)

/-- What a transition writes. -/
def ApprovalRequest.moved (request : ApprovalRequest) (target : Str) (reason : Option Str)
    (actor : Str) (now : Int) : ApprovalRequest :=
  { request with status := target, decisionReason := reason, decidedBy := some actor
                 updatedAt := now }

/-! ## Requests to a repository -/

structure Transition where
  tenantGid : Str
  approvalId : Str
  expectedState : Str
  targetState : Str
  actorGid : Str
  reason : Option Str
  idempotentTarget : Bool

inductive ApprovalAction where
  | now
  | uuid
  | add (request : ApprovalRequest)
  | get (tenantGid approvalId : Str)
  | transition (t : Transition)

abbrev ApprovalAction.Answer : ApprovalAction → Type
  | .now => Int
  | .uuid => Str
  | .add _ => Unit
  | .get _ _ => Option ApprovalRequest
  | .transition _ => ApprovalRequest

/-- Where the clock readings and the identifiers come from. -/
structure Draws where
  times : Nat → Int
  uuids : Nat → Str

/-- A repository with the number of clock readings and identifiers drawn so far. -/
structure ApprovalState (ρ : Type) where
  repository : ρ
  readings : Nat := 0
  identifiers : Nat := 0

/-! ## The dictionary -/

structure InMemoryApprovalRepository where
  items : List ApprovalRequest := []

namespace InMemoryApprovalRepository

def key (request : ApprovalRequest) : Str × Str := (request.tenantGid, request.approvalId)

def add (repository : InMemoryApprovalRepository) (request : ApprovalRequest) :
    Except ApprovalError InMemoryApprovalRepository :=
  if (KeyedRows.lookup key (key request) repository.items).isSome then
    .error (.businessError "idempotency_conflict" "Approval ID already exists.".toList)
  else .ok { items := KeyedRows.upsert key request repository.items }

def get (repository : InMemoryApprovalRepository) (tenantGid approvalId : Str) :
    Option ApprovalRequest :=
  KeyedRows.lookup key (tenantGid, approvalId) repository.items

/-- `transition`; the second part is the repository after it, `none` where it stays as it is. -/
def transition (repository : InMemoryApprovalRepository) (t : Transition) (now : Int) :
    Except ApprovalError (ApprovalRequest × Option InMemoryApprovalRepository) :=
  match repository.get t.tenantGid t.approvalId with
  | none => .error notFound
  | some current =>
    if t.idempotentTarget ∧ current.status = t.targetState then .ok (current, none)
    else if current.status ≠ t.expectedState then
      .error (stateConflict current.status t.expectedState)
    else
      let updated := current.moved t.targetState t.reason t.actorGid now
      .ok (updated, some { items := KeyedRows.upsert key updated repository.items })

end InMemoryApprovalRepository

/-! ## The table -/

/-- The document of `request_json`. -/
structure RequestDocument where
  resourceRef : Str
  revision : Str
  contentHash : Str
  reason : Str
  approverIds : List Str
  deriving DecidableEq

/-- The document of `decision_json`. -/
structure DecisionDocument where
  actorGid : Str
  reason : Option Str
  deriving DecidableEq

/-- A row of `workmanship_base_approvals`. -/
structure ApprovalRow where
  tenantGid : Str
  approvalId : Str
  subjectRef : Str
  requesterGid : Str
  status : Str
  expectedState : Str
  requestJson : RequestDocument
  decisionJson : Option DecisionDocument
  createdAt : Int
  updatedAt : Int
  deriving DecidableEq

/-- A value for a `VARCHAR` column: spaces beyond the width are cut off, other text beyond it is an
error. -/
def fitColumn (width : Nat) (value : Str) : Except ApprovalError Str :=
  if value.length ≤ width then .ok value
  else if ∀ c ∈ value.drop width, c = ' ' then .ok (value.take width)
  else .error .dataError

structure SqlApprovalRepository where
  rows : List ApprovalRow := []

def ApprovalRow.request (row : ApprovalRow) : ApprovalRequest where
  tenantGid := row.tenantGid
  approvalId := row.approvalId
  subjectRef := row.subjectRef
  requesterGid := row.requesterGid
  resourceRef := row.requestJson.resourceRef
  revision := row.requestJson.revision
  contentHash := row.requestJson.contentHash
  reason := row.requestJson.reason
  approverIds := row.requestJson.approverIds
  status := row.status
  decisionReason := row.decisionJson.bind (·.reason)
  decidedBy := row.decisionJson.map (·.actorGid)
  createdAt := row.createdAt
  updatedAt := row.updatedAt

/-! `collate` gives the weights under which the collation compares a text. -/

namespace SqlApprovalRepository

variable (collate : Str → Str)

def key (row : ApprovalRow) : Str × Str := (collate row.tenantGid, collate row.approvalId)

/-- The row that `INSERT` stores. -/
def row (request : ApprovalRequest) : Except ApprovalError ApprovalRow := do
  let tenantGid ← fitColumn 64 request.tenantGid
  let approvalId ← fitColumn 64 request.approvalId
  let subjectRef ← fitColumn 191 request.subjectRef
  let requesterGid ← fitColumn 64 request.requesterGid
  let status ← fitColumn 32 request.status
  return {
    tenantGid, approvalId, subjectRef, requesterGid, status
    expectedState := pending
    requestJson :=
      { resourceRef := request.resourceRef
        revision := request.revision
        contentHash := request.contentHash
        reason := request.reason
        approverIds := request.approverIds }
    decisionJson := none
    createdAt := request.createdAt
    updatedAt := request.updatedAt }

def add (repository : SqlApprovalRepository) (request : ApprovalRequest) :
    Except ApprovalError SqlApprovalRepository := do
  let row ← row request
  match Rows.insert (fun r s => key collate r == key collate s) row repository.rows with
  | none => .error .integrityError
  | some rows => .ok { rows }

def get (repository : SqlApprovalRepository) (tenantGid approvalId : Str) : Option ApprovalRequest :=
  (KeyedRows.lookup (key collate) (collate tenantGid, collate approvalId) repository.rows).map
    (·.request)

/-- What the `UPDATE` of `transition` sets. -/
def setDecision (t : Transition) (now : Int) (row : ApprovalRow) : ApprovalRow :=
  { row with status := t.targetState
             decisionJson := some { actorGid := t.actorGid, reason := t.reason }
             updatedAt := now }

/-- Its `WHERE`. -/
def selected (t : Transition) (row : ApprovalRow) : Bool :=
  key collate row == (collate t.tenantGid, collate t.approvalId) &&
    collate row.status == collate t.expectedState

/-- `transition`. `rowcount` counts the rows that the `UPDATE` changes. -/
def transition (repository : SqlApprovalRepository) (t : Transition) (now : Int) :
    Except ApprovalError (ApprovalRequest × Option SqlApprovalRepository) :=
  match repository.get collate t.tenantGid t.approvalId with
  | none => .error notFound
  | some current =>
    if t.idempotentTarget ∧ current.status = t.targetState then .ok (current, none)
    else if current.status ≠ t.expectedState then
      .error (stateConflict current.status t.expectedState)
    else if repository.rows.countP
        (fun row => selected collate t row && setDecision t now row != row) ≠ 1 then
      .error (.businessError "state_conflict" "Approval state changed concurrently.".toList)
    else
      .ok (current.moved t.targetState t.reason t.actorGid now,
        some { rows := Rows.update (selected collate t) (setDecision t now) repository.rows })

end SqlApprovalRepository

/-! ## One request at a time -/

section

variable {ρ : Type} (draws : Draws) (add : ρ → ApprovalRequest → Except ApprovalError ρ)
  (get : ρ → Str → Str → Option ApprovalRequest)
  (transition : ρ → Transition → Int → Except ApprovalError (ApprovalRequest × Option ρ))

/-- A repository answers a request. `transition` reads the clock when it writes. -/
def answerRequest (r : ApprovalAction) (s : ApprovalState ρ) :
    Except ApprovalError r.Answer × ApprovalState ρ :=
  match r with
  | .now => (.ok (draws.times s.readings), { s with readings := s.readings + 1 })
  | .uuid => (.ok (draws.uuids s.identifiers), { s with identifiers := s.identifiers + 1 })
  | .add request =>
    match add s.repository request with
    | .ok repository => (.ok (), { s with repository })
    | .error e => (.error e, s)
  | .get tenantGid approvalId => (.ok (get s.repository tenantGid approvalId), s)
  | .transition t =>
    match transition s.repository t (draws.times s.readings) with
    | .ok (request, none) => (.ok request, s)
    | .ok (request, some repository) =>
      (.ok request, { s with repository, readings := s.readings + 1 })
    | .error e => (.error e, s)

end

/-! ## The service -/

abbrev ApprovalProgram := Program ApprovalAction.Answer ApprovalError

section

variable (str : Json → Str)

/-- `_tenant`. -/
def tenantOf (tenantGid : Str) : Except ApprovalError Str :=
  if strip tenantGid = [] then
    .error (.businessError "tenant_required" "An authenticated tenant is required.".toList)
  else .ok (strip tenantGid)

def isHexLower (c : Char) : Bool := c.isDigit || ('a' ≤ c && c ≤ 'f')

/-- `_DIGEST_RE.fullmatch`. -/
def isDigest (s : Str) : Bool :=
  decide ("sha256:".toList <+: s) && (s.drop 7).all isHexLower && decide (s.length = 71)

/-- What a `for` loop over a value yields. -/
def iterate : Json → Except ApprovalError (List Json)
  | .arr items => .ok items
  | .str s => .ok (s.map fun c => .str [c])
  | .obj fields => .ok (fields.map fun f => .str f.1)
  | _ => .error .typeError

/-- `str(value)` of a string is the string. -/
def printed : Json → Str
  | .str s => s
  | v => str v

def requiredFields : List String :=
  ["subject_ref", "resource_ref", "revision", "content_hash", "reason", "approver_ids"]

def incomplete : ApprovalError :=
  .businessError "validation_failed" "Approval request fields are incomplete.".toList

/-- The checks of `create`, and the distinct approvers in their order. -/
def checkedApprovers (payload : List (Str × Json)) : Except ApprovalError (List Str) := do
  if ∃ field ∈ requiredFields, (Json.getD payload field).truthy = false then
    .error incomplete
  else if ¬ isDigest (printed str (Json.getD payload "content_hash")) then
    .error (.businessError "validation_failed"
      "Approval content_hash must be an exact SHA-256 digest.".toList)
  else
    let items ← iterate (Json.getD payload "approver_ids")
    let approvers := ((items.filter (·.truthy)).map (printed str)).eraseDups
    if approvers = [] then
      .error (.businessError "validation_failed" "At least one approver is required.".toList)
    else .ok approvers

namespace ApprovalService

def create (tenantGid requesterGid : Str) (payload : List (Str × Json)) :
    ApprovalProgram ApprovalRequest := do
  let tenantGid ← lift (tenantOf tenantGid)
  let approverIds ← lift (checkedApprovers str payload)
  let now ← request ApprovalAction.now
  let uuid ← request ApprovalAction.uuid
  let approval : ApprovalRequest :=
    { tenantGid
      approvalId := "apr_".toList ++ uuid
      subjectRef := printed str (Json.getD payload "subject_ref")
      requesterGid
      resourceRef := printed str (Json.getD payload "resource_ref")
      revision := printed str (Json.getD payload "revision")
      contentHash := printed str (Json.getD payload "content_hash")
      reason := printed str (Json.getD payload "reason")
      approverIds
      status := pending
      decisionReason := none
      decidedBy := none
      createdAt := now
      updatedAt := now }
  request (ApprovalAction.add approval)
  return approval

def get (tenantGid approvalId : Str) : ApprovalProgram ApprovalRequest := do
  let tenantGid ← lift (tenantOf tenantGid)
  match ← request (ApprovalAction.get tenantGid approvalId) with
  | some approval => return approval
  | none => raise notFound

def decide (tenantGid approvalId expectedState actorGid decision reason : Str) :
    ApprovalProgram ApprovalRequest := do
  let current ← get tenantGid approvalId
  if actorGid ∉ current.approverIds then
    raise (.businessError "permission_denied" "Actor is not an approval participant.".toList)
  else if decision ∉ [approved, rejected] then
    raise (.businessError "validation_failed" "Decision must be approved or rejected.".toList)
  else
    let tenantGid ← lift (tenantOf tenantGid)
    request (ApprovalAction.transition
      { tenantGid, approvalId, expectedState, targetState := decision, actorGid
        reason := some reason, idempotentTarget := false })

def cancel (tenantGid approvalId expectedState actorGid : Str) : ApprovalProgram ApprovalRequest := do
  let tenantGid ← lift (tenantOf tenantGid)
  request (ApprovalAction.transition
    { tenantGid, approvalId, expectedState, targetState := cancelled, actorGid
      reason := some "Cancelled by the owning workflow.".toList, idempotentTarget := true })

end ApprovalService

inductive ApprovalCall where
  | create (tenantGid requesterGid : Str) (payload : List (Str × Json))
  | get (tenantGid approvalId : Str)
  | decide (tenantGid approvalId expectedState actorGid decision reason : Str)
  | cancel (tenantGid approvalId expectedState actorGid : Str)

def runApproval : ApprovalCall → ApprovalProgram ApprovalRequest
  | .create tenantGid requesterGid payload => ApprovalService.create str tenantGid requesterGid payload
  | .get tenantGid approvalId => ApprovalService.get tenantGid approvalId
  | .decide tenantGid approvalId expectedState actorGid decision reason =>
    ApprovalService.decide tenantGid approvalId expectedState actorGid decision reason
  | .cancel tenantGid approvalId expectedState actorGid =>
    ApprovalService.cancel tenantGid approvalId expectedState actorGid

end

end Ai00.Base
