import Ai00.Craft.Fork

/-! # Change proposals

A personal space proposes the members in which one of its versions differs from the team version
it was forked from. A proposal is submitted, its components are reviewed, and each accepted one
is applied to the head of the team space by a call of its own. Every call is one transaction that
looks in the ledger of operations first: under the same key it gives back what was recorded there.
-/

namespace Ai00.Craft

inductive ProposalError where
  | proposalNotFound
  | proposalStateInvalid
  | proposalNotWithdrawable
  | dependencyClosureNotAccepted
  | lineageResolutionFailed
  | teamHeadAdvanced
  | idempotencyConflict
  | operationNotFound
  | diffSelectionInvalid
  | spaceNotFound
  | resourceVersionConflict
  | privateExportInvalid
  /-- A `KeyError` of Python. -/
  | keyError

/-- `if not …: raise ProposalError(…)`. -/
def orRaise (p : Prop) [Decidable p] (error : ProposalError) : Except ProposalError Unit :=
  if p then .ok () else .error error

@[simp] theorem orRaise_eq_ok {p : Prop} [Decidable p] {error : ProposalError} {u : Unit} :
    orRaise p error = .ok u ↔ p := by
  unfold orRaise
  split_ifs with h <;> simp [h]

/-! ## Proposals -/

inductive ReviewStatus where
  | draft
  | submitted
  | reviewing
  | accepted
  | partiallyAccepted
  | rejected
  | withdrawn
  | cancelled
  | superseded
  deriving DecidableEq

def ReviewStatus.text : ReviewStatus → Str
  | .draft => "draft".toList
  | .submitted => "submitted".toList
  | .reviewing => "reviewing".toList
  | .accepted => "accepted".toList
  | .partiallyAccepted => "partially_accepted".toList
  | .rejected => "rejected".toList
  | .withdrawn => "withdrawn".toList
  | .cancelled => "cancelled".toList
  | .superseded => "superseded".toList

inductive ApplyStatus where
  | notStarted
  | applying
  | partiallyApplied
  | applied
  | applyFailed
  | reconciling
  deriving DecidableEq

inductive Decision where
  | accepted
  | rejected
  deriving DecidableEq

def Decision.text : Decision → Str
  | .accepted => "accepted".toList
  | .rejected => "rejected".toList

/-- `None` where the value is none of the two. -/
def Decision.ofText? (s : Str) : Option Decision :=
  if s = "accepted".toList then some .accepted
  else if s = "rejected".toList then some .rejected
  else none

/-- `payload`: a member in the base version, the personal version and the team head. -/
structure Payload where
  logicalGid : Gid
  base : Option Member
  ours : Option Member
  theirs : Option Member
  conflict : Bool
  deriving DecidableEq

structure Component where
  componentGid : Gid
  unitKind : MemberKind
  payload : Payload
  dependencies : List Gid
  deriving DecidableEq

def Component.key (c : Component) : MemberKey := ⟨c.unitKind, c.payload.logicalGid⟩

/-- `apply_outcome`; its `status` is always `applied`. -/
structure ApplyOutcome where
  outcomeHash : Str
  teamHeadVersion : Nat
  deriving DecidableEq

/-- A row of `change_proposal_units`. -/
structure ProposalUnit extends Component where
  unitGid : Gid
  reviewDecision : Option Decision := none
  applyOutcome : Option ApplyOutcome := none
  deriving DecidableEq

/-- A row of `change_proposals` with its units, ordered by gid. -/
structure Proposal where
  gid : Gid
  repositoryGid : Gid
  personalSpaceGid : Gid
  personalVersionGid : Gid
  teamBaseVersionGid : Gid
  diffHash : Str
  reviewStatus : ReviewStatus := .draft
  applyStatus : ApplyStatus := .notStarted
  rowVersion : Nat := 1
  createdBy : Gid
  units : List ProposalUnit
  deriving DecidableEq

def ReviewStatus.terminal : List ReviewStatus := [.rejected, .withdrawn, .cancelled, .superseded]

def Proposal.isTerminal (p : Proposal) : Bool :=
  p.applyStatus == .applied || decide (p.reviewStatus ∈ ReviewStatus.terminal)

/-- What `_load` returns. -/
structure ProposalView where
  proposal : Proposal
  isTerminal : Bool
  deriving DecidableEq

/-- An item of a repository diff. -/
structure DiffItem where
  key : MemberKey
  base : Option Member
  ours : Option Member
  theirs : Option Member
  conflict : Bool
  deriving DecidableEq

/-- `outcome_json`. -/
inductive Outcome where
  | repository (repositoryGid teamSpaceGid headGid : Gid)
  | version (versionGid spaceGid : Gid) (versionKind manifestHash : Str)
  | proposal (view : ProposalView)
  | diff (operationGid : Gid) (resultHash : Str) (items : List DiffItem)
  | sync (operationGid personalSpaceGid : Gid) (rowVersion : Nat)
  deriving DecidableEq

/-- A row of `operation_ledger`; it is running until it has an outcome. -/
structure LedgerRow where
  gid : Gid
  tenantGid : Gid
  operationKind : Str
  idempotencyKey : Str
  requestHash : Str
  outcome : Option Outcome := none
  deriving DecidableEq

/-- A row of `fork_plans` with its workflow's actor and its personal target. -/
structure ForkPlan where
  gid : Gid
  workflowGid : Gid
  tenantGid : Gid
  actorGid : Gid
  sourceVersionGid : Gid
  targetProjectGid : Gid
  forkDepth : ForkDepth
  planHash : Str
  allowedDecisions : Json
  expiresAt : Nat
  /-- `target_repository_gid` and `expected_target_slot` of the row of `personal_fork_targets`. -/
  personalTarget : Option (Gid × Int) := none
  deriving DecidableEq

inductive ForkStep where
  | team
  | personal
  deriving DecidableEq

/-- A row of `fork_runs`, with the space and the content hash of its outcome. -/
structure ForkRun where
  gid : Gid
  workflowGid : Gid
  planGid : Gid
  stepKind : ForkStep
  idempotencyKey : Str
  requestHash : Str
  repositoryGid : Gid
  spaceGid : Gid
  contentHash : Str

/-- `source` of an import unit. -/
inductive ImportSource where
  | node (nodeGid : Str) (parentGid : Option Str) (nodeType position name : Str)
  | binding (bindingGid nodeGid : Str) (occurrenceGid : Gid) (role : Str)

structure ImportUnit where
  unitKey : Str
  source : ImportSource
  dependencies : List Str

/-- `outcome_json` of an import: the preview until it is applied. -/
inductive ImportOutcome where
  | previewed (expectedPersonalHead : Nat) (units : List ImportUnit)
  | applied (rowVersion importedUnits : Nat)

/-- A row of `personal_import_operations`. -/
structure PersonalImport where
  gid : Gid
  personalSpaceGid : Gid
  sourceExportRefHash : Str
  sourceContentHash : Str
  idempotencyKey : Str
  outcome : ImportOutcome

structure Db extends Store where
  proposals : List Proposal := []
  ledger : List LedgerRow := []
  forkPlans : List ForkPlan := []
  forkRuns : List ForkRun := []
  imports : List PersonalImport := []

/-- The database and the last number `next_gid` gave out. -/
structure CraftWorld where
  db : Db
  issued : Gid := 0

/-! ## JSON texts that are hashed -/

def Payload.json (p : Payload) : Json :=
  .obj [("base".toList, optJson Member.json p.base), ("conflict".toList, .bool p.conflict),
    ("logical_gid".toList, gidJson p.logicalGid), ("ours".toList, optJson Member.json p.ours),
    ("theirs".toList, optJson Member.json p.theirs)]

def Component.json (c : Component) : Json :=
  .obj [("component_gid".toList, gidJson c.componentGid),
    ("dependencies".toList, .arr (c.dependencies.map gidJson)),
    ("payload".toList, c.payload.json), ("unit_kind".toList, .str c.unitKind.text)]

def ApplyOutcome.json (o : ApplyOutcome) : Json :=
  .obj [("outcome_hash".toList, .str o.outcomeHash), ("status".toList, .str "applied".toList),
    ("team_head_version".toList, .int o.teamHeadVersion)]

def ProposalUnit.json (u : ProposalUnit) : Json :=
  .obj [("apply_outcome".toList, optJson ApplyOutcome.json u.applyOutcome),
    ("component_gid".toList, gidJson u.componentGid),
    ("dependencies".toList, .arr (u.dependencies.map gidJson)),
    ("payload".toList, u.payload.json),
    ("review_decision".toList, optJson (fun d : Decision => .str d.text) u.reviewDecision),
    ("unit_gid".toList, gidJson u.unitGid), ("unit_kind".toList, .str u.unitKind.text)]

/-! ## The differences that are proposed -/

/-- The components of the members whose value in `ours` is not the one in `base`, numbered from
`gid` on. -/
def diffComponents (base ours theirs : List Member) : List MemberKey → Gid → List Component
  | [], _ => []
  | key :: keys, gid =>
    let before := member? key base
    let after := member? key ours
    let current := member? key theirs
    if before = after then diffComponents base ours theirs keys gid
    else
      ⟨gid, key.kind, ⟨key.logicalGid, before, after, current,
        decide (current ≠ before ∧ current ≠ after)⟩, []⟩
        :: diffComponents base ours theirs keys (gid + 1)

def componentByMember (components : List Component) (key : MemberKey) : Option Gid :=
  (components.find? (·.key == key)).map Component.componentGid

def truthy (gid : Option Gid) : Option Gid := gid.filter (fun g => decide (g ≠ 0))

/-- The node a component's new value hangs off: the parent of a node, the source of a binding. -/
def dependencyOf (t : Store) (c : Component) : Option MemberKey :=
  match c.payload.ours with
  | none => none
  | some ours => match c.unitKind with
    | .node => do
      let revision ← (truthy ours.nodeRevisionGid).bind t.nodeRevision?
      (truthy revision.parentNodeGid).map (⟨.node, ·⟩)
    | .binding => do
      let revision ← (truthy ours.bindingRevisionGid).bind t.bindingRevision?
      some ⟨.node, revision.sourceNodeGid⟩
    | .vpps => none

def withDependencies (t : Store) (components : List Component) : List Component :=
  components.map (fun c => { c with
    dependencies := ((dependencyOf t c).bind (componentByMember components)).toList })

/-- `_resolve_components`; `gid` is the first number for a component. -/
def resolveComponents (t : Store) (repositoryGid personalSpaceGid personalVersionGid
    teamBaseVersionGid actorGid : Gid) (gid : Gid) : Except ProposalError (List Component) := do
  let space := t.spaces.find? (fun s => s.gid == personalSpaceGid &&
    s.repositoryGid == repositoryGid && s.kind == .managedPersonal &&
    s.ownerUserGid == some actorGid && !s.deleted)
  orRaise (space.bind Space.forkBaseVersionGid = some teamBaseVersionGid) .lineageResolutionFailed
  let base := t.versionMembers teamBaseVersionGid
  let ours := t.versionMembers personalVersionGid
  match t.teamHead? repositoryGid with
  | none => throw .lineageResolutionFailed
  | some head =>
    return withDependencies t
      (diffComponents base ours head.members (sortedKeys (base ++ ours)) gid)

/-! ## The ledger -/

/-- Who calls, for which tenant, and under which idempotency key. -/
structure Caller where
  tenantGid : Gid
  actorGid : Gid
  idempotencyKey : Str

def LedgerRow.isFor (tenantGid : Gid) (operationKind idempotencyKey : Str) (r : LedgerRow) : Bool :=
  r.tenantGid == tenantGid && r.operationKind == operationKind &&
    r.idempotencyKey == idempotencyKey

namespace CraftWorld

def updateProposal (w : CraftWorld) (gid : Gid) (f : Proposal → Proposal) : CraftWorld :=
  { w with db.proposals := Rows.update (·.gid == gid) f w.db.proposals }

section

variable (hash : Json → Str)

/-- `_begin`: the outcome on record, or the gid of a new running row. -/
def begin (w : CraftWorld) (caller : Caller) (kind : Str) (request : Json) :
    Except ProposalError (Option Outcome × Option Gid × CraftWorld) :=
  let digest := (hash request).drop 7
  match w.db.ledger.find? (LedgerRow.isFor caller.tenantGid kind caller.idempotencyKey) with
  | some old => do
    orRaise (old.requestHash = digest) .idempotencyConflict
    return (old.outcome, none, w)
  | none =>
    let gid := w.issued + 1
    let row : LedgerRow := ⟨gid, caller.tenantGid, kind, caller.idempotencyKey, digest, none⟩
    .ok (none, some gid, { db := { w.db with ledger := w.db.ledger ++ [row] }, issued := gid })

def complete (w : CraftWorld) (gid : Option Gid) (outcome : Outcome) : CraftWorld :=
  let completed := fun r : LedgerRow => { r with outcome := some outcome }
  { w with db.ledger := Rows.update (fun r => some r.gid == gid) completed w.db.ledger }

def ledgered (w : CraftWorld) (caller : Caller) (kind : Str) (request : Json)
    (effect : CraftWorld → Except ProposalError (Outcome × CraftWorld)) :
    Except ProposalError (Outcome × CraftWorld) := do
  let (replay, ledger, w) ← w.begin hash caller kind request
  match replay with
  | some outcome => return (outcome, w)
  | none =>
    let (outcome, w) ← effect w
    return (outcome, w.complete ledger outcome)

end

def load (w : CraftWorld) (gid : Gid) : Except ProposalError Proposal :=
  match w.db.proposals.find? (·.gid == gid) with
  | none => .error .proposalNotFound
  | some p => .ok p

/-- The proposal as it is returned and recorded. -/
def view (w : CraftWorld) (gid : Gid) : Except ProposalError (Outcome × CraftWorld) := do
  let p ← w.load gid
  return (.proposal ⟨p, p.isTerminal⟩, w)

/-- The repository of a proposal is the tenant's. -/
def owns (w : CraftWorld) (gid tenantGid : Gid) : Bool :=
  w.db.proposals.any (fun p => p.gid == gid && w.db.repositories.any (fun r =>
    r.gid == p.repositoryGid && r.tenantGid == tenantGid && !r.deleted))

def authorize (w : CraftWorld) (gid tenantGid : Gid) : Except ProposalError Unit :=
  orRaise (w.owns gid tenantGid) .proposalNotFound

end CraftWorld

/-! ## What is written to a proposal -/

namespace Proposal

/-- `_status`. -/
def moved (target : ReviewStatus) (p : Proposal) : Proposal :=
  { p with reviewStatus := target, rowVersion := p.rowVersion + 1 }

/-- What a unit's decision is under some new ones. -/
def combined (decisions : List (Gid × Str)) (u : ProposalUnit) : Option Decision :=
  match decisions.find? (·.1 == u.componentGid) with
  | none => u.reviewDecision
  | some (_, value) => Decision.ofText? value

def combinedAt (p : Proposal) (decisions : List (Gid × Str)) (componentGid : Gid) :
    Option Decision :=
  (p.units.find? (·.componentGid == componentGid)).bind (combined decisions)

def reviewedStatus (values : List (Option Decision)) : ReviewStatus :=
  if values ≠ [] ∧ ∀ v ∈ values, v = some .accepted then .accepted
  else if values ≠ [] ∧ ∀ v ∈ values, v = some .rejected then .rejected
  else .partiallyAccepted

/-- `review`, after its checks. -/
def reviewed (decisions : List (Gid × Str)) (p : Proposal) : Proposal :=
  { p with
    units := p.units.map (fun u => { u with reviewDecision := combined decisions u })
    reviewStatus := reviewedStatus (p.units.map (combined decisions))
    rowVersion := p.rowVersion + 1 }

def outcomeOf (p : Proposal) (componentGid : Gid) : Option ApplyOutcome :=
  (p.units.find? (·.componentGid == componentGid)).bind ProposalUnit.applyOutcome

def recorded (unitGid : Gid) (outcome : ApplyOutcome) (p : Proposal) : Proposal :=
  { p with units :=
      Rows.update (·.unitGid == unitGid) (fun u => { u with applyOutcome := some outcome }) p.units }

/-- The apply status after a component is applied. -/
def settled (p : Proposal) : Proposal :=
  { p with
    applyStatus :=
      if ∀ u ∈ p.units, u.reviewDecision = some .accepted → u.applyOutcome.isSome then .applied
      else .partiallyApplied
    rowVersion := p.rowVersion + 1 }

end Proposal

/-! ## The calls -/

namespace CraftWorld

variable (hash : Json → Str)

/-- The units of some components; a conflict takes a number of its own. -/
def unitsOf : List Component → Gid → List ProposalUnit
  | [], _ => []
  | c :: components, gid =>
    { toComponent := c, unitGid := gid }
      :: unitsOf components (if c.payload.conflict then gid + 2 else gid + 1)

/-- `create_proposal` between `_begin` and `_complete`. -/
def createProposalBody (actorGid gid repositoryGid personalSpaceGid personalVersionGid
    teamBaseVersionGid : Gid) (w : CraftWorld) : Except ProposalError (Outcome × CraftWorld) := do
  let first := w.issued + 1
  let components ← resolveComponents w.db.toStore repositoryGid personalSpaceGid
    personalVersionGid teamBaseVersionGid actorGid first
  let proposal : Proposal := {
    gid, repositoryGid, personalSpaceGid, personalVersionGid, teamBaseVersionGid
    diffHash := hash (.arr (components.map Component.json))
    createdBy := actorGid
    units := unitsOf components (first + components.length) }
  view { db := { w.db with proposals := w.db.proposals ++ [proposal] }
         issued := first + 3 * components.length } gid

def createProposal (w : CraftWorld) (caller : Caller) (repositoryGid personalSpaceGid
    personalVersionGid teamBaseVersionGid : Gid) : Except ProposalError (Outcome × CraftWorld) :=
  let gid := w.issued + 1
  ledgered hash { w with issued := gid } caller "proposal.create".toList
    (.obj [("personal_space_gid".toList, gidJson personalSpaceGid),
      ("personal_version_gid".toList, gidJson personalVersionGid),
      ("repository_gid".toList, gidJson repositoryGid),
      ("team_base_version_gid".toList, gidJson teamBaseVersionGid)])
    (createProposalBody hash caller.actorGid gid repositoryGid personalSpaceGid personalVersionGid
      teamBaseVersionGid)

/-- `_status` between `_begin` and `_complete`. -/
def statusBody (gid : Gid) (allowed : List ReviewStatus) (target : ReviewStatus) (w : CraftWorld) :
    Except ProposalError (Outcome × CraftWorld) := do
  let p ← w.load gid
  orRaise (p.reviewStatus ∈ allowed) .proposalStateInvalid
  (w.updateProposal gid (Proposal.moved target)).view gid

def status (w : CraftWorld) (caller : Caller) (gid : Gid) (allowed : List ReviewStatus)
    (target : ReviewStatus) : Except ProposalError (Outcome × CraftWorld) := do
  w.authorize gid caller.tenantGid
  ledgered hash w caller ("proposal.".toList ++ target.text)
    (.obj [("proposal_gid".toList, gidJson gid), ("target".toList, .str target.text)])
    (statusBody gid allowed target)

def submit (w : CraftWorld) (caller : Caller) (gid : Gid) :
    Except ProposalError (Outcome × CraftWorld) :=
  status hash w caller gid [.draft] .submitted

def withdraw (w : CraftWorld) (caller : Caller) (gid : Gid) :
    Except ProposalError (Outcome × CraftWorld) :=
  match status hash w caller gid [.draft, .submitted, .reviewing] .withdrawn with
  | .error .proposalStateInvalid => .error .proposalNotWithdrawable
  | result => result

def cancel (w : CraftWorld) (caller : Caller) (gid : Gid) :
    Except ProposalError (Outcome × CraftWorld) :=
  status hash w caller gid [.draft, .submitted, .reviewing] .cancelled

def supersede (w : CraftWorld) (caller : Caller) (gid : Gid) :
    Except ProposalError (Outcome × CraftWorld) :=
  status hash w caller gid [.draft, .submitted, .reviewing, .accepted, .partiallyAccepted]
    .superseded

/-- `review` between `_begin` and `_complete`. -/
def reviewBody (gid : Gid) (decisions : List (Gid × Str)) (w : CraftWorld) :
    Except ProposalError (Outcome × CraftWorld) := do
  let p ← w.load gid
  orRaise (p.reviewStatus ∈ [ReviewStatus.submitted, .reviewing]) .proposalStateInvalid
  orRaise (∀ d ∈ decisions, d.1 ∈ p.units.map (·.componentGid) ∧ (Decision.ofText? d.2).isSome)
    .proposalStateInvalid
  orRaise (∀ u ∈ p.units, Proposal.combined decisions u = some .accepted →
    ∀ dep ∈ u.dependencies, p.combinedAt decisions dep = some .accepted)
    .dependencyClosureNotAccepted
  (w.updateProposal gid (Proposal.reviewed decisions)).view gid

def review (w : CraftWorld) (caller : Caller) (gid : Gid) (decisions : List (Gid × Str)) :
    Except ProposalError (Outcome × CraftWorld) := do
  w.authorize gid caller.tenantGid
  ledgered hash w caller "proposal.review".toList
    (.obj [("decisions".toList, .obj (decisions.map (fun d => (gidText d.1, .str d.2)))),
      ("proposal_gid".toList, gidJson gid)])
    (reviewBody gid decisions)

/-- The row a component writes to the head of the team space. -/
def writtenMember (unit : ProposalUnit) : Member :=
  { unit.payload.ours.getD (tombstone unit.key) with
    kind := unit.unitKind
    logicalGid := unit.payload.logicalGid }

/-- Writes a component to the head of the team space and records its outcome. -/
def applyUnit (w : CraftWorld) (p : Proposal) (unit : ProposalUnit) :
    Except ProposalError CraftWorld :=
  match w.db.teamHead? p.repositoryGid with
  | none => .error .teamHeadAdvanced
  | some head => do
    orRaise (member? unit.key head.members = unit.payload.theirs) .teamHeadAdvanced
    let outcome : ApplyOutcome := ⟨hash unit.json, head.rowVersion + 1⟩
    let store := w.db.updateHead head.gid (fun h => { h with
      members := setMember (writtenMember unit) h.members
      rowVersion := h.rowVersion + 1 })
    return updateProposal { w with db.toStore := store } p.gid
      (Proposal.recorded unit.unitGid outcome)

/-- `apply_component` between `_begin` and `_complete`. -/
def applyComponentBody (gid componentGid : Gid) (w : CraftWorld) :
    Except ProposalError (Outcome × CraftWorld) := do
  let p ← w.load gid
  match p.units.find? (·.componentGid == componentGid) with
  | none => throw .proposalStateInvalid
  | some unit =>
    orRaise (p.reviewStatus ∈ [ReviewStatus.accepted, .partiallyAccepted] ∧
      unit.reviewDecision = some .accepted) .proposalStateInvalid
    orRaise (∀ dep ∈ unit.dependencies, (p.outcomeOf dep).isSome) .dependencyClosureNotAccepted
    let w ← if unit.applyOutcome.isNone then applyUnit hash w p unit else .ok w
    (w.updateProposal gid Proposal.settled).view gid

def applyComponent (w : CraftWorld) (caller : Caller) (gid componentGid : Gid) :
    Except ProposalError (Outcome × CraftWorld) := do
  w.authorize gid caller.tenantGid
  ledgered hash w caller "proposal.apply".toList
    (.obj [("component_gid".toList, gidJson componentGid), ("proposal_gid".toList, gidJson gid)])
    (applyComponentBody hash gid componentGid)

end CraftWorld

/-- The calls on proposals. -/
inductive ProposalCall where
  | createProposal (repositoryGid personalSpaceGid personalVersionGid teamBaseVersionGid : Gid)
  | submit (gid : Gid)
  | withdraw (gid : Gid)
  | cancel (gid : Gid)
  | supersede (gid : Gid)
  | review (gid : Gid) (decisions : List (Gid × Str))
  | applyComponent (gid componentGid : Gid)

namespace CraftWorld

variable (hash : Json → Str)

def call (w : CraftWorld) (caller : Caller) :
    ProposalCall → Except ProposalError (Outcome × CraftWorld)
  | .createProposal repository space version base =>
    createProposal hash w caller repository space version base
  | .submit gid => submit hash w caller gid
  | .withdraw gid => withdraw hash w caller gid
  | .cancel gid => cancel hash w caller gid
  | .supersede gid => supersede hash w caller gid
  | .review gid decisions => review hash w caller gid decisions
  | .applyComponent gid componentGid => applyComponent hash w caller gid componentGid

/-- One call as a transaction: where it raises, nothing is written. -/
def step (w : CraftWorld) (c : Caller × ProposalCall) : CraftWorld :=
  match call hash w c.1 c.2 with
  | .ok (_, w') => w'
  | .error _ => w

def run (w : CraftWorld) (calls : List (Caller × ProposalCall)) : CraftWorld :=
  calls.foldl (step hash) w

end CraftWorld

end Ai00.Craft
