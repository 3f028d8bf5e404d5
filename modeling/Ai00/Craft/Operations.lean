import Ai00.Craft.Collaboration

/-! # Operations on spaces

The operations that create spaces, write their heads or save versions of them: a repository is
created or forked, a personal space is forked, a version is saved, two versions are compared and
the result is taken over into a personal head, and a private export is imported into one.
Together with the calls on proposals they are the steps of `CraftWorld.spaceStep`.
-/

namespace Ai00.Craft

inductive RepositoryError where
  | versionKindInvalid
  | spaceNotFound
  | resourceVersionConflict
  | idempotencyConflict
  | operationInProgress
  | targetRepositoryExists
  /-- `uq_craft_bop_space_manifest`. -/
  | duplicateKey

def orFail {ε : Type} (p : Prop) [Decidable p] (error : ε) : Except ε Unit :=
  if p then .ok () else .error error

@[simp] theorem orFail_eq_ok {ε : Type} {p : Prop} [Decidable p] {error : ε} {u : Unit} :
    orFail p error = .ok u ↔ p := by
  unfold orFail
  split_ifs with h <;> simp [h]

namespace CraftWorld

variable (hash : Json → Str)

/-! ## Repositories and versions -/

/-- `_write`. -/
def write (w : CraftWorld) (tenantGid : Gid) (operation key : Str) (payload : Json)
    (effect : CraftWorld → Except RepositoryError (Outcome × CraftWorld)) :
    Except RepositoryError (Outcome × CraftWorld) :=
  let digest := (hash payload).drop 7
  match w.db.ledger.find? (LedgerRow.isFor tenantGid operation key) with
  | some prior => do
    orFail (prior.requestHash = digest) .idempotencyConflict
    match prior.outcome with
    | some outcome => return (outcome, w)
    | none => throw .operationInProgress
  | none => do
    let gid := w.issued + 1
    let row : LedgerRow := ⟨gid, tenantGid, operation, key, digest, none⟩
    let (outcome, w) ← effect
      { db := { w.db with ledger := w.db.ledger ++ [row] }, issued := gid }
    return (outcome, w.complete (some gid) outcome)

/-- `effect` of `create_repository`. -/
def createRepositoryEffect (projectGid tenantGid : Gid) (w : CraftWorld) :
    Except RepositoryError (Outcome × CraftWorld) := do
  orFail (∀ r ∈ w.db.repositories, ¬ (r.tenantGid = tenantGid ∧ r.projectGid = projectGid ∧
    r.deleted = false)) .targetRepositoryExists
  let repository := w.issued + 1
  let space := w.issued + 2
  let head := w.issued + 3
  return (.repository repository space head,
    { db := { w.db with
        repositories := w.db.repositories ++ [⟨repository, tenantGid, projectGid, false⟩]
        spaces := w.db.spaces ++ [⟨space, repository, tenantGid, .team, none, none, false⟩]
        heads := w.db.heads ++ [⟨head, space, tenantGid, 1, membersHash hash [], []⟩] }
      issued := head })

def createRepository (w : CraftWorld) (caller : Caller) (projectGid : Gid) :
    Except RepositoryError (Outcome × CraftWorld) :=
  write hash w caller.tenantGid "repository.create".toList caller.idempotencyKey
    (.obj [("actor_gid".toList, gidJson caller.actorGid),
      ("project_gid".toList, gidJson projectGid)])
    (createRepositoryEffect hash projectGid caller.tenantGid)

def versionKinds : List Str :=
  ["saved".toList, "frozen".toList, "fork_base".toList, "proposal_base".toList]

def manifestHash (contentHash : Str) (sourceRefs algorithmVersions : Json) : Str :=
  hash (.obj [("algorithm_versions".toList, algorithmVersions), ("head".toList, .str contentHash),
    ("source_refs".toList, sourceRefs)])

/-- `effect` of `save_space_version`. -/
def saveSpaceVersionEffect (spaceGid : Gid) (expectedHeadVersion : Nat) (versionKind : Str)
    (sourceRefs algorithmVersions : Json) (w : CraftWorld) :
    Except RepositoryError (Outcome × CraftWorld) :=
  let head := if w.db.spaces.any (fun s => s.gid == spaceGid && !s.deleted)
    then w.db.head? spaceGid else none
  match head with
  | none => .error .spaceNotFound
  | some head => do
    orFail (head.rowVersion = expectedHeadVersion) .resourceVersionConflict
    let gid := w.issued + 1
    let manifest := manifestHash hash head.contentHash sourceRefs algorithmVersions
    orFail (∀ v ∈ w.db.versions, ¬ (v.spaceGid = spaceGid ∧ v.manifestHash = manifest))
      .duplicateKey
    let members := head.members.insertionSort (fun a b => a.before b = true)
    let version : SpaceVersion := ⟨gid, spaceGid, head.tenantGid, versionKind, sourceRefs,
      algorithmVersions, manifest, members⟩
    return (.version gid spaceGid versionKind manifest,
      { db := { w.db with versions := w.db.versions ++ [version] }, issued := gid })

def saveSpaceVersion (w : CraftWorld) (caller : Caller) (spaceGid : Gid)
    (expectedHeadVersion : Nat) (versionKind : Str) (sourceRefs algorithmVersions : Json) :
    Except RepositoryError (Outcome × CraftWorld) := do
  orFail (versionKind ∈ versionKinds) .versionKindInvalid
  write hash w caller.tenantGid "space_version.save".toList caller.idempotencyKey
    (.obj [("algorithm_versions".toList, algorithmVersions),
      ("expected_head_version".toList, .int expectedHeadVersion),
      ("source_refs".toList, sourceRefs), ("space_gid".toList, gidJson spaceGid),
      ("version_kind".toList, .str versionKind)])
    (saveSpaceVersionEffect hash spaceGid expectedHeadVersion versionKind sourceRefs
      algorithmVersions)

/-! ## Forks -/

/-- The arguments of `apply_repository` and `apply_personal` besides the caller, and the time. -/
structure ForkRequest where
  previewGid : Gid
  planHash : Str
  allowedDecisions : Json
  expectedTargetSlot : Int
  now : Nat

def ForkRequest.json (r : ForkRequest) : Json :=
  .obj [("allowed_decisions".toList, r.allowedDecisions),
    ("expected_target_slot".toList, .int r.expectedTargetSlot),
    ("plan_hash".toList, .str r.planHash), ("preview_gid".toList, gidJson r.previewGid)]

def forkRun? (w : CraftWorld) (workflowGid : Gid) (step : ForkStep) (key : Str) : Option ForkRun :=
  w.db.forkRuns.find? (fun r =>
    r.workflowGid == workflowGid && r.stepKind == step && r.idempotencyKey == key)

def withSpace (t : Store) (space : Space) (head : SpaceHead) : Store :=
  { t with spaces := t.spaces ++ [space], heads := t.heads ++ [head] }

/-- `apply_repository`, where no run is on record. -/
def forkRepositoryBody (caller : Caller) (request : ForkRequest) (p : ForkPlan) (w : CraftWorld) :
    Except ForkError (ForkRun × CraftWorld) := do
  orFail (∀ r ∈ w.db.repositories, ¬ (r.tenantGid = caller.tenantGid ∧
    r.projectGid = p.targetProjectGid ∧ r.deleted = false)) .targetRepositoryExists
  orFail (w.db.versions.any (fun v => v.gid == p.sourceVersionGid &&
    v.tenantGid == caller.tenantGid && w.db.spaces.any (fun s => s.gid == v.spaceGid && !s.deleted)))
    .spaceVersionNotFound
  let run := w.issued + 1
  let repository := w.issued + 2
  let space := w.issued + 3
  let head := w.issued + 4
  let t := withSpace
    { w.db.toStore with
      repositories := w.db.repositories ++ [⟨repository, caller.tenantGid, p.targetProjectGid, false⟩] }
    ⟨space, repository, caller.tenantGid, .team, none, some p.sourceVersionGid, false⟩
    ⟨head, space, caller.tenantGid, 1, membersHash hash [], []⟩
  let (t, copy) ← copyVersion hash t p.sourceVersionGid repository space head p.forkDepth (head + 1)
  let row : ForkRun := ⟨run, p.workflowGid, p.gid, .team, caller.idempotencyKey,
    (hash request.json).drop 7, repository, space, membersHash hash (copy.members.map Member.ref)⟩
  return (row, { db := { w.db with toStore := t, forkRuns := w.db.forkRuns ++ [row] }
                 issued := head + copy.gids })

def applyRepository (w : CraftWorld) (caller : Caller) (request : ForkRequest) :
    Except ForkError (ForkRun × CraftWorld) :=
  match w.db.forkPlans.find? (fun p =>
    p.gid == request.previewGid && p.tenantGid == caller.tenantGid) with
  | none => .error .forkPreviewExpired
  | some p => do
    orFail (p.actorGid = caller.actorGid ∧ request.now < p.expiresAt) .forkPreviewExpired
    orFail (p.planHash = request.planHash ∧
      p.allowedDecisions.pyEq request.allowedDecisions = true) .forkPlanChanged
    match w.forkRun? p.workflowGid .team caller.idempotencyKey with
    | some old => do
      orFail (old.requestHash = (hash request.json).drop 7) .idempotencyConflict
      return (old, w)
    | none => forkRepositoryBody hash caller request p w

/-- The new personal head is filled; with the members taken and the number of gids. -/
def fillPersonal (t : Store) (p : ForkPlan) (repository space head : Gid) :
    Except ForkError (Store × List Member × Nat) := do
  match ← reuseVersion hash t p.sourceVersionGid repository p.tenantGid head p.forkDepth with
  | some (t, members) => return (t, members, 0)
  | none =>
    let (t, copy) ← copyVersion hash t p.sourceVersionGid repository space head p.forkDepth
      (head + 1)
    return (t, copy.members, copy.gids)

/-- `apply_personal`, where no run is on record. -/
def forkPersonalBody (caller : Caller) (request : ForkRequest) (p : ForkPlan) (repository : Gid)
    (w : CraftWorld) : Except ForkError (ForkRun × CraftWorld) := do
  orFail (∀ s ∈ w.db.spaces, ¬ (s.repositoryGid = repository ∧ s.kind = .managedPersonal ∧
    s.ownerUserGid = some caller.actorGid ∧ s.deleted = false)) .managedPersonalSpaceExists
  let run := w.issued + 1
  let space := w.issued + 2
  let head := w.issued + 3
  let t := withSpace w.db.toStore
    ⟨space, repository, p.tenantGid, .managedPersonal, some caller.actorGid,
      some p.sourceVersionGid, false⟩
    ⟨head, space, p.tenantGid, 1, membersHash hash [], []⟩
  let (t, members, gids) ← fillPersonal hash t p repository space head
  let row : ForkRun := ⟨run, p.workflowGid, p.gid, .personal, caller.idempotencyKey,
    (hash request.json).drop 7, repository, space, membersHash hash (members.map Member.ref)⟩
  return (row, { db := { w.db with toStore := t, forkRuns := w.db.forkRuns ++ [row] }
                 issued := head + gids })

def applyPersonal (w : CraftWorld) (caller : Caller) (request : ForkRequest) :
    Except ForkError (ForkRun × CraftWorld) :=
  match w.db.forkPlans.find? (fun p => p.gid == request.previewGid &&
    p.actorGid == caller.actorGid && p.personalTarget.isSome) with
  | none => .error .forkPreviewExpired
  | some p => match p.personalTarget with
    | none => .error .forkPreviewExpired
    | some (repository, slot) => do
      orFail (request.now < p.expiresAt) .forkPreviewExpired
      orFail (p.planHash = request.planHash ∧
        p.allowedDecisions.pyEq request.allowedDecisions = true ∧
        slot = request.expectedTargetSlot) .forkPlanChanged
      match w.forkRun? p.workflowGid .personal caller.idempotencyKey with
      | some old => do
        orFail (old.requestHash = (hash request.json).drop 7) .idempotencyConflict
        return (old, w)
      | none => forkPersonalBody hash caller request p repository w

/-! ## Comparing and synchronizing -/

/-- `members` of `start_diff`: the members of a version of the tenant. -/
def tenantMembers (t : Store) (tenantGid versionGid : Gid) : List Member :=
  if t.versions.any (fun v => v.gid == versionGid && v.tenantGid == tenantGid)
  then t.versionMembers versionGid else []

def diffItems (base ours theirs : List Member) : List DiffItem :=
  ((sortedKeys (base ++ ours ++ theirs)).filter
      (fun key => decide (member? key ours ≠ member? key theirs))).map
    (fun key =>
      let before := member? key base
      let mine := member? key ours
      let other := member? key theirs
      ⟨key, before, mine, other, decide (mine ≠ before ∧ other ≠ before)⟩)

def DiffItem.json (i : DiffItem) : Json :=
  .obj [("base".toList, optJson Member.json i.base), ("conflict".toList, .bool i.conflict),
    ("logical_gid".toList, gidJson i.key.logicalGid), ("member_kind".toList, .str i.key.kind.text),
    ("ours".toList, optJson Member.json i.ours), ("theirs".toList, optJson Member.json i.theirs)]

def diffKind : Str := "repository.diff".toList

def startDiff (w : CraftWorld) (caller : Caller) (baseVersionGid oursVersionGid
    theirsVersionGid : Gid) : Except ProposalError (Outcome × CraftWorld) :=
  let request : Json := .obj [("base".toList, gidJson baseVersionGid),
    ("ours".toList, gidJson oursVersionGid), ("theirs".toList, gidJson theirsVersionGid)]
  let digest := (hash request).drop 7
  match w.db.ledger.find? (LedgerRow.isFor caller.tenantGid diffKind caller.idempotencyKey) with
  | some old => do
    orRaise (old.requestHash = digest) .idempotencyConflict
    match old.outcome with
    | some outcome => return (outcome, w)
    | none => throw .keyError
  | none =>
    let items := diffItems (tenantMembers w.db.toStore caller.tenantGid baseVersionGid)
      (tenantMembers w.db.toStore caller.tenantGid oursVersionGid)
      (tenantMembers w.db.toStore caller.tenantGid theirsVersionGid)
    let gid := w.issued + 1
    let outcome := Outcome.diff gid (hash (.arr (items.map DiffItem.json))) items
    let row : LedgerRow :=
      ⟨gid, caller.tenantGid, diffKind, caller.idempotencyKey, digest, some outcome⟩
    .ok (outcome, { db := { w.db with ledger := w.db.ledger ++ [row] }, issued := gid })

def diffItems? (w : CraftWorld) (tenantGid operationGid : Gid) : Option (List DiffItem) := do
  let row ← w.db.ledger.find? (fun r =>
    r.gid == operationGid && r.tenantGid == tenantGid && r.operationKind == diffKind)
  match row.outcome with
  | some (.diff _ _ items) => some items
  | _ => none

/-- The row an item writes to the personal head. -/
def DiffItem.written (i : DiffItem) : Member :=
  { i.theirs.getD (tombstone i.key) with kind := i.key.kind, logicalGid := i.key.logicalGid }

def personalHead? (t : Store) (spaceGid tenantGid actorGid : Gid) : Option SpaceHead :=
  if t.spaces.any (fun s => s.gid == spaceGid && s.tenantGid == tenantGid &&
    s.ownerUserGid == some actorGid && s.kind == .managedPersonal && !s.deleted)
  then t.head? spaceGid else none

/-- `apply_sync` between `_begin` and `_complete`. -/
def applySyncBody (caller : Caller) (operationGid personalSpaceGid : Gid)
    (selectedKeys : List MemberKey) (expectedPersonalHead : Nat) (w : CraftWorld) :
    Except ProposalError (Outcome × CraftWorld) :=
  match w.diffItems? caller.tenantGid operationGid with
  | none => .error .operationNotFound
  | some items => do
    orRaise (∀ key ∈ selectedKeys, key ∈ items.map DiffItem.key) .diffSelectionInvalid
    match personalHead? w.db.toStore personalSpaceGid caller.tenantGid caller.actorGid with
    | none => throw .spaceNotFound
    | some head =>
      orRaise (head.rowVersion = expectedPersonalHead) .resourceVersionConflict
      let written := selectedKeys.filterMap (fun key =>
        (items.find? (·.key == key)).map DiffItem.written)
      let store := w.db.updateHead head.gid (fun h => { h with
        members := setMembers written h.members
        rowVersion := h.rowVersion + 1 })
      return (.sync operationGid personalSpaceGid (head.rowVersion + 1),
        { w with db.toStore := store })

def MemberKey.json (key : MemberKey) : Json :=
  .arr [.str key.kind.text, gidJson key.logicalGid]

def applySync (w : CraftWorld) (caller : Caller) (operationGid personalSpaceGid : Gid)
    (selectedKeys : List MemberKey) (expectedPersonalHead : Nat) :
    Except ProposalError (Outcome × CraftWorld) :=
  ledgered hash w caller "personal.sync".toList
    (.obj [("expected_personal_head".toList, .int expectedPersonalHead),
      ("operation_gid".toList, gidJson operationGid),
      ("selected_keys".toList, .arr (selectedKeys.map MemberKey.json))])
    (applySyncBody caller operationGid personalSpaceGid selectedKeys expectedPersonalHead)

/-! ## Private imports -/

/-- What an export resolves to: its claims and the nodes and bindings of its manifest. -/
structure ExportClaims where
  actorGid : Gid
  tenantGid : Gid
  targetPersonalSpaceGid : Gid
  targetRepositoryGid : Gid
  consumer : Str
  contentHash : Str
  sources : List ImportSource

def importConsumer : Str := "craft.bop.managed_personal_space.import.preview@1".toList

/-- `_claims`; `none` where the export does not resolve. -/
def checkClaims (claims : Option ExportClaims) (caller : Caller) (personalSpaceGid
    repositoryGid : Gid) : Except ProposalError ExportClaims :=
  match claims with
  | none => .error .privateExportInvalid
  | some claims => do
    orRaise (claims.actorGid = caller.actorGid ∧ claims.tenantGid = caller.tenantGid ∧
      claims.targetPersonalSpaceGid = personalSpaceGid ∧
      claims.targetRepositoryGid = repositoryGid ∧ claims.consumer = importConsumer)
      .privateExportInvalid
    return claims

def nodeKey (gid : Str) : Str := "node:".toList ++ gid

def ImportSource.unit (source : ImportSource) : ImportUnit :=
  match source with
  | .node gid parent _ _ _ =>
    ⟨nodeKey gid, source, ((parent.filter (fun p => decide (p ≠ []))).map nodeKey).toList⟩
  | .binding gid node _ _ => ⟨"binding:".toList ++ gid, source, [nodeKey node]⟩

def previewPrivateImport (w : CraftWorld) (caller : Caller) (exportRef : Str)
    (claims : Option ExportClaims) (personalSpaceGid repositoryGid : Gid)
    (expectedPersonalHead : Nat) : Except ProposalError (ImportOutcome × CraftWorld) := do
  let claims ← checkClaims claims caller personalSpaceGid repositoryGid
  let refHash := hash (.str exportRef)
  let gid := w.issued + 1
  match w.db.imports.find? (fun r =>
    r.personalSpaceGid == personalSpaceGid && r.idempotencyKey == caller.idempotencyKey) with
  | some old => do
    orRaise (old.sourceExportRefHash = refHash) .privateExportInvalid
    return (old.outcome, w)
  | none =>
    let outcome := ImportOutcome.previewed expectedPersonalHead (claims.sources.map ImportSource.unit)
    let row : PersonalImport :=
      ⟨gid, personalSpaceGid, refHash, claims.contentHash, caller.idempotencyKey, outcome⟩
    return (outcome, { db := { w.db with imports := w.db.imports ++ [row] }, issued := gid })

/-- The rows an import writes; `map` is `node_map`, the newest entry first. -/
structure Imported where
  map : List (Str × Gid) := []
  nodes : List Node := []
  nodeRevisions : List NodeRevision := []
  bindings : List Binding := []
  bindingRevisions : List BindingRevision := []
  members : List Member := []
  next : Gid

def Imported.find? (i : Imported) (gid : Str) : Option Gid :=
  (i.map.find? (·.1 == gid)).map Prod.snd

def orNone : Option Str → Str
  | none => "None".toList
  | some s => s

def importNode (repositoryGid : Gid) (i : Imported) : ImportSource → Imported
  | .node gid parent nodeType position name =>
    let node := i.next
    let revision := i.next + 1
    let map := (gid, node) :: i.map
    let properties : Json := .obj [("name".toList, .str name)]
    let content := hash (.obj [("order".toList, .str position),
      ("parent".toList, optJson Json.str parent), ("properties".toList, properties),
      ("type".toList, .str nodeType)])
    { i with
      map
      nodes := i.nodes ++ [⟨node, repositoryGid, node, none⟩]
      nodeRevisions := i.nodeRevisions ++ [⟨revision, node,
        ({ i with map } : Imported).find? (orNone parent), nodeType, position, properties, content,
        .arr []⟩]
      members := i.members ++
        [{ kind := .node, logicalGid := node, nodeRevisionGid := some revision }]
      next := i.next + 2 }
  | .binding .. => i

def importBinding (repositoryGid : Gid) (i : Imported) :
    ImportSource → Except ProposalError Imported
  | .binding gid node occurrence role =>
    match i.find? node with
    | none => .error .keyError
    | some sourceNode =>
      let binding := i.next
      let revision := i.next + 1
      let content := hash (.obj [("binding_gid".toList, .str gid),
        ("node_gid".toList, .str node), ("occurrence_gid".toList, gidJson occurrence),
        ("role".toList, .str role)])
      .ok { i with
        bindings := i.bindings ++ [⟨binding, repositoryGid, binding, none⟩]
        bindingRevisions := i.bindingRevisions ++ [⟨revision, binding, sourceNode,
          "simulation_occurrence".toList, occurrence, role, .obj [], content, .arr []⟩]
        members := i.members ++
          [{ kind := .binding, logicalGid := binding, bindingRevisionGid := some revision }]
        next := i.next + 2 }
  | .node .. => .ok i

/-- Nodes first, then bindings. -/
def importUnits (repositoryGid : Gid) (sources : List ImportSource) (first : Gid) :
    Except ProposalError Imported :=
  sources.foldlM (importBinding hash repositoryGid)
    (sources.foldl (importNode hash repositoryGid) { next := first })

/-- `units`: of a key that comes twice the last unit counts. -/
def unit? (units : List ImportUnit) (key : Str) : Option ImportUnit :=
  units.reverse.find? (·.unitKey == key)

def applyPrivateImport (w : CraftWorld) (caller : Caller) (previewGid : Gid) (exportRef : Str)
    (claims : Option ExportClaims) (personalSpaceGid repositoryGid : Gid)
    (selectedUnits : List Str) (expectedPersonalHead : Nat) :
    Except ProposalError (ImportOutcome × CraftWorld) := do
  let claims ← checkClaims claims caller personalSpaceGid repositoryGid
  match w.db.imports.find? (fun r =>
    r.gid == previewGid && r.personalSpaceGid == personalSpaceGid) with
  | none => throw .privateExportInvalid
  | some row => do
    orRaise (row.sourceExportRefHash = hash (.str exportRef) ∧
      row.sourceContentHash = claims.contentHash) .privateExportInvalid
    match row.outcome with
    | .applied .. => throw .keyError
    | .previewed previewedHead units => do
      orRaise (∀ key ∈ selectedUnits, (unit? units key).any (fun u =>
        u.dependencies.all (· ∈ selectedUnits))) .dependencyClosureNotAccepted
      let space := w.db.spaces.find? (fun s => s.gid == personalSpaceGid &&
        s.tenantGid == caller.tenantGid && s.ownerUserGid == some caller.actorGid && !s.deleted)
      match space.bind (fun s => (w.db.head? s.gid).map (s.repositoryGid, ·)) with
      | none => throw .spaceNotFound
      | some (repository, head) => do
        orRaise (repository = repositoryGid) .spaceNotFound
        orRaise (head.rowVersion = expectedPersonalHead ∧
          previewedHead = expectedPersonalHead) .resourceVersionConflict
        let sources := (units.filter (fun u => decide (u.unitKey ∈ selectedUnits))).map
          ImportUnit.source
        let i ← importUnits hash repositoryGid sources (w.issued + 1)
        let outcome := ImportOutcome.applied (head.rowVersion + 1) selectedUnits.dedup.length
        -- a plain `INSERT`: the gids are new, so no row is replaced
        let store := w.db.updateHead head.gid (fun h => { h with
          members := setMembers i.members h.members
          rowVersion := h.rowVersion + 1 })
        let applied := fun r : PersonalImport => { r with outcome := outcome }
        return (outcome,
          { db := { w.db with
              toStore := { store with
                nodes := store.nodes ++ i.nodes
                nodeRevisions := store.nodeRevisions ++ i.nodeRevisions
                bindings := store.bindings ++ i.bindings
                bindingRevisions := store.bindingRevisions ++ i.bindingRevisions }
              imports := Rows.update (·.gid == previewGid) applied w.db.imports }
            issued := i.next })

end CraftWorld

/-- The operations on spaces, with what their environment answers: the time, and what an export
resolves to. -/
inductive SpaceCall where
  | createRepository (projectGid : Gid)
  | applyRepository (request : CraftWorld.ForkRequest)
  | applyPersonal (request : CraftWorld.ForkRequest)
  | proposal (c : ProposalCall)
  | saveSpaceVersion (spaceGid : Gid) (expectedHeadVersion : Nat) (versionKind : Str)
      (sourceRefs algorithmVersions : Json)
  | startDiff (baseVersionGid oursVersionGid theirsVersionGid : Gid)
  | applySync (operationGid personalSpaceGid : Gid) (selectedKeys : List MemberKey)
      (expectedPersonalHead : Nat)
  | previewPrivateImport (exportRef : Str) (claims : Option CraftWorld.ExportClaims)
      (personalSpaceGid repositoryGid : Gid) (expectedPersonalHead : Nat)
  | applyPrivateImport (previewGid : Gid) (exportRef : Str)
      (claims : Option CraftWorld.ExportClaims) (personalSpaceGid repositoryGid : Gid)
      (selectedUnits : List Str) (expectedPersonalHead : Nat)

namespace CraftWorld

variable (hash : Json → Str)

/-- The database a call commits; `none` where it raises. -/
def committed {ε α : Type} : Except ε (α × CraftWorld) → Option CraftWorld
  | .ok (_, w) => some w
  | .error _ => none

def commits (w : CraftWorld) (caller : Caller) : SpaceCall → Option CraftWorld
  | .createRepository project => committed (createRepository hash w caller project)
  | .applyRepository request => committed (applyRepository hash w caller request)
  | .applyPersonal request => committed (applyPersonal hash w caller request)
  | .proposal c => committed (call hash w caller c)
  | .saveSpaceVersion space version kind refs algorithms =>
    committed (saveSpaceVersion hash w caller space version kind refs algorithms)
  | .startDiff base ours theirs => committed (startDiff hash w caller base ours theirs)
  | .applySync operation space keys version =>
    committed (applySync hash w caller operation space keys version)
  | .previewPrivateImport ref claims space repository version =>
    committed (previewPrivateImport hash w caller ref claims space repository version)
  | .applyPrivateImport preview ref claims space repository units version =>
    committed (applyPrivateImport hash w caller preview ref claims space repository units version)

/-- One operation as a transaction. -/
def spaceStep (w : CraftWorld) (c : Caller × SpaceCall) : CraftWorld :=
  (commits hash w c.1 c.2).getD w

def spaceRun (w : CraftWorld) (calls : List (Caller × SpaceCall)) : CraftWorld :=
  calls.foldl (spaceStep hash) w

end CraftWorld

end Ai00.Craft
