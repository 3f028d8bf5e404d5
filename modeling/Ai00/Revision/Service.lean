import Ai00.Revision.Repository

/-! # The revision service

`RevisionService` of `revision/service.py`. A method is a program over the requests of
`Repository.lean`; what it computes between two requests is pure. A `while` loop takes a bound
on its rounds. The two searches of the lineage graph bound themselves and get that bound; the
search for ancestors takes it as an argument of `merge`.
-/

namespace Ai00.Revision

open Program

variable (pf : Platform)

/-- A call of the service, run over the requests. -/
abbrev Prog (α : Type) : Type := Program (@Answer pf) RevisionError α

theorem defaultBounds : 64 ≤ 4 * 1024 * 1024 ∧ 1 ≤ 10000 ∧ 10000 ≤ 100000 := by decide

structure RevisionService where
  adapter : DomainRevisionAdapter
  maxSnapshotBytes : Nat := 4 * 1024 * 1024
  maxChangesPerCommit : Nat := 10000
  bounds : 64 ≤ maxSnapshotBytes ∧ 1 ≤ maxChangesPerCommit ∧ maxChangesPerCommit ≤ 100000 := by
    exact defaultBounds

variable {pf}

/-- `except RecordNotFoundError as exc: raise RevisionNotFoundError(str(exc))`. -/
def notFound : RevisionError → RevisionError
  | .recordNotFound message => .revisionNotFound message
  | e => e

/-- The handler of `create_branch`. -/
def branchNotCreated : RevisionError → RevisionError
  | .recordNotFound message => .revisionNotFound message
  | .repositoryExists message => .revisionNotFound message
  | e => e

/-- The handlers of `_write_commit`. -/
def commitNotWritten : RevisionError → RevisionError
  | .compareAndSwap expected actual => .branchConflict expected actual
  | .recordNotFound message => .revisionNotFound message
  | e => e

/-- A computation of the standard library or of a constructor. -/
def liftPy {α : Type} (x : Except PyError α) : Prog pf α := lift (orPython x)

/-! ## The requests as programs -/

abbrev readClock : Prog pf Timestamp := request (@Request.now pf)

abbrev consumeApproval (reference : Str) (challenge : BranchApprovalChallenge) : Prog pf Bool :=
  request (@Request.consume pf reference challenge)

abbrev readCommit (commitId : Str) : Prog pf (Option (Commit pf)) :=
  request (@Request.getCommit pf commitId)

abbrev readBranch (ref : BranchRef) : Prog pf (Option Branch) := request (@Request.getBranch pf ref)

abbrev readDiff (ref : DiffRef) : Prog pf (Option (DiffRecord pf)) :=
  request (@Request.getDiff pf ref)

abbrev readChangeset (ref : ChangeSetRef) : Prog pf (Option (ChangeSet pf)) :=
  request (@Request.getChangeset pf ref)

abbrev readLineage (ref : CommitRef) (direction : Direction) : Prog pf (List (LineageEdge pf)) :=
  request (@Request.listLineage pf ref direction)

abbrev saveDiff (diff : DiffRecord pf) : Prog pf (DiffRecord pf) :=
  attempt (Request.saveDiff diff) notFound

abbrev saveChangeset (changeset : ChangeSet pf) : Prog pf (ChangeSet pf) :=
  attempt (Request.saveChangeset changeset) notFound

abbrev saveLineage (edge : LineageEdge pf) : Prog pf (LineageEdge pf) :=
  attempt (Request.saveLineage edge) notFound

/-! ## Reading -/

def getCommit (commitId : Str) (repository : Option RepositoryRef) : Prog pf (Commit pf) := do
  match ← readCommit commitId with
  | none => raise (.revisionNotFound "commit not found in repository scope")
  | some commit =>
    if repository.any (fun r => commit.repository ≠ r) then
      raise (.revisionNotFound "commit not found in repository scope")
    else return commit

def baseline (repository : RepositoryRef) (commitId : Str) : Prog pf BaselineRef := do
  let _ ← getCommit commitId (some repository)
  return ⟨repository, commitId⟩

def head (branch : BranchRef) : Prog pf (Commit pf) := do
  match ← readBranch branch with
  | none => raise (.revisionNotFound "branch not found")
  | some record => getCommit record.headCommitId (some branch.repository)

/-- The loop of `history`, with the number of commits still to list. -/
def historyLoop (repository : RepositoryRef) : Nat → Commit pf → List Str → Prog pf (List Str)
  | 0, _, result => return result
  | n + 1, commit, result =>
    match commit.parentIds with
    | [] => return result ++ [commit.commitId]
    | parent :: _ => do
      let next ← getCommit parent (some repository)
      historyLoop repository n next (result ++ [commit.commitId])

def history (branch : BranchRef) (limit : Nat) : Prog pf (List Str) :=
  if limit < 1 ∨ 10000 < limit then
    raise (.python (.valueError "history limit must be between 1 and 10000"))
  else do
    let commit ← head branch
    historyLoop branch.repository limit commit []

/-! ## Writing commits -/

def RevisionService.boundedChanges (service : RevisionService) (before after : Json) :
    Except RevisionError (List Change) := do
  let changes ← orPython (service.adapter.diff before after)
  if service.maxChangesPerCommit < changes.length then
    .error (.changeSetTooLarge
      "synchronous revision exceeds change-count policy; use an asynchronous Operation")
  else return changes

def RevisionService.snapshot (service : RevisionService) (content : Json) :
    Except RevisionError (Snapshot pf) := do
  let normalized ← orPython (service.adapter.normalize content)
  let data ← orPython (canonicalJsonBytes pf normalized)
  if service.maxSnapshotBytes < data.length then
    .error (.snapshotTooLarge
      "inline revision snapshot exceeds policy; store large data as ArtifactRef")
  else orPython (Snapshot.build pf ("snp_".toList ++ pf.digest 32 data)
    ("sha256:".toList ++ pf.digest 64 data) data.length normalized)

def commitRecord (repository : RepositoryRef) (parents : List Str) (snapshot : Snapshot pf)
    (authorId message : Str) : Prog pf (Commit pf) := do
  let commitId ← liftPy (addressOf pf "cmt_" 40 (commitDocument repository parents
    snapshot.snapshotId snapshot.contentHash authorId (strip message)))
  let createdAt ← readClock
  liftPy (Commit.build pf commitId repository parents snapshot snapshot.contentHash authorId
    (strip message) createdAt)

/-- `initialize`. -/
def RevisionService.initializeRepository (service : RevisionService)
    (repository : RepositoryRef) (branch : Str) (content : Json) (authorId message : Str) :
    Prog pf (CommitOutcome pf) := do
  let branchRef ← liftPy (BranchRef.build repository branch)
  let snapshot ← lift (service.snapshot content)
  let commit ← commitRecord repository [] snapshot authorId message
  let _ ← request (.initializeRepository repository branchRef commit)
  return ⟨branchRef, commit⟩

def createBranch (repository : RepositoryRef) (name fromCommit : Str) : Prog pf BranchRef := do
  let ref ← liftPy (BranchRef.build repository name)
  let commit ← getCommit fromCommit (some repository)
  let _ ← attempt (.createBranch { ref, headCommitId := commit.commitId }) branchNotCreated
  return ref

def RevisionService.writeCommit (service : RevisionService) (branch : BranchRef) (content : Json)
    (expectedHead authorId message : Str) (additionalParent : Option Str)
    (allowProtected : Bool) : Prog pf (CommitOutcome pf) := do
  match ← readBranch branch with
  | none => raise (.revisionNotFound "branch not found")
  | some branchRecord =>
    if branchRecord.isProtected ∧ ¬ allowProtected then
      raise (.protectedBranch "protected branch accepts only an approved merge")
    else do
      let current ← getCommit expectedHead (some branch.repository)
      liftPy (service.adapter.validateChangeset current.snapshot.content content)
      let _ ← lift (service.boundedChanges current.snapshot.content content)
      let snapshot ← lift (service.snapshot content)
      match additionalParent with
      | none => pure ()
      | some parent => do
        let _ ← getCommit parent (some branch.repository)
      let commit ← commitRecord branch.repository (expectedHead :: additionalParent.toList)
        snapshot authorId message
      let _ ← attempt (.appendCommit branch commit expectedHead) commitNotWritten
      return ⟨branch, commit⟩

def RevisionService.commit (service : RevisionService) (branch : BranchRef) (content : Json)
    (expectedHead authorId message : Str) (additionalParent : Option Str) :
    Prog pf (CommitOutcome pf) :=
  service.writeCommit branch content expectedHead authorId message additionalParent false

def RevisionService.restore (service : RevisionService) (branch : BranchRef)
    (sourceCommit expectedHead authorId message : Str) : Prog pf (CommitOutcome pf) := do
  let source ← getCommit sourceCommit (some branch.repository)
  service.commit branch source.snapshot.content expectedHead authorId message none

/-! ## Diffs and changesets -/

def RevisionService.diff (service : RevisionService) (repository : RepositoryRef)
    (fromCommit toCommit : Str) : Prog pf (DiffRecord pf) := do
  let before ← getCommit fromCommit (some repository)
  let after ← getCommit toCommit (some repository)
  let changes ← lift (service.boundedChanges before.snapshot.content after.snapshot.content)
  let diffId ← liftPy (addressOf pf "dif_" 32
    (diffDocument before.repository fromCommit toCommit changes))
  let diff ← liftPy (DiffRecord.build pf ⟨before.repository, diffId, fromCommit, toCommit⟩ changes)
  saveDiff diff

def getDiff (ref : DiffRef) : Prog pf (DiffRecord pf) := do
  match ← readDiff ref with
  | none => raise (.revisionNotFound "diff not found in repository scope")
  | some diff => return diff

/-- `create_changeset`, up to saving it. -/
def RevisionService.buildChangeset (service : RevisionService) (repository : RepositoryRef)
    (baseCommit : Str) (proposedContent : Json) (createdBy : Str) : Prog pf (ChangeSet pf) := do
  let base ← getCommit baseCommit (some repository)
  let proposed ← liftPy (service.adapter.normalize proposedContent)
  liftPy (service.adapter.validateChangeset base.snapshot.content proposed)
  let changes ← lift (service.boundedChanges base.snapshot.content proposed)
  let resultContentHash ← liftPy (addressOf pf "sha256:" 64 proposed)
  let changesetId ← liftPy (addressOf pf "chg_" 32
    (changesetDocument repository baseCommit changes resultContentHash createdBy))
  let createdAt ← readClock
  liftPy (ChangeSet.build pf ⟨repository, changesetId, baseCommit⟩ changes resultContentHash
    createdBy createdAt)

def RevisionService.createChangeset (service : RevisionService) (repository : RepositoryRef)
    (baseCommit : Str) (proposedContent : Json) (createdBy : Str) : Prog pf (ChangeSet pf) := do
  let changeset ← service.buildChangeset repository baseCommit proposedContent createdBy
  saveChangeset changeset

def getChangeset (ref : ChangeSetRef) : Prog pf (ChangeSet pf) := do
  match ← readChangeset ref with
  | none => raise (.revisionNotFound "changeset not found in repository scope")
  | some changeset => return changeset

def RevisionService.applyChangeset (service : RevisionService) (branch : BranchRef)
    (changeset : ChangeSet pf ⊕ ChangeSetRef) (expectedHead authorId message : Str) :
    Prog pf (CommitOutcome pf) := do
  let resolved ← match changeset with
    | .inl changeset => pure changeset
    | .inr ref => getChangeset ref
  if resolved.ref.repository ≠ branch.repository then
    raise (.python (.valueError "changeset belongs to a different repository"))
  else if resolved.ref.baseCommitId ≠ expectedHead then
    raise (.branchConflict resolved.ref.baseCommitId expectedHead)
  else do
    let base ← getCommit expectedHead (some branch.repository)
    let content ← liftPy (service.adapter.applyChangeset base.snapshot.content resolved.changes)
    let hash ← liftPy (addressOf pf "sha256:" 64 content)
    if hash ≠ resolved.resultContentHash then
      raise (.python (.valueError "changeset result hash mismatch"))
    else service.commit branch content expectedHead authorId message none

/-! ## Protection -/

def protectBranch (branch : BranchRef) (approvalPolicy : Str) : Prog pf Unit :=
  if strip approvalPolicy = [] then raise (.python (.valueError "approval policy is required"))
  else do
    let _ ← attempt (.protectBranch branch (strip approvalPolicy)) notFound

/-! ## Merging -/

/-- `[self.get_commit(parent, …) for parent in parents]`. -/
def getCommits (repository : RepositoryRef) : List Str → Prog pf (List (Commit pf))
  | [] => return []
  | parent :: parents => do
    let commit ← getCommit parent (some repository)
    let commits ← getCommits repository parents
    return commit :: commits

/-- The loop of `_ancestors`: the queue and the distances found. -/
def ancestorsLoop (repository : RepositoryRef) :
    Nat → List (Commit pf × Nat) → List (Str × Nat) → Prog pf (List (Str × Nat))
  | _, [], distances => return distances
  | 0, _ :: _, _ => raise .loopBound
  | n + 1, (commit, distance) :: queue, distances =>
    if (Dict.get? distances commit.commitId).any (· ≤ distance) then
      ancestorsLoop repository n queue distances
    else do
      let parents ← getCommits repository commit.parentIds
      ancestorsLoop repository n (queue ++ parents.map (fun p => (p, distance + 1)))
        (Dict.insert commit.commitId distance distances)

def ancestors (bound : Nat) (start : Commit pf) : Prog pf (List (Str × Nat)) :=
  ancestorsLoop start.repository bound [(start, 0)] []

/-- The key that `min` compares: the larger distance, the sum, the identifier. -/
def baseKey (ours theirs : List (Str × Nat)) (item : Str) : ℕ ×ₗ (ℕ ×ₗ Str) :=
  let o := (Dict.get? ours item).getD 0
  let t := (Dict.get? theirs item).getD 0
  toLex (max o t, toLex (o + t, item))

/-- `min(common, key=…)`; `none` for no items. -/
def minBase (ours theirs : List (Str × Nat)) : List Str → Option Str
  | [] => none
  | item :: items =>
    match minBase ours theirs items with
    | none => some item
    | some best =>
      if baseKey ours theirs item ≤ baseKey ours theirs best then some item else some best

/-- `set(ours_ancestors) & set(theirs_ancestors)`. -/
def commonItems (ours theirs : List (Str × Nat)) : List Str :=
  (Dict.keys ours).filter (fun item => item ∈ Dict.keys theirs)

def mergeBase (bound : Nat) (ours theirs : Commit pf) : Prog pf (Commit pf) := do
  let oursAncestors ← ancestors bound ours
  let theirsAncestors ← ancestors bound theirs
  match minBase oursAncestors theirsAncestors (commonItems oursAncestors theirsAncestors) with
  | none => raise (.revisionNotFound "branches have no common ancestor")
  | some commitId => getCommit commitId (some ours.repository)

/-- The challenge that an approval of this merge has to name. -/
def approvalChallenge (target : BranchRef) (targetRecord : Branch) (targetHead sourceHead : Str) :
    Except PyError BranchApprovalChallenge := do
  let challengeId ← addressOf pf "bra_" 32
    (challengeDocument target targetHead sourceHead targetRecord.approvalPolicy)
  let policy := targetRecord.approvalPolicy.getD []
  return ⟨challengeId, target.repository, target.name, targetHead, sourceHead,
    if policy = [] then "maintainer".toList else policy⟩

/-- The last part of `merge`: the approval, where the target is protected, and the commit. -/
def RevisionService.mergeInto (service : RevisionService) (target : BranchRef)
    (targetHead sourceHead : Commit pf) (mergedContent : Json) (expectedTargetHead authorId
      message : Str) (approvalReference : Option Str) : Prog pf (MergeResult pf) := do
  let write : Prog pf (MergeResult pf) := do
    let outcome ← service.writeCommit target mergedContent expectedTargetHead authorId message
      (some sourceHead.commitId) true
    return .merged outcome.commit
  match ← readBranch target with
  | none => raise (.python .assertionError)
  | some targetRecord =>
    if targetRecord.isProtected then do
      let challenge ← liftPy (@approvalChallenge pf target targetRecord targetHead.commitId
        sourceHead.commitId)
      match approvalReference with
      | none => return .approvalRequired challenge
      | some reference => do
        let approved ← consumeApproval reference challenge
        if approved = true then write else return .approvalRequired challenge
    else write

def RevisionService.merge (service : RevisionService) (bound : Nat) (source target : BranchRef)
    (expectedTargetHead authorId message : Str) (approvalReference : Option Str) :
    Prog pf (MergeResult pf) :=
  if source.repository ≠ target.repository then
    raise (.python (.valueError "cannot merge across repositories"))
  else do
    let sourceHead ← head source
    let targetHead ← head target
    if targetHead.commitId ≠ expectedTargetHead then
      raise (.branchConflict expectedTargetHead targetHead.commitId)
    else do
      let base ← mergeBase bound targetHead sourceHead
      let (merged, conflicts) ← liftPy (threeWayMerge base.snapshot.content
        targetHead.snapshot.content sourceHead.snapshot.content service.adapter)
      if conflicts ≠ [] then return .conflicted conflicts
      else
        match merged with
        | none => raise (.python .assertionError)
        | some mergedContent =>
          service.mergeInto target targetHead sourceHead mergedContent expectedTargetHead
            authorId message approvalReference

/-! ## Lineage -/

/-- The key under which `_assert_lineage_acyclic` remembers a commit. -/
def CommitRef.node (r : CommitRef) : Str × Str × Str :=
  (r.repository.tenantId, r.repository.repositoryId, r.commitId)

/-- The loop of `_assert_lineage_acyclic`: the queue, the nodes visited, the edges examined. -/
def assertAcyclicLoop (upstream : CommitRef) :
    Nat → List CommitRef → List (Str × Str × Str) → Nat → Prog pf Unit
  | _, [], _, _ => return ()
  | 0, _ :: _, _, _ => raise .loopBound
  | n + 1, current :: queue, visited, examined =>
    if current.node ∈ visited then assertAcyclicLoop upstream n queue visited examined
    else if current = upstream then
      raise (.python (.valueError "lineage edge would create a cycle"))
    else do
      let edges ← readLineage current .downstream
      if 10000 < examined + edges.length then
        raise (.python (.valueError "lineage graph exceeds safe cycle-check bound"))
      else
        assertAcyclicLoop upstream n (queue ++ edges.map LineageEdge.downstream)
          (current.node :: visited) (examined + edges.length)

/-- `_assert_lineage_acyclic`. At most 10000 commits are put in the queue after the first. -/
def assertLineageAcyclic (upstream downstream : CommitRef) : Prog pf Unit :=
  assertAcyclicLoop upstream 10001 [downstream] [] 0

def linkLineage (upstream downstream : CommitRef) (relation createdBy : Str) :
    Prog pf (LineageEdge pf) :=
  if upstream.repository.tenantId ≠ downstream.repository.tenantId then
    raise (.python (.valueError "lineage cannot cross tenants"))
  else do
    let _ ← getCommit upstream.commitId (some upstream.repository)
    let _ ← getCommit downstream.commitId (some downstream.repository)
    assertLineageAcyclic upstream downstream
    let edgeId ← liftPy (addressOf pf "lin_" 32
      (lineageDocument upstream downstream relation createdBy))
    let createdAt ← readClock
    let edge ← liftPy (LineageEdge.build pf edgeId upstream downstream relation createdBy createdAt)
    saveLineage edge

/-- The state of the search in `lineage`. -/
structure LineageWalk (pf : Platform) where
  queue : List (CommitRef × Nat)
  visitedNodes : List Str
  visitedEdges : List Str := []
  edges : List (LineageEdge pf) := []
  truncated : Bool := false

/-- `f"{tenant_id}:{repository_id}:{commit_id}"`. -/
def CommitRef.nodeKey (r : CommitRef) : Str :=
  r.repository.tenantId ++ ':' :: (r.repository.repositoryId ++ ':' :: r.commitId)

def lineageEdges (direction : Direction) (maxEdges depth : Nat) :
    List (LineageEdge pf) → LineageWalk pf → LineageWalk pf
  | [], w => w
  | edge :: direct, w =>
    if edge.edgeId ∈ w.visitedEdges then lineageEdges direction maxEdges depth direct w
    else if maxEdges ≤ w.edges.length then { w with truncated := true, queue := [] }
    else
      let next := match direction with
        | .downstream => edge.downstream
        | .upstream => edge.upstream
      let isNew := next.nodeKey ∉ w.visitedNodes
      lineageEdges direction maxEdges depth direct
        { w with
          visitedEdges := edge.edgeId :: w.visitedEdges
          edges := w.edges ++ [edge]
          visitedNodes := if isNew then next.nodeKey :: w.visitedNodes else w.visitedNodes
          queue := if isNew then w.queue ++ [(next, depth + 1)] else w.queue }

/-- The loop of `lineage`. -/
def lineageLoop (direction : Direction) (maxDepth maxEdges : Nat) :
    Nat → LineageWalk pf → Prog pf (LineageWalk pf)
  | 0, w => if w.queue.isEmpty then return w else raise .loopBound
  | n + 1, w =>
    match w.queue with
    | [] => return w
    | (current, depth) :: queue => do
      let direct ← readLineage current direction
      if maxDepth ≤ depth then
        lineageLoop direction maxDepth maxEdges n
          { w with queue, truncated := w.truncated || !direct.isEmpty }
      else
        lineageLoop direction maxDepth maxEdges n
          (lineageEdges direction maxEdges depth direct { w with queue })

/-- `lineage`. Every commit put in the queue after the first comes with a new edge. -/
def lineage (root : CommitRef) (direction : Direction) (maxDepth maxEdges : Nat) :
    Prog pf (LineageGraph pf) :=
  if maxDepth < 1 ∨ 20 < maxDepth then
    raise (.python (.valueError "lineage max_depth must be between 1 and 20"))
  else if maxEdges < 1 ∨ 1000 < maxEdges then
    raise (.python (.valueError "lineage max_edges must be between 1 and 1000"))
  else do
    let _ ← getCommit root.commitId (some root.repository)
    let w ← lineageLoop direction maxDepth maxEdges (maxEdges + 1)
      { queue := [(root, 0)], visitedNodes := [root.nodeKey] }
    return ⟨root, direction, w.edges, w.truncated⟩

/-! ## Calls -/

variable (pf)

/-- The methods of the service, with their arguments. -/
inductive Call where
  | initializeRepository (repository : RepositoryRef) (branch : Str) (content : Json)
      (authorId message : Str)
  | createBranch (repository : RepositoryRef) (name fromCommit : Str)
  | commit (branch : BranchRef) (content : Json) (expectedHead authorId message : Str)
      (additionalParent : Option Str)
  | restore (branch : BranchRef) (sourceCommit expectedHead authorId message : Str)
  | getCommit (commitId : Str) (repository : Option RepositoryRef)
  | baseline (repository : RepositoryRef) (commitId : Str)
  | head (branch : BranchRef)
  | history (branch : BranchRef) (limit : Nat)
  | diff (repository : RepositoryRef) (fromCommit toCommit : Str)
  | getDiff (ref : DiffRef)
  | createChangeset (repository : RepositoryRef) (baseCommit : Str) (proposedContent : Json)
      (createdBy : Str)
  | getChangeset (ref : ChangeSetRef)
  | applyChangeset (branch : BranchRef) (changeset : ChangeSet pf ⊕ ChangeSetRef)
      (expectedHead authorId message : Str)
  | protectBranch (branch : BranchRef) (approvalPolicy : Str)
  | merge (bound : Nat) (source target : BranchRef) (expectedTargetHead authorId message : Str)
      (approvalReference : Option Str)
  | linkLineage (upstream downstream : CommitRef) (relation createdBy : Str)
  | lineage (root : CommitRef) (direction : Direction) (maxDepth maxEdges : Nat)

/-- What a call returns. -/
inductive Outcome where
  | committed (outcome : CommitOutcome pf)
  | branch (ref : BranchRef)
  | found (commit : Commit pf)
  | baseline (ref : BaselineRef)
  | history (commitIds : List Str)
  | diff (diff : DiffRecord pf)
  | changeset (changeset : ChangeSet pf)
  | done
  | merge (result : MergeResult pf)
  | edge (edge : LineageEdge pf)
  | graph (graph : LineageGraph pf)

variable {pf}

def RevisionService.code (service : RevisionService) : Call pf → Prog pf (Outcome pf)
  | .initializeRepository repository branch content authorId message => do
    return .committed
      (← service.initializeRepository repository branch content authorId message)
  | .createBranch repository name fromCommit => do
    return .branch (← Revision.createBranch repository name fromCommit)
  | .commit branch content expectedHead authorId message additionalParent => do
    return .committed
      (← service.commit branch content expectedHead authorId message additionalParent)
  | .restore branch sourceCommit expectedHead authorId message => do
    return .committed (← service.restore branch sourceCommit expectedHead authorId message)
  | .getCommit commitId repository => do return .found (← Revision.getCommit commitId repository)
  | .baseline repository commitId => do return .baseline (← Revision.baseline repository commitId)
  | .head branch => do return .found (← Revision.head branch)
  | .history branch limit => do return .history (← Revision.history branch limit)
  | .diff repository fromCommit toCommit => do
    return .diff (← service.diff repository fromCommit toCommit)
  | .getDiff ref => do return .diff (← Revision.getDiff ref)
  | .createChangeset repository baseCommit proposedContent createdBy => do
    return .changeset
      (← service.createChangeset repository baseCommit proposedContent createdBy)
  | .getChangeset ref => do return .changeset (← Revision.getChangeset ref)
  | .applyChangeset branch changeset expectedHead authorId message => do
    return .committed
      (← service.applyChangeset branch changeset expectedHead authorId message)
  | .protectBranch branch approvalPolicy => do
    Revision.protectBranch branch approvalPolicy
    return .done
  | .merge bound source target expectedTargetHead authorId message approvalReference => do
    return .merge (← service.merge bound source target expectedTargetHead authorId message
      approvalReference)
  | .linkLineage upstream downstream relation createdBy => do
    return .edge (← Revision.linkLineage upstream downstream relation createdBy)
  | .lineage root direction maxDepth maxEdges => do
    return .graph (← Revision.lineage root direction maxDepth maxEdges)

/-! ## One call after another -/

variable {σ ε : Type}

/-- Calls one after another, with what each returns or raises. -/
def RevisionService.runCalls (service : RevisionService) (repository : RevisionRepository pf σ)
    (environment : Environment ε) :
    List (Call pf) → σ × ε → List (Except RevisionError (Outcome pf)) × (σ × ε)
  | [], s => ([], s)
  | c :: cs, s =>
    let (outcome, s') := run (handle repository environment) (service.code c) s
    let (outcomes, s'') := service.runCalls repository environment cs s'
    (outcome :: outcomes, s'')

end Ai00.Revision
