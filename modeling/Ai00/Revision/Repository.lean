import Ai00.Basic.Interleaving
import Ai00.Revision.Addresses

/-! # The repository port and the repository in memory

`revision/repository.py`: the operations of `RevisionRepository` as the service uses them, and
`InMemoryRevisionRepository`. A write returns the new store with its answer, so one that fails
leaves the store as it was. A dictionary is an `AList`; copying a record changes nothing here.

A request of the service is one operation of the repository, a look at the clock, or the
consumption of an approval. `handle` answers requests from a store and an environment.
-/

namespace Ai00.Revision

variable (pf : Platform)

/-- The exceptions of the revision kernel. `loopBound` is none of the source: it says that the
bound of a loop in the model was too small. -/
inductive RevisionError where
  | python (e : PyError)
  | repositoryExists (message : String)
  | recordNotFound (message : String)
  | compareAndSwap (expected actual : Str)
  | integrityError
  | revisionNotFound (message : String)
  | branchConflict (expectedHead actualHead : Str)
  | protectedBranch (message : String)
  | snapshotTooLarge (message : String)
  | changeSetTooLarge (message : String)
  | loopBound

/-- An exception of the standard library or of a validator. -/
def orPython {α : Type} : Except PyError α → Except RevisionError α
  | .ok a => .ok a
  | .error e => .error (.python e)

/-- `RevisionRepository`, over stores of type `σ`. Its `initialize` is `initializeRepository`
here. -/
structure RevisionRepository (σ : Type) where
  initializeRepository : RepositoryRef → BranchRef → Commit pf → σ → Except RevisionError (Branch × σ)
  getCommit : Str → σ → Except RevisionError (Option (Commit pf))
  createBranch : Branch → σ → Except RevisionError (Unit × σ)
  getBranch : BranchRef → σ → Except RevisionError (Option Branch)
  appendCommit : BranchRef → Commit pf → Str → σ → Except RevisionError (Branch × σ)
  protectBranch : BranchRef → Str → σ → Except RevisionError (Branch × σ)
  saveChangeset : ChangeSet pf → σ → Except RevisionError (ChangeSet pf × σ)
  getChangeset : ChangeSetRef → σ → Except RevisionError (Option (ChangeSet pf))
  saveDiff : DiffRecord pf → σ → Except RevisionError (DiffRecord pf × σ)
  getDiff : DiffRef → σ → Except RevisionError (Option (DiffRecord pf))
  saveLineage : LineageEdge pf → σ → Except RevisionError (LineageEdge pf × σ)
  listLineage : CommitRef → Direction → σ → Except RevisionError (List (LineageEdge pf))

/-! ## The repository in memory -/

/-- A Python dictionary. -/
abbrev Table (K V : Type) := AList (fun _ : K => V)

structure Memory where
  repositories : Table (Str × Str) RepositoryRef := ∅
  snapshots : Table (Str × Str) (Snapshot pf) := ∅
  commits : Table Str (Commit pf) := ∅
  branches : Table (Str × Str × Str) Branch := ∅
  lineage : Table Str (LineageEdge pf) := ∅
  changesets : Table (Str × Str × Str) (ChangeSet pf) := ∅
  diffs : Table (Str × Str × Str) (DiffRecord pf) := ∅

variable {pf}

/-- The dictionary key of a changeset. -/
abbrev ChangeSetRef.key (r : ChangeSetRef) : Str × Str × Str :=
  (r.repository.tenantId, r.repository.repositoryId, r.changesetId)

abbrev DiffRef.key (r : DiffRef) : Str × Str × Str :=
  (r.repository.tenantId, r.repository.repositoryId, r.diffId)

abbrev Commit.snapshotKey (c : Commit pf) : Str × Str :=
  (c.repository.tenantId, c.snapshot.snapshotId)

def Memory.hasCommit (m : Memory pf) (commitId : Str) (repository : RepositoryRef) : Bool :=
  match m.commits.lookup commitId with
  | some c => decide (c.repository = repository)
  | none => false

namespace InMemoryRevisionRepository

def initializeRepository (ref : RepositoryRef) (branch : BranchRef) (commit : Commit pf) (m : Memory pf) :
    Except RevisionError (Branch × Memory pf) :=
  if (m.repositories.lookup ref.key).isSome ∨ (m.branches.lookup branch.key).isSome then
    .error (.repositoryExists "revision repository already exists")
  else if branch.repository ≠ ref ∨ commit.repository ≠ ref ∨ commit.parentIds ≠ [] then
    .error (.python (.valueError "initial commit must be a root in the same repository"))
  else
    let created : Branch := { ref := branch, headCommitId := commit.commitId }
    .ok (created, { m with
      repositories := m.repositories.insert ref.key ref
      snapshots := m.snapshots.insert commit.snapshotKey commit.snapshot
      commits := m.commits.insert commit.commitId commit
      branches := m.branches.insert branch.key created })

def createBranch (branch : Branch) (m : Memory pf) : Except RevisionError (Unit × Memory pf) :=
  if (m.branches.lookup branch.ref.key).isSome then
    .error (.repositoryExists "branch already exists")
  else if ¬ m.hasCommit branch.headCommitId branch.ref.repository then
    .error (.recordNotFound "branch head is outside repository")
  else .ok ((), { m with branches := m.branches.insert branch.ref.key branch })

/-- The branch after an append: its record with the new head and the next version. -/
def nextBranch (branch : BranchRef) (headCommitId : Str) : Option Branch → Branch
  | some current =>
    { ref := branch, headCommitId, isProtected := current.isProtected
      approvalPolicy := current.approvalPolicy, version := current.version + 1
      wellFormed := ⟨current.wellFormed.1, by omega⟩ }
  | none => { ref := branch, headCommitId }

def appendCommit (branch : BranchRef) (commit : Commit pf) (expectedHead : Str) (m : Memory pf) :
    Except RevisionError (Branch × Memory pf) :=
  if commit.repository ≠ branch.repository then
    .error (.recordNotFound "commit is outside branch repository")
  else if commit.parentIds.head? ≠ some expectedHead then
    .error (.python (.valueError "commit first parent must equal the expected branch head"))
  else
    let current := m.branches.lookup branch.key
    let actual := (current.map Branch.headCommitId).getD []
    if actual ≠ expectedHead then .error (.compareAndSwap expectedHead actual)
    else if ¬ commit.parentIds.all (fun p => m.hasCommit p commit.repository) then
      .error (.recordNotFound "commit parent is outside repository")
    else if (m.commits.lookup commit.commitId).any (fun existing => existing ≠ commit) then
      .error (.python (.runtimeError "commit identifier collision"))
    else if (m.snapshots.lookup commit.snapshotKey).any
        (fun stored => stored.contentHash ≠ commit.snapshot.contentHash) then
      .error (.python (.runtimeError "snapshot identifier collision"))
    else
      let next := nextBranch branch commit.commitId current
      .ok (next, { m with
        snapshots := m.snapshots.insert commit.snapshotKey commit.snapshot
        commits := m.commits.insert commit.commitId commit
        branches := m.branches.insert branch.key next })

def protectBranch (ref : BranchRef) (approvalPolicy : Str) (m : Memory pf) :
    Except RevisionError (Branch × Memory pf) :=
  match m.branches.lookup ref.key with
  | none => .error (.recordNotFound "branch not found")
  | some current =>
    if h : approvalPolicy.length ≤ 128 then
      let updated : Branch :=
        { current with
          isProtected := true, approvalPolicy := some approvalPolicy
          version := current.version + 1
          wellFormed := ⟨by simpa using h, by omega⟩ }
      .ok (updated, { m with branches := m.branches.insert ref.key updated })
    else .error (.python (.validationError "approval_policy"))

def saveChangeset (changeset : ChangeSet pf) (m : Memory pf) :
    Except RevisionError (ChangeSet pf × Memory pf) :=
  if ¬ m.hasCommit changeset.ref.baseCommitId changeset.ref.repository then
    .error (.recordNotFound "changeset base commit not found")
  else
    match m.changesets.lookup changeset.ref.key with
    | none =>
      .ok (changeset, { m with changesets := m.changesets.insert changeset.ref.key changeset })
    | some existing =>
      if existing.dumpWithoutTime ≠ changeset.dumpWithoutTime then
        .error (.python (.runtimeError "changeset identifier collision"))
      else .ok (existing, m)

def saveDiff (diff : DiffRecord pf) (m : Memory pf) :
    Except RevisionError (DiffRecord pf × Memory pf) :=
  if ¬ (m.hasCommit diff.ref.fromCommitId diff.ref.repository
      ∧ m.hasCommit diff.ref.toCommitId diff.ref.repository) then
    .error (.recordNotFound "diff commit not found")
  else
    match m.diffs.lookup diff.ref.key with
    | none => .ok (diff, { m with diffs := m.diffs.insert diff.ref.key diff })
    | some existing =>
      if existing ≠ diff then .error (.python (.runtimeError "diff identifier collision"))
      else .ok (existing, m)

def storedRef (m : Memory pf) (ref : CommitRef) : Bool :=
  (m.commits.lookup ref.commitId).any (fun c => c.ref = ref)

def saveLineage (edge : LineageEdge pf) (m : Memory pf) :
    Except RevisionError (LineageEdge pf × Memory pf) :=
  if ¬ (storedRef m edge.upstream ∧ storedRef m edge.downstream) then
    .error (.recordNotFound "lineage endpoint not found")
  else
    match m.lineage.lookup edge.edgeId with
    | none => .ok (edge, { m with lineage := m.lineage.insert edge.edgeId edge })
    | some existing =>
      if (existing.upstream, existing.downstream, existing.relation, existing.createdBy)
          ≠ (edge.upstream, edge.downstream, edge.relation, edge.createdBy) then
        .error (.python (.runtimeError "lineage identifier collision"))
      else .ok (existing, m)

def listedEnd (direction : Direction) (edge : LineageEdge pf) : CommitRef :=
  match direction with
  | .downstream => edge.upstream
  | .upstream => edge.downstream

def listLineage (ref : CommitRef) (direction : Direction) (m : Memory pf) :
    List (LineageEdge pf) :=
  ((m.lineage.entries.map Sigma.snd).filter (fun edge => listedEnd direction edge = ref)).insertionSort
    (fun a b => a.edgeId ≤ b.edgeId)

end InMemoryRevisionRepository

open InMemoryRevisionRepository in
variable (pf) in
def inMemoryRevisionRepository : RevisionRepository pf (Memory pf) where
  initializeRepository := initializeRepository
  getCommit commitId m := .ok (m.commits.lookup commitId)
  createBranch := createBranch
  getBranch ref m := .ok (m.branches.lookup ref.key)
  appendCommit := appendCommit
  protectBranch := protectBranch
  saveChangeset := saveChangeset
  getChangeset ref m := .ok (m.changesets.lookup ref.key)
  saveDiff := saveDiff
  getDiff ref m := .ok (m.diffs.lookup ref.key)
  saveLineage := saveLineage
  listLineage ref direction m := .ok (listLineage ref direction m)

/-! ## Requests -/

variable (pf)

inductive Request where
  | now
  | consume (approvalReference : Str) (challenge : BranchApprovalChallenge)
  | initializeRepository (ref : RepositoryRef) (branch : BranchRef) (commit : Commit pf)
  | getCommit (commitId : Str)
  | createBranch (branch : Branch)
  | getBranch (ref : BranchRef)
  | appendCommit (branch : BranchRef) (commit : Commit pf) (expectedHead : Str)
  | protectBranch (ref : BranchRef) (approvalPolicy : Str)
  | saveChangeset (changeset : ChangeSet pf)
  | getChangeset (ref : ChangeSetRef)
  | saveDiff (diff : DiffRecord pf)
  | getDiff (ref : DiffRef)
  | saveLineage (edge : LineageEdge pf)
  | listLineage (ref : CommitRef) (direction : Direction)

variable {pf} in
def Answer : Request pf → Type
  | .now => Timestamp
  | .consume _ _ => Bool
  | .initializeRepository _ _ _ => Branch
  | .getCommit _ => Option (Commit pf)
  | .createBranch _ => Unit
  | .getBranch _ => Option Branch
  | .appendCommit _ _ _ => Branch
  | .protectBranch _ _ => Branch
  | .saveChangeset _ => ChangeSet pf
  | .getChangeset _ => Option (ChangeSet pf)
  | .saveDiff _ => DiffRecord pf
  | .getDiff _ => Option (DiffRecord pf)
  | .saveLineage _ => LineageEdge pf
  | .listLineage _ _ => List (LineageEdge pf)

/-- The clock and the approval verifier, over states of type `ε`. -/
structure Environment (ε : Type) where
  clock : ε → Timestamp × ε
  consume : Str → BranchApprovalChallenge → ε → Bool × ε

variable {pf} {σ ε : Type}

/-- A read leaves the store and the environment alone. -/
def reading {α : Type} (x : Except RevisionError α) (s : σ × ε) :
    Except RevisionError α × (σ × ε) := (x, s)

/-- A write puts the new store in place, or fails and leaves the old one. -/
def writing {α : Type} (x : Except RevisionError (α × σ)) (s : σ × ε) :
    Except RevisionError α × (σ × ε) :=
  match x with
  | .ok (a, store) => (.ok a, (store, s.2))
  | .error e => (.error e, s)

def handle (repository : RevisionRepository pf σ) (environment : Environment ε) :
    (r : Request pf) → σ × ε → Except RevisionError (Answer r) × (σ × ε)
  | .now, s => (.ok (environment.clock s.2).1, (s.1, (environment.clock s.2).2))
  | .consume reference challenge, s =>
    (.ok (environment.consume reference challenge s.2).1,
      (s.1, (environment.consume reference challenge s.2).2))
  | .initializeRepository ref branch commit, s => writing (repository.initializeRepository ref branch commit s.1) s
  | .getCommit commitId, s => reading (repository.getCommit commitId s.1) s
  | .createBranch branch, s => writing (repository.createBranch branch s.1) s
  | .getBranch ref, s => reading (repository.getBranch ref s.1) s
  | .appendCommit branch commit expectedHead, s =>
    writing (repository.appendCommit branch commit expectedHead s.1) s
  | .protectBranch ref policy, s => writing (repository.protectBranch ref policy s.1) s
  | .saveChangeset changeset, s => writing (repository.saveChangeset changeset s.1) s
  | .getChangeset ref, s => reading (repository.getChangeset ref s.1) s
  | .saveDiff diff, s => writing (repository.saveDiff diff s.1) s
  | .getDiff ref, s => reading (repository.getDiff ref s.1) s
  | .saveLineage edge, s => writing (repository.saveLineage edge s.1) s
  | .listLineage ref direction, s => reading (repository.listLineage ref direction s.1) s

/-! ## Approval verifiers -/

/-- A clock that stands still, and `DenyBranchApprovalVerifier`. -/
def denyApprovals : Environment Timestamp where
  clock t := (t, t)
  consume _ _ t := (false, t)

/-- A clock, and the open approvals of `InMemoryBranchApprovalVerifier`. A reference is kept by
its hash there; references with one hash are one here. -/
structure Approvals where
  time : Timestamp
  records : Table Str BranchApprovalChallenge := ∅

/-- A clock that ticks, and `InMemoryBranchApprovalVerifier`: a reference is used up by its first
consumption, whatever the challenge. -/
def inMemoryApprovals : Environment Approvals where
  clock s := (s.time, { s with time := s.time + 1 })
  consume reference challenge s :=
    (decide (s.records.lookup reference = some challenge),
      { s with records := s.records.erase reference })

end Ai00.Revision
