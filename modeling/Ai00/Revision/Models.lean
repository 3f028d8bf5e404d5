import Ai00.Revision.Merge

/-! # Records of the revision kernel

The records of `revision/models.py`. A frozen pydantic model is a structure whose last field
holds what its validators check, so a value of the type is a validated record; `build` is the
constructor call, which validates. Identifiers are content addresses: a tag and the first hex
digits of the SHA-256 of a canonical document. The digest is abstract, so the patterns that
only say how many hex digits an identifier has are not checked.
-/

namespace Ai00.Revision

open Json

variable (pf : Platform)

/-! ## Names -/

/-- `IDENTITY_PATTERN`: a letter or digit, then up to 255 of letters, digits and `-_.:@/`. -/
def isIdentity (s : Str) : Bool :=
  matchesName Char.isAlphanum (fun c => c.isAlphanum || "-_.:@/".toList.contains c) 0 255 s

/-- `BRANCH_PATTERN`: a letter or digit, then up to 127 of letters, digits and `-._/`; and
`safe_branch_name`: no segment between slashes is empty, `.` or `..`. -/
def isBranchName (s : Str) : Bool :=
  matchesName Char.isAlphanum (fun c => c.isAlphanum || "-._/".toList.contains c) 0 127 s
    && (splitOn '/' s).all (fun segment => !(["", ".", ".."].contains (String.ofList segment)))

structure RepositoryRef where
  tenantId : Str
  repositoryId : Str
  ownerDomain : Str
  resourceId : Str
  wellFormed : isIdentity tenantId = true ∧ isIdentity repositoryId = true
    ∧ isTypeName ownerDomain = true ∧ isIdentity resourceId = true
  deriving DecidableEq

structure BranchRef where
  repository : RepositoryRef
  name : Str
  wellFormed : isBranchName name = true

def BranchRef.build (repository : RepositoryRef) (name : Str) : Except PyError BranchRef :=
  if h : isBranchName name = true then .ok ⟨repository, name, h⟩
  else .error (.validationError "BranchRef")

/-- `_repo_key`. -/
abbrev RepositoryRef.key (r : RepositoryRef) : Str × Str := (r.tenantId, r.repositoryId)

/-- `_branch_key`. -/
abbrev BranchRef.key (b : BranchRef) : Str × Str × Str :=
  (b.repository.tenantId, b.repository.repositoryId, b.name)

structure CommitRef where
  repository : RepositoryRef
  commitId : Str
  contentHash : Str
  deriving DecidableEq

structure ChangeSetRef where
  repository : RepositoryRef
  changesetId : Str
  baseCommitId : Str
  deriving DecidableEq

structure DiffRef where
  repository : RepositoryRef
  diffId : Str
  fromCommitId : Str
  toCommitId : Str
  deriving DecidableEq

structure BaselineRef where
  repository : RepositoryRef
  commitId : Str

/-! ## Content addresses -/

/-- `f"{tag}{_digest(value)[:n]}"`. -/
def addressOf (tag : String) (n : Nat) (value : Json) : Except PyError Str := do
  return tag.toList ++ pf.digest n (← canonicalJsonBytes pf value)

/-- `model_dump(mode="json")` of a `RepositoryRef`. -/
def RepositoryRef.document (r : RepositoryRef) : Json :=
  .obj [("tenant_id".toList, .str r.tenantId), ("repository_id".toList, .str r.repositoryId),
    ("owner_domain".toList, .str r.ownerDomain), ("resource_id".toList, .str r.resourceId)]

/-- `model_dump(mode="json")` of a `CommitRef`. -/
def CommitRef.document (r : CommitRef) : Json :=
  .obj [("repository".toList, r.repository.document), ("commit_id".toList, .str r.commitId),
    ("content_hash".toList, .str r.contentHash)]

def optStr : Option Str → Json
  | some s => .str s
  | none => .null

def optNat : Option Nat → Json
  | some n => .int n
  | none => .null

/-- `model_dump(mode="json")` of a `Change`. -/
def Change.document (c : Change) : Json :=
  .obj [("change_type".toList, .str c.changeType.text), ("path".toList, .str c.path),
    ("before".toList, c.before), ("after".toList, c.after), ("identity".toList, optStr c.identity),
    ("from_index".toList, optNat c.fromIndex), ("to_index".toList, optNat c.toIndex),
    ("resource_ref".toList, c.resourceRef), ("breaking".toList, .bool c.breaking)]

def commitDocument (repository : RepositoryRef) (parentIds : List Str)
    (snapshotId contentHash authorId message : Str) : Json :=
  .obj [("format".toList, .str "ai00.revision.commit.v1".toList),
    ("repository".toList, repository.document), ("parents".toList, .arr (parentIds.map .str)),
    ("snapshot_id".toList, .str snapshotId), ("content_hash".toList, .str contentHash),
    ("author_id".toList, .str authorId), ("message".toList, .str message)]

def diffDocument (repository : RepositoryRef) (fromCommit toCommit : Str)
    (changes : List Change) : Json :=
  .obj [("format".toList, .str "ai00.revision.diff.v1".toList),
    ("repository".toList, repository.document), ("from".toList, .str fromCommit),
    ("to".toList, .str toCommit), ("changes".toList, .arr (changes.map Change.document))]

def changesetDocument (repository : RepositoryRef) (baseCommit : Str) (changes : List Change)
    (resultContentHash createdBy : Str) : Json :=
  .obj [("format".toList, .str "ai00.revision.changeset.v1".toList),
    ("repository".toList, repository.document), ("base_commit".toList, .str baseCommit),
    ("changes".toList, .arr (changes.map Change.document)),
    ("result_content_hash".toList, .str resultContentHash),
    ("created_by".toList, .str createdBy)]

def lineageDocument (upstream downstream : CommitRef) (relation createdBy : Str) : Json :=
  .obj [("format".toList, .str "ai00.revision.lineage.v1".toList),
    ("upstream".toList, upstream.document), ("downstream".toList, downstream.document),
    ("relation".toList, .str relation), ("created_by".toList, .str createdBy)]

def challengeDocument (target : BranchRef) (targetHead sourceHead : Str)
    (policy : Option Str) : Json :=
  .obj [("repository".toList, target.repository.document),
    ("target_branch".toList, .str target.name), ("target_head".toList, .str targetHead),
    ("source_head".toList, .str sourceHead), ("policy".toList, optStr policy)]

/-! ## Snapshots and commits -/

/-- `verify_content_address`. -/
def Addressed (snapshotId contentHash : Str) (byteSize : Nat) (content : Json)
    (data : List UInt8) : Prop :=
  canonicalJsonBytes pf content = .ok data
    ∧ contentHash = "sha256:".toList ++ pf.digest 64 data
    ∧ snapshotId = "snp_".toList ++ pf.digest 32 data ∧ byteSize = data.length

structure Snapshot where
  snapshotId : Str
  contentHash : Str
  byteSize : Nat
  content : Json
  addressed : (∃ fields, content = .obj fields)
    ∧ ∃ data, Addressed pf snapshotId contentHash byteSize content data
  deriving DecidableEq

def Snapshot.build (snapshotId contentHash : Str) (byteSize : Nat) (content : Json) :
    Except PyError (Snapshot pf) :=
  match content with
  | .obj fields =>
    match hdata : canonicalJsonBytes pf (.obj fields) with
    | .error e => .error e
    | .ok data =>
      if hhash : contentHash = "sha256:".toList ++ pf.digest 64 data then
        if hid : snapshotId = "snp_".toList ++ pf.digest 32 data then
          if hsize : byteSize = data.length then
            .ok ⟨snapshotId, contentHash, byteSize, .obj fields,
              ⟨fields, rfl⟩, data, hdata, hhash, hid, hsize⟩
          else .error (.validationError "snapshot_byte_size_mismatch")
        else .error (.validationError "snapshot_id_mismatch")
      else .error (.validationError "snapshot_content_hash_mismatch")
  | _ => .error (.validationError "content")

/-- A point in time, in microseconds. The clock gives aware times, and those compare as points
in time. -/
abbrev Timestamp := Int

/-- The field checks of `Commit` and `valid_commit`. -/
structure Commit.Valid (commitId : Str) (repository : RepositoryRef) (parentIds : List Str)
    (snapshot : Snapshot pf) (contentHash authorId message : Str) : Prop where
  parents : parentIds.length ≤ 2
  author : isIdentity authorId = true
  length : 1 ≤ message.length ∧ message.length ≤ 2000
  distinct : parentIds.Nodup
  hash : contentHash = snapshot.contentHash
  address : addressOf pf "cmt_" 40 (commitDocument repository parentIds snapshot.snapshotId
    snapshot.contentHash authorId message) = .ok commitId

structure Commit where
  commitId : Str
  repository : RepositoryRef
  parentIds : List Str
  snapshot : Snapshot pf
  contentHash : Str
  authorId : Str
  message : Str
  createdAt : Timestamp
  valid : Commit.Valid pf commitId repository parentIds snapshot contentHash authorId message
  deriving DecidableEq

def Commit.build (commitId : Str) (repository : RepositoryRef) (parentIds : List Str)
    (snapshot : Snapshot pf) (contentHash authorId message : Str) (createdAt : Timestamp) :
    Except PyError (Commit pf) :=
  if h₁ : parentIds.length ≤ 2 then
    if h₂ : isIdentity authorId = true then
      if h₃ : 1 ≤ message.length ∧ message.length ≤ 2000 then
        if h₄ : parentIds.Nodup then
          if h₅ : contentHash = snapshot.contentHash then
            if h₆ : addressOf pf "cmt_" 40 (commitDocument repository parentIds
                snapshot.snapshotId snapshot.contentHash authorId message) = .ok commitId then
              .ok ⟨commitId, repository, parentIds, snapshot, contentHash, authorId, message,
                createdAt, ⟨h₁, h₂, h₃, h₄, h₅, h₆⟩⟩
            else .error (.validationError "commit_id_mismatch")
          else .error (.validationError "commit content hash must match its snapshot")
        else .error (.validationError "commit parents must be unique")
      else .error (.validationError "message")
    else .error (.validationError "author_id")
  else .error (.validationError "parent_ids")

variable {pf}

def Commit.ref (c : Commit pf) : CommitRef := ⟨c.repository, c.commitId, c.contentHash⟩

/-! ## Branches -/

theorem noPolicy : (∀ p ∈ (none : Option Str), p.length ≤ 128) ∧ 1 ≤ 1 := by simp

structure Branch where
  ref : BranchRef
  headCommitId : Str
  isProtected : Bool := false
  approvalPolicy : Option Str := none
  version : Nat := 1
  wellFormed : (∀ p ∈ approvalPolicy, p.length ≤ 128) ∧ 1 ≤ version := by exact noPolicy

/-! ## Diffs, changesets and merges -/

variable (pf)

structure DiffRecord where
  ref : DiffRef
  changes : List Change
  address : addressOf pf "dif_" 32 (diffDocument ref.repository ref.fromCommitId ref.toCommitId
    changes) = .ok ref.diffId
  deriving DecidableEq

def DiffRecord.build (ref : DiffRef) (changes : List Change) : Except PyError (DiffRecord pf) :=
  if h : addressOf pf "dif_" 32 (diffDocument ref.repository ref.fromCommitId ref.toCommitId
      changes) = .ok ref.diffId then .ok ⟨ref, changes, h⟩
  else .error (.validationError "diff_id_mismatch")

structure ChangeSet.Valid (ref : ChangeSetRef) (changes : List Change)
    (resultContentHash createdBy : Str) : Prop where
  author : isIdentity createdBy = true
  address : addressOf pf "chg_" 32 (changesetDocument ref.repository ref.baseCommitId changes
    resultContentHash createdBy) = .ok ref.changesetId

structure ChangeSet where
  ref : ChangeSetRef
  changes : List Change
  resultContentHash : Str
  createdBy : Str
  createdAt : Timestamp
  valid : ChangeSet.Valid pf ref changes resultContentHash createdBy

def ChangeSet.build (ref : ChangeSetRef) (changes : List Change)
    (resultContentHash createdBy : Str) (createdAt : Timestamp) : Except PyError (ChangeSet pf) :=
  if h₁ : isIdentity createdBy = true then
    if h₂ : addressOf pf "chg_" 32 (changesetDocument ref.repository ref.baseCommitId changes
        resultContentHash createdBy) = .ok ref.changesetId then
      .ok ⟨ref, changes, resultContentHash, createdBy, createdAt, h₁, h₂⟩
    else .error (.validationError "changeset_id_mismatch")
  else .error (.validationError "created_by")

variable {pf}

/-- `model_dump(exclude={"created_at"})`. -/
def ChangeSet.dumpWithoutTime (c : ChangeSet pf) : ChangeSetRef × List Change × Str × Str :=
  (c.ref, c.changes, c.resultContentHash, c.createdBy)

structure BranchApprovalChallenge where
  challengeId : Str
  repository : RepositoryRef
  targetBranch : Str
  targetHead : Str
  sourceHead : Str
  policy : Str
  deriving DecidableEq

variable (pf)

/-- A `MergeResult`, by its status. -/
inductive MergeResult where
  | merged (commit : Commit pf)
  | conflicted (conflicts : List MergeConflict)
  | approvalRequired (approval : BranchApprovalChallenge)

structure CommitOutcome where
  branch : BranchRef
  commit : Commit pf

/-! ## Lineage -/

structure LineageEdge.Valid (edgeId : Str) (upstream downstream : CommitRef)
    (relation createdBy : Str) : Prop where
  name : isTypeName relation = true
  author : isIdentity createdBy = true
  tenant : upstream.repository.tenantId = downstream.repository.tenantId
  distinct : upstream ≠ downstream
  address : addressOf pf "lin_" 32 (lineageDocument upstream downstream relation createdBy)
    = .ok edgeId

structure LineageEdge where
  edgeId : Str
  upstream : CommitRef
  downstream : CommitRef
  relation : Str
  createdBy : Str
  createdAt : Timestamp
  valid : LineageEdge.Valid pf edgeId upstream downstream relation createdBy

def LineageEdge.build (edgeId : Str) (upstream downstream : CommitRef) (relation createdBy : Str)
    (createdAt : Timestamp) : Except PyError (LineageEdge pf) :=
  if h₁ : isTypeName relation = true then
    if h₂ : isIdentity createdBy = true then
      if h₃ : upstream.repository.tenantId = downstream.repository.tenantId then
        if h₄ : upstream ≠ downstream then
          if h₅ : addressOf pf "lin_" 32 (lineageDocument upstream downstream relation createdBy)
              = .ok edgeId then
            .ok ⟨edgeId, upstream, downstream, relation, createdBy, createdAt,
              ⟨h₁, h₂, h₃, h₄, h₅⟩⟩
          else .error (.validationError "lineage_edge_id_mismatch")
        else .error (.validationError "lineage cannot point to itself")
      else .error (.validationError "lineage cannot cross tenants")
    else .error (.validationError "created_by")
  else .error (.validationError "relation")

inductive Direction where
  | upstream
  | downstream

structure LineageGraph where
  root : CommitRef
  direction : Direction
  edges : List (LineageEdge pf)
  truncated : Bool

variable {pf}

end Ai00.Revision
