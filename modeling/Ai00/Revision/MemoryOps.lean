import Ai00.Revision.Repository

/-! # What the operations in memory do

One lemma for each write of `InMemoryRevisionRepository`: when it succeeds, with which answer,
and what the store is then. Later proofs use these and do not unfold the operations.
-/

namespace Ai00.Revision

variable {pf : Platform} {m m' : Memory pf}

theorem Memory.hasCommit_iff {commitId : Str} {repository : RepositoryRef} :
    m.hasCommit commitId repository = true
      ↔ ∃ c, m.commits.lookup commitId = some c ∧ c.repository = repository := by
  unfold Memory.hasCommit
  cases m.commits.lookup commitId with
  | none => simp
  | some c => simp

namespace InMemoryRevisionRepository

variable {branch : BranchRef}

variable {b : Branch}

theorem initializeRepository_eq_ok {ref : RepositoryRef} {commit : Commit pf}
    (h : initializeRepository ref branch commit m = .ok (b, m')) :
    m.repositories.lookup ref.key = none ∧ m.branches.lookup branch.key = none
      ∧ branch.repository = ref ∧ commit.repository = ref ∧ commit.parentIds = []
      ∧ b = { ref := branch, headCommitId := commit.commitId }
      ∧ m' = { m with
          repositories := m.repositories.insert ref.key ref
          snapshots := m.snapshots.insert commit.snapshotKey commit.snapshot
          commits := m.commits.insert commit.commitId commit
          branches := m.branches.insert branch.key b } := by
  unfold initializeRepository at h
  split_ifs at h with h₁ h₂
  obtain ⟨rfl, rfl⟩ := Prod.mk.injEq _ _ _ _ ▸ Except.ok.inj h
  rw [not_or, Bool.not_eq_true, Bool.not_eq_true, Option.isSome_eq_false_iff,
    Option.isSome_eq_false_iff, Option.isNone_iff_eq_none, Option.isNone_iff_eq_none] at h₁
  rw [not_or, not_or, not_not, not_not, not_not] at h₂
  exact ⟨h₁.1, h₁.2, h₂.1, h₂.2.1, h₂.2.2, rfl, rfl⟩

theorem createBranch_eq_ok {branch : Branch} {u : Unit}
    (h : createBranch branch m = .ok (u, m')) :
    m.branches.lookup branch.ref.key = none ∧ m.hasCommit branch.headCommitId branch.ref.repository = true
      ∧ m' = { m with branches := m.branches.insert branch.ref.key branch } := by
  unfold createBranch at h
  split_ifs at h with h₁ h₂
  obtain ⟨-, rfl⟩ := Prod.mk.injEq _ _ _ _ ▸ Except.ok.inj h
  rw [Bool.not_eq_true, Option.isSome_eq_false_iff, Option.isNone_iff_eq_none] at h₁
  exact ⟨h₁, h₂, rfl⟩

/-- **A successful append.** The head was the expected one, every parent is stored, and what is
stored under the identifiers of the commit and of its snapshot agrees with them. -/
theorem appendCommit_eq_ok {commit : Commit pf} {expectedHead : Str}
    (h : appendCommit branch commit expectedHead m = .ok (b, m')) :
    commit.repository = branch.repository ∧ commit.parentIds.head? = some expectedHead
      ∧ (∀ p ∈ commit.parentIds, m.hasCommit p commit.repository = true)
      ∧ (∀ c, m.commits.lookup commit.commitId = some c → c = commit)
      ∧ (∀ s, m.snapshots.lookup commit.snapshotKey = some s → s.contentHash = commit.snapshot.contentHash)
      ∧ ((m.branches.lookup branch.key).map Branch.headCommitId).getD [] = expectedHead
      ∧ b = nextBranch branch commit.commitId (m.branches.lookup branch.key)
      ∧ m' = { m with
          snapshots := m.snapshots.insert commit.snapshotKey commit.snapshot
          commits := m.commits.insert commit.commitId commit
          branches := m.branches.insert branch.key b } := by
  unfold appendCommit at h
  simp only at h
  split_ifs at h with h₁ h₂ h₃ h₄ h₅ h₆
  obtain ⟨rfl, rfl⟩ := Prod.mk.injEq _ _ _ _ ▸ Except.ok.inj h
  refine ⟨not_not.mp h₁, not_not.mp h₂, List.all_eq_true.mp h₄, ?_, ?_, not_not.mp h₃, rfl, rfl⟩
  · intro c hc
    rw [hc] at h₅
    simpa using h₅
  · intro s hs
    rw [hs] at h₆
    simpa using h₆

theorem protectBranch_eq_ok {ref : BranchRef} {policy : Str}
    (h : protectBranch ref policy m = .ok (b, m')) :
    ∃ current, m.branches.lookup ref.key = some current ∧ b.ref = current.ref
      ∧ b.headCommitId = current.headCommitId ∧ b.isProtected = true
      ∧ b.approvalPolicy = some policy ∧ b.version = current.version + 1
      ∧ m' = { m with branches := m.branches.insert ref.key b } := by
  unfold protectBranch at h
  split at h
  · cases h
  · rename_i current hcurrent
    split_ifs at h with hlen
    obtain ⟨rfl, rfl⟩ := Prod.mk.injEq _ _ _ _ ▸ Except.ok.inj h
    exact ⟨current, hcurrent, rfl, rfl, rfl, rfl, rfl, rfl⟩

theorem saveChangeset_eq_ok {changeset answer : ChangeSet pf}
    (h : saveChangeset changeset m = .ok (answer, m')) :
    m' = { m with changesets := m'.changesets } := by
  unfold saveChangeset at h
  split_ifs at h with h₁
  split at h
  · obtain ⟨-, rfl⟩ := Prod.mk.injEq _ _ _ _ ▸ Except.ok.inj h
    rfl
  · split_ifs at h with h₂
    obtain ⟨-, rfl⟩ := Prod.mk.injEq _ _ _ _ ▸ Except.ok.inj h
    rfl

theorem saveDiff_eq_ok {diff answer : DiffRecord pf} (h : saveDiff diff m = .ok (answer, m')) :
    m' = { m with diffs := m'.diffs } := by
  unfold saveDiff at h
  split_ifs at h with h₁
  split at h
  · obtain ⟨-, rfl⟩ := Prod.mk.injEq _ _ _ _ ▸ Except.ok.inj h
    rfl
  · split_ifs at h with h₂
    obtain ⟨-, rfl⟩ := Prod.mk.injEq _ _ _ _ ▸ Except.ok.inj h
    rfl

theorem saveLineage_eq_ok {edge answer : LineageEdge pf}
    (h : saveLineage edge m = .ok (answer, m')) :
    m' = { m with lineage := m'.lineage } := by
  unfold saveLineage at h
  split_ifs at h with h₁
  split at h
  · obtain ⟨-, rfl⟩ := Prod.mk.injEq _ _ _ _ ▸ Except.ok.inj h
    rfl
  · split_ifs at h with h₂
    obtain ⟨-, rfl⟩ := Prod.mk.injEq _ _ _ _ ▸ Except.ok.inj h
    rfl

theorem nextBranch_version {id : Str} :
    (nextBranch branch id (some b)).version = b.version + 1 := rfl

theorem nextBranch_head {id : Str} {current : Option Branch} :
    (nextBranch branch id current).headCommitId = id := by
  cases current <;> rfl

end InMemoryRevisionRepository

/-! ## Requests -/

variable {σ ε : Type}

variable {s s' : σ × ε}

theorem writing_ok {α : Type} {x : Except RevisionError (α × σ)} {a : α} :
    writing x s = (.ok a, s') ↔ ∃ store, x = .ok (a, store) ∧ s' = (store, s.2) := by
  unfold writing
  cases x with
  | ok p =>
    obtain ⟨b, store⟩ := p
    constructor
    · intro h
      cases h
      exact ⟨store, rfl, rfl⟩
    · rintro ⟨store', h, rfl⟩
      cases h
      rfl
  | error e => simp

theorem writing_error {α : Type} {x : Except RevisionError (α × σ)}
    {e : RevisionError} : writing x s = (.error e, s') ↔ x = .error e ∧ s' = s := by
  unfold writing
  cases x with
  | ok p => simp
  | error e' =>
    simp only [Prod.mk.injEq, Except.error.injEq]
    exact and_congr_right fun _ => eq_comm

theorem reading_eq {α : Type} {x y : Except RevisionError α} : reading x s = (y, s') ↔ x = y ∧ s' = s := by
  unfold reading
  rw [Prod.mk.injEq]
  exact and_congr_right fun _ => eq_comm

/-- A request that fails leaves the store and the environment as they were. -/
theorem handle_error {repository : RevisionRepository pf σ} {environment : Environment ε}
    {r : Request pf} {e : RevisionError}
    (h : handle repository environment r s = (.error e, s')) : s' = s := by
  cases r with
  | now => cases h
  | consume reference challenge => cases h
  | getCommit id => exact (reading_eq.mp h).2
  | getBranch ref => exact (reading_eq.mp h).2
  | getChangeset ref => exact (reading_eq.mp h).2
  | getDiff ref => exact (reading_eq.mp h).2
  | listLineage ref direction => exact (reading_eq.mp h).2
  | initializeRepository ref branch commit => exact (writing_error.mp h).2
  | createBranch branch => exact (writing_error.mp h).2
  | appendCommit branch commit expectedHead => exact (writing_error.mp h).2
  | protectBranch ref policy => exact (writing_error.mp h).2
  | saveChangeset changeset => exact (writing_error.mp h).2
  | saveDiff diff => exact (writing_error.mp h).2
  | saveLineage edge => exact (writing_error.mp h).2

end Ai00.Revision
