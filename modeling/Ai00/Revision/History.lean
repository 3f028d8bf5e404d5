import Ai00.Revision.MemoryOps
import Ai00.Revision.Service

/-! # Branch histories in memory

No update is lost over `InMemoryRevisionRepository`, whatever calls are in flight: the
first-parent chain of a branch head is the commits appended to the branch, newest first, and
then the chain of the commit the branch was created from; its version counts the appends and
protections; and every stored commit has its parents and its snapshot in the store.

The invariant (`Histories`) is about the store and the trace of the exchanges. It is kept by
every answer whatever call asked (`Histories.answer`), so no property of the service is needed.
-/

namespace Ai00.Revision

variable {pf : Platform}

/-! ## What a trace says about a branch -/

/-- The commit an exchange appends to the branch with key `k`. -/
def appendTo (k : Str × Str × Str) (x : Exchange (@Answer pf)) : Option Str :=
  match x with
  | ⟨.appendCommit branch commit _, _⟩ => if branch.key = k then some commit.commitId else none
  | _ => none

/-- The exchange protects the branch with key `k`. -/
def isProtection (k : Str × Str × Str) (x : Exchange (@Answer pf)) : Bool :=
  match x with
  | ⟨.protectBranch ref _, _⟩ => ref.key = k
  | _ => false

/-- The record with which an exchange creates the branch with key `k`. -/
def creates (k : Str × Str × Str) (x : Exchange (@Answer pf)) : Option Branch :=
  match x with
  | ⟨.initializeRepository _ branch _, created⟩ => if branch.key = k then some created else none
  | ⟨.createBranch branch, _⟩ => if branch.ref.key = k then some branch else none
  | _ => none

theorem creates_initializeRepository (k : Str × Str × Str) (ref : RepositoryRef)
    (branch : BranchRef) (commit : Commit pf) (b : Branch) :
    creates k (⟨.initializeRepository ref branch commit, b⟩ : Exchange (@Answer pf))
      = if branch.key = k then some b else none := rfl

theorem creates_createBranch (k : Str × Str × Str) (branch : Branch) (u : Unit) :
    creates k (⟨.createBranch branch, u⟩ : Exchange (@Answer pf))
      = if branch.ref.key = k then some branch else none := rfl

theorem appendTo_appendCommit (k : Str × Str × Str) (branch : BranchRef) (commit : Commit pf)
    (expectedHead : Str) (b : Branch) :
    appendTo k (⟨.appendCommit branch commit expectedHead, b⟩ : Exchange (@Answer pf))
      = if branch.key = k then some commit.commitId else none := rfl

/-- The exchange is about no change of the branch with key `k`. -/
structure Untouched (k : Str × Str × Str) (x : Exchange (@Answer pf)) : Prop where
  append : appendTo k x = none
  protection : isProtection k x = false
  creation : creates k x = none

/-- The commits appended to a branch, oldest first. -/
def appended (k : Str × Str × Str) (trace : List (Exchange (@Answer pf))) : List Str :=
  trace.filterMap (appendTo k)

def protections (k : Str × Str × Str) (trace : List (Exchange (@Answer pf))) : Nat :=
  trace.countP (isProtection k)

def createdAs (k : Str × Str × Str) (trace : List (Exchange (@Answer pf))) : Option Branch :=
  trace.findSome? (creates k)

section

variable {k : Str × Str × Str} {trace : List (Exchange (@Answer pf))} {x : Exchange (@Answer pf)}

theorem appended_append : appended k (trace ++ [x]) = appended k trace ++ (appendTo k x).toList := by
  unfold appended
  rw [List.filterMap_append]
  cases h : appendTo k x with
  | none => simp [h]
  | some id => simp [h]

theorem protections_append :
    protections k (trace ++ [x]) = protections k trace + if isProtection k x then 1 else 0 := by
  unfold protections
  rw [List.countP_append, List.countP_singleton]

theorem createdAs_append_of_some {b : Branch} (h : createdAs k trace = some b) :
    createdAs k (trace ++ [x]) = some b := by
  unfold createdAs at h ⊢
  rw [List.findSome?_append, h]
  rfl

theorem createdAs_append_of_none (h : createdAs k trace = none) : createdAs k (trace ++ [x]) = creates k x := by
  unfold createdAs at h ⊢
  rw [List.findSome?_append, h]
  cases hx : creates k x <;> simp [hx]

end

/-! ## First-parent chains -/

/-- The chain of first parents of a stored commit, from the commit down to a root. -/
inductive FirstParents (m : Memory pf) : Str → List Str → Prop
  | root {id : Str} {c : Commit pf} (hc : m.commits.lookup id = some c) (hp : c.parentIds = []) :
      FirstParents m id [id]
  | step {id parent : Str} {c : Commit pf} {chain : List Str}
      (hc : m.commits.lookup id = some c) (hp : c.parentIds.head? = some parent)
      (h : FirstParents m parent chain) : FirstParents m id (id :: chain)

/-- Every commit stored in `m` is stored as it is in `m'`. -/
def Memory.Keeps (m m' : Memory pf) : Prop :=
  ∀ id c, m.commits.lookup id = some c → m'.commits.lookup id = some c

variable {id : Str}

theorem FirstParents.mono {m m' : Memory pf} (hm : m.Keeps m') {chain : List Str}
    (h : FirstParents m id chain) : FirstParents m' id chain := by
  induction h with
  | root hc hp => exact .root (hm _ _ hc) hp
  | step hc hp _ ih => exact .step (hm _ _ hc) hp ih

theorem Memory.Keeps.hasCommit {m m' : Memory pf} (hm : m.Keeps m')
    {repository : RepositoryRef} (h : m.hasCommit id repository = true) :
    m'.hasCommit id repository = true := by
  obtain ⟨c, hc, hr⟩ := Memory.hasCommit_iff.mp h
  exact Memory.hasCommit_iff.mpr ⟨c, hm _ _ hc, hr⟩

/-! ## The invariant -/

/-- A stored commit has its parents, its snapshot and its repository in the store. -/
structure StoredWell (m : Memory pf) (id : Str) (c : Commit pf) : Prop where
  keyed : c.commitId = id
  parents : ∀ p ∈ c.parentIds, m.hasCommit p c.repository = true
  snapshot : ∃ s, m.snapshots.lookup c.snapshotKey = some s
    ∧ s.contentHash = c.snapshot.contentHash
  repository : ∃ r, m.repositories.lookup c.repository.key = some r

/-- A branch has lost no update. -/
structure BranchKept (m : Memory pf) (trace : List (Exchange (@Answer pf)))
    (k : Str × Str × Str) (b : Branch) : Prop where
  history : ∃ origin chain, createdAs k trace = some origin
    ∧ FirstParents m origin.headCommitId chain
    ∧ FirstParents m b.headCommitId ((appended k trace).reverse ++ chain)
    ∧ b.version = origin.version + (appended k trace).length + protections k trace

structure Histories (m : Memory pf) (trace : List (Exchange (@Answer pf))) : Prop where
  commits : ∀ id c, m.commits.lookup id = some c → StoredWell m id c
  rooted : ∀ id c, m.commits.lookup id = some c → ∃ chain, FirstParents m id chain
  snapshots : ∀ k s, m.snapshots.lookup k = some s → s.snapshotId = k.2
  branches : ∀ k b, m.branches.lookup k = some b → BranchKept m trace k b
  absent : ∀ k, m.branches.lookup k = none →
    createdAs k trace = none ∧ appended k trace = [] ∧ protections k trace = 0

variable {m m' : Memory pf} {trace : List (Exchange (@Answer pf))}

theorem histories_empty : Histories ({} : Memory pf) [] where
  commits id c h := by simp at h
  rooted id c h := by simp at h
  snapshots k s h := by simp at h
  branches k b h := by simp at h
  absent k _ := ⟨rfl, rfl, rfl⟩

variable {b : Branch}

/-- A branch record that an exchange leaves alone keeps its history. -/
theorem BranchKept.other {k : Str × Str × Str} (h : BranchKept m trace k b)
    (hm : m.Keeps m') {x : Exchange (@Answer pf)} (hx : Untouched k x) :
    BranchKept m' (trace ++ [x]) k b := by
  obtain ⟨happ, hprot, -⟩ := hx
  obtain ⟨origin, chain, hfrom, horigin, hhead, hversion⟩ := h.history
  refine ⟨origin, chain, createdAs_append_of_some hfrom, horigin.mono hm, ?_, ?_⟩
  · rw [appended_append, happ, Option.toList_none, List.append_nil]
    exact hhead.mono hm
  · rw [appended_append, happ, Option.toList_none, List.append_nil, protections_append, hprot]
    exact hversion

theorem Histories.stillAbsent (h : Histories m trace) {k : Str × Str × Str}
    (hk : m.branches.lookup k = none) {x : Exchange (@Answer pf)} (hx : Untouched k x) :
    createdAs k (trace ++ [x]) = none ∧ appended k (trace ++ [x]) = [] ∧ protections k (trace ++ [x]) = 0 := by
  obtain ⟨happ, hprot, hcreates⟩ := hx
  obtain ⟨hfrom, happended, hprotections⟩ := h.absent k hk
  rw [createdAs_append_of_none hfrom, appended_append, protections_append, happ, hprot,
    hcreates, happended, hprotections]
  exact ⟨rfl, rfl, rfl⟩

theorem Histories.sameCommits (h : Histories m trace) (hr : m'.repositories = m.repositories)
    (hs : m'.snapshots = m.snapshots) (hc : m'.commits = m.commits) :
    m.Keeps m' ∧ (∀ id c, m'.commits.lookup id = some c → StoredWell m' id c)
      ∧ (∀ id c, m'.commits.lookup id = some c → ∃ chain, FirstParents m' id chain)
      ∧ ∀ k s, m'.snapshots.lookup k = some s → s.snapshotId = k.2 := by
  have hkeeps : m.Keeps m' := fun id c h => by rw [hc, h]
  refine ⟨hkeeps, fun id c hid => ?_, fun id c hid => ?_, by rw [hs]; exact h.snapshots⟩
  · rw [hc] at hid
    obtain ⟨hkeyed, hparents, hsnapshot, hrepository⟩ := h.commits id c hid
    exact ⟨hkeyed, fun p hp => hkeeps.hasCommit (hparents p hp), by rw [hs]; exact hsnapshot,
      by rw [hr]; exact hrepository⟩
  · rw [hc] at hid
    obtain ⟨chain, hchain⟩ := h.rooted id c hid
    exact ⟨chain, hchain.mono hkeeps⟩

theorem Histories.unrelated (h : Histories m trace) (hr : m'.repositories = m.repositories)
    (hs : m'.snapshots = m.snapshots) (hc : m'.commits = m.commits) (hb : m'.branches = m.branches)
    {x : Exchange (@Answer pf)} (hx : ∀ k, Untouched k x) : Histories m' (trace ++ [x]) := by
  obtain ⟨hkeeps, hcommits, hrooted, hsnapshots⟩ := h.sameCommits hr hs hc
  refine ⟨hcommits, hrooted, hsnapshots, fun k b hk => ?_, fun k hk => ?_⟩
  · rw [hb] at hk
    exact (h.branches k b hk).other hkeeps (hx k)
  · rw [hb] at hk
    exact h.stillAbsent hk (hx k)

/-! ## Storing a commit -/

/-- A store that gained one commit, with what it refers to. -/
structure Stores (m m' : Memory pf) (c : Commit pf) : Prop where
  commits : m'.commits = m.commits.insert c.commitId c
  snapshots : m'.snapshots = m.snapshots.insert c.snapshotKey c.snapshot
  repositories : ∀ k r, m.repositories.lookup k = some r → ∃ r', m'.repositories.lookup k = some r'
  repository : ∃ r, m'.repositories.lookup c.repository.key = some r
  same : ∀ c', m.commits.lookup c.commitId = some c' → c' = c
  parents : ∀ p ∈ c.parentIds, m.hasCommit p c.repository = true

section

variable {c : Commit pf}

theorem Stores.keeps (h : Stores m m' c) : m.Keeps m' := by
  intro id c' hc'
  rw [h.commits]
  by_cases hid : id = c.commitId
  · subst hid
    rw [AList.lookup_insert, h.same c' hc']
  · rw [AList.lookup_insert_ne hid, hc']

theorem Stores.lookup (h : Stores m m' c) : m'.commits.lookup c.commitId = some c := by
  rw [h.commits, AList.lookup_insert]

theorem Stores.cases (h : Stores m m' c) {c' : Commit pf}
    (hc' : m'.commits.lookup id = some c') :
    (id = c.commitId ∧ c' = c) ∨ m.commits.lookup id = some c' := by
  rw [h.commits] at hc'
  by_cases hid : id = c.commitId
  · subst hid
    rw [AList.lookup_insert] at hc'
    exact Or.inl ⟨rfl, (Option.some.inj hc').symm⟩
  · rw [AList.lookup_insert_ne hid] at hc'
    exact Or.inr hc'

theorem Stores.storedWell (h : Stores m m' c) (hm : Histories m trace)
    {c' : Commit pf} (hc' : m'.commits.lookup id = some c') : StoredWell m' id c' := by
  have hsnapshot : ∀ k s, m.snapshots.lookup k = some s →
      ∃ s', m'.snapshots.lookup k = some s' ∧ s'.contentHash = s.contentHash := by
    intro k s hs
    rw [h.snapshots]
    by_cases hk : k = c.snapshotKey
    · subst hk
      have hid : s.snapshotId = c.snapshot.snapshotId := hm.snapshots _ s hs
      exact ⟨c.snapshot, AList.lookup_insert _, (Snapshot.contentHash_eq_iff.mpr hid).symm⟩
    · exact ⟨s, by rw [AList.lookup_insert_ne hk, hs], rfl⟩
  rcases h.cases hc' with ⟨rfl, rfl⟩ | hold
  · exact ⟨rfl, fun p hp => h.keeps.hasCommit (h.parents p hp),
      ⟨c'.snapshot, by rw [h.snapshots, AList.lookup_insert], rfl⟩, h.repository⟩
  · obtain ⟨hkeyed, hparents, ⟨s, hs, hhash⟩, r, hr⟩ := hm.commits id c' hold
    obtain ⟨s', hs', hhash'⟩ := hsnapshot _ s hs
    exact ⟨hkeyed, fun p hp => h.keeps.hasCommit (hparents p hp), ⟨s', hs', hhash'.trans hhash⟩,
      h.repositories _ r hr⟩

theorem Stores.rooted (h : Stores m m' c) (hm : Histories m trace)
    {c' : Commit pf} (hc' : m'.commits.lookup id = some c') :
    ∃ chain, FirstParents m' id chain := by
  rcases h.cases hc' with ⟨rfl, rfl⟩ | hold
  · cases hp : c'.parentIds.head? with
    | none => exact ⟨_, .root h.lookup (List.head?_eq_none_iff.mp hp)⟩
    | some p =>
      have hmem : p ∈ c'.parentIds := List.mem_of_mem_head? (Option.mem_def.mpr hp)
      obtain ⟨q, hq, -⟩ := Memory.hasCommit_iff.mp (h.parents p hmem)
      obtain ⟨chain, hchain⟩ := hm.rooted p q hq
      exact ⟨_, .step h.lookup hp (hchain.mono h.keeps)⟩
  · obtain ⟨chain, hchain⟩ := hm.rooted id c' hold
    exact ⟨chain, hchain.mono h.keeps⟩

theorem Stores.snapshotIds (h : Stores m m' c) (hm : Histories m trace) {k : Str × Str}
    {s : Snapshot pf} (hs : m'.snapshots.lookup k = some s) : s.snapshotId = k.2 := by
  rw [h.snapshots] at hs
  by_cases hk : k = c.snapshotKey
  · subst hk
    rw [AList.lookup_insert] at hs
    rw [← Option.some.inj hs]
  · rw [AList.lookup_insert_ne hk] at hs
    exact hm.snapshots k s hs

end

/-! ## One branch changes -/

/-- The branches of a store in which only the branch `k` changed. -/
theorem Histories.oneBranch (h : Histories m trace) (hkeeps : m.Keeps m') {k : Str × Str × Str}
    (hb : m'.branches = m.branches.insert k b) {x : Exchange (@Answer pf)}
    (hx : ∀ q, q ≠ k → Untouched q x)
    (hk : BranchKept m' (trace ++ [x]) k b) :
    (∀ q b, m'.branches.lookup q = some b → BranchKept m' (trace ++ [x]) q b)
      ∧ ∀ q, m'.branches.lookup q = none → createdAs q (trace ++ [x]) = none
        ∧ appended q (trace ++ [x]) = [] ∧ protections q (trace ++ [x]) = 0 := by
  constructor
  · intro q b' hq
    rw [hb] at hq
    by_cases hqk : q = k
    · subst hqk
      rw [AList.lookup_insert, Option.some.injEq] at hq
      rwa [← hq]
    · rw [AList.lookup_insert_ne hqk] at hq
      exact (h.branches q b' hq).other hkeeps (hx q hqk)
  · intro q hq
    rw [hb] at hq
    have hqk : q ≠ k := by
      rintro rfl
      rw [AList.lookup_insert] at hq
      cases hq
    rw [AList.lookup_insert_ne hqk] at hq
    exact h.stillAbsent hq (hx q hqk)

open InMemoryRevisionRepository

theorem Histories.initializeRepository (h : Histories m trace) {ref : RepositoryRef}
    {branch : BranchRef} {commit : Commit pf}
    (hok : initializeRepository ref branch commit m = .ok (b, m')) :
    Histories m' (trace ++ [⟨.initializeRepository ref branch commit, b⟩]) := by
  obtain ⟨hrepo, hbranch, hbr, hcr, hroot, hb, hm'⟩ := initializeRepository_eq_ok hok
  have hfresh : m.commits.lookup commit.commitId = none := by
    -- a commit with this identifier is of this repository, which is not there yet
    by_contra hne
    obtain ⟨c, hc⟩ := Option.ne_none_iff_exists'.mp hne
    obtain ⟨hkeyed, -, -, r, hr⟩ := h.commits _ c hc
    rw [Commit.repository_eq hkeyed, hcr, hrepo] at hr
    cases hr
  have hstores : Stores m m' commit := by
    refine ⟨by rw [hm'], by rw [hm'], ?_, ?_, ?_, ?_⟩
    · intro k r hr
      rw [hm']
      by_cases hk : k = ref.key
      · rw [hk]
        exact ⟨ref, AList.lookup_insert _⟩
      · exact ⟨r, by rw [AList.lookup_insert_ne hk, hr]⟩
    · rw [hm', hcr]
      exact ⟨ref, AList.lookup_insert _⟩
    · intro c' hc'
      rw [hfresh] at hc'
      cases hc'
    · rw [hroot]
      intro p hp
      cases hp
  have hx : ∀ q, q ≠ branch.key →
      Untouched q (⟨.initializeRepository ref branch commit, b⟩ : Exchange (@Answer pf)) :=
    fun q hq => ⟨rfl, rfl, by rw [creates_initializeRepository, if_neg (Ne.symm hq)]⟩
  have hkept : BranchKept m' (trace ++ [⟨.initializeRepository ref branch commit, b⟩])
      branch.key b := by
    obtain ⟨hfrom, happended, hprotections⟩ := h.absent _ hbranch
    have hhead : FirstParents m' commit.commitId [commit.commitId] := .root hstores.lookup hroot
    have hid : b.headCommitId = commit.commitId := by rw [hb]
    have happ : appended branch.key (trace ++ [⟨.initializeRepository ref branch commit, b⟩])
        = [] := by
      rw [appended_append, happended]
      rfl
    refine ⟨b, [commit.commitId], ?_, by rwa [hid], ?_, ?_⟩
    · rw [createdAs_append_of_none hfrom, creates_initializeRepository, if_pos rfl]
    · rw [happ, hid]
      exact hhead
    · rw [happ, protections_append, hprotections]
      rfl
  have hrest := h.oneBranch hstores.keeps (by rw [hm']) hx hkept
  exact ⟨fun _ _ hc => hstores.storedWell h hc, fun _ _ hc => hstores.rooted h hc,
    fun _ _ hs => hstores.snapshotIds h hs, hrest.1, hrest.2⟩

theorem Histories.createBranch (h : Histories m trace) {branch : Branch} {u : Unit}
    (hok : InMemoryRevisionRepository.createBranch branch m = .ok (u, m')) :
    Histories m' (trace ++ [⟨.createBranch branch, u⟩]) := by
  obtain ⟨hbranch, hhas, hm'⟩ := createBranch_eq_ok hok
  obtain ⟨hkeeps, hcommits, hrooted, hsnapshots⟩ :=
    h.sameCommits (show m'.repositories = m.repositories by rw [hm'])
      (show m'.snapshots = m.snapshots by rw [hm']) (show m'.commits = m.commits by rw [hm'])
  have hx : ∀ q, q ≠ branch.ref.key → Untouched q (⟨.createBranch branch, u⟩ : Exchange (@Answer pf)) :=
    fun q hq => ⟨rfl, rfl, by rw [creates_createBranch, if_neg (Ne.symm hq)]⟩
  have hkept : BranchKept m' (trace ++ [⟨.createBranch branch, u⟩]) branch.ref.key branch := by
    obtain ⟨hfrom, happended, hprotections⟩ := h.absent _ hbranch
    obtain ⟨c, hc, -⟩ := Memory.hasCommit_iff.mp hhas
    obtain ⟨chain, hchain⟩ := h.rooted _ c hc
    have happ : appended branch.ref.key (trace ++ [⟨.createBranch branch, u⟩]) = [] := by
      rw [appended_append, happended]
      rfl
    refine ⟨branch, chain, ?_, hchain.mono hkeeps, ?_, ?_⟩
    · rw [createdAs_append_of_none hfrom, creates_createBranch, if_pos rfl]
    · rw [happ]
      exact hchain.mono hkeeps
    · rw [happ, protections_append, hprotections]
      rfl
  have hrest := h.oneBranch hkeeps (by rw [hm']) hx hkept
  exact ⟨hcommits, hrooted, hsnapshots, hrest.1, hrest.2⟩

theorem Histories.protectBranch (h : Histories m trace) {ref : BranchRef} {policy : Str}
    (hok : InMemoryRevisionRepository.protectBranch ref policy m = .ok (b, m')) :
    Histories m' (trace ++ [⟨.protectBranch ref policy, b⟩]) := by
  obtain ⟨current, hcurrent, -, hhead, -, -, hversion, hm'⟩ := protectBranch_eq_ok hok
  obtain ⟨hkeeps, hcommits, hrooted, hsnapshots⟩ :=
    h.sameCommits (show m'.repositories = m.repositories by rw [hm'])
      (show m'.snapshots = m.snapshots by rw [hm']) (show m'.commits = m.commits by rw [hm'])
  have hx : ∀ q, q ≠ ref.key → Untouched q (⟨.protectBranch ref policy, b⟩ : Exchange (@Answer pf)) :=
    fun q hq => ⟨rfl, decide_eq_false (Ne.symm hq), rfl⟩
  have hkept : BranchKept m' (trace ++ [⟨.protectBranch ref policy, b⟩]) ref.key b := by
    obtain ⟨origin, chain, hfrom, horigin, hchain, hold⟩ := (h.branches _ current hcurrent).history
    have happ : appended ref.key (trace ++ [⟨.protectBranch ref policy, b⟩])
        = appended ref.key trace := by
      rw [appended_append]
      exact List.append_nil _
    have hprot : isProtection ref.key (⟨.protectBranch ref policy, b⟩ : Exchange (@Answer pf))
        = true := decide_eq_true rfl
    refine ⟨origin, chain, createdAs_append_of_some hfrom, horigin.mono hkeeps, ?_, ?_⟩
    · rw [happ, hhead]
      exact hchain.mono hkeeps
    · rw [happ, protections_append, hprot, hversion, hold]
      rfl
  have hrest := h.oneBranch hkeeps (by rw [hm']) hx hkept
  exact ⟨hcommits, hrooted, hsnapshots, hrest.1, hrest.2⟩

/-- **An append adds one commit to the history of its branch.** -/
theorem Histories.appendCommit (h : Histories m trace) {branch : BranchRef} {commit : Commit pf}
    {expectedHead : Str}
    (hok : appendCommit branch commit expectedHead m = .ok (b, m')) :
    Histories m' (trace ++ [⟨.appendCommit branch commit expectedHead, b⟩]) := by
  obtain ⟨hrepo, hfirst, hparents, hsame, -, hactual, hb, hm'⟩ := appendCommit_eq_ok hok
  have hmem : expectedHead ∈ commit.parentIds := List.mem_of_mem_head? (Option.mem_def.mpr hfirst)
  obtain ⟨parent, hparent, hpr⟩ := Memory.hasCommit_iff.mp (hparents _ hmem)
  have hstores : Stores m m' commit := by
    refine ⟨by rw [hm'], by rw [hm'], fun k r hr => ⟨r, by rw [hm']; exact hr⟩, ?_, hsame, hparents⟩
    obtain ⟨-, -, -, r, hr⟩ := h.commits _ parent hparent
    rw [hpr] at hr
    exact ⟨r, by rw [hm']; exact hr⟩
  have hx : ∀ q, q ≠ branch.key →
      Untouched q (⟨.appendCommit branch commit expectedHead, b⟩ : Exchange (@Answer pf)) :=
    fun q hq => ⟨by rw [appendTo_appendCommit, if_neg (Ne.symm hq)], rfl, rfl⟩
  have hcurrent : ∃ current, m.branches.lookup branch.key = some current := by
    -- no commit is stored under the empty identifier
    cases hb : m.branches.lookup branch.key with
    | some current => exact ⟨current, rfl⟩
    | none =>
      rw [hb] at hactual
      have hempty : expectedHead = [] := hactual.symm
      have hkeyed := (h.commits _ parent hparent).keyed
      rw [hempty] at hkeyed
      exact absurd hkeyed parent.commitId_ne_nil
  obtain ⟨current, hcurrent⟩ := hcurrent
  rw [hcurrent] at hactual hb
  have hkept : BranchKept m' (trace ++ [⟨.appendCommit branch commit expectedHead, b⟩])
      branch.key b := by
    obtain ⟨origin, chain, hfrom, horigin, hchain, hold⟩ := (h.branches _ current hcurrent).history
    have happ : appended branch.key (trace ++ [⟨.appendCommit branch commit expectedHead, b⟩])
        = appended branch.key trace ++ [commit.commitId] := by
      rw [appended_append, appendTo_appendCommit, if_pos rfl]
      rfl
    have hhead : current.headCommitId = expectedHead := hactual
    rw [hhead] at hchain
    refine ⟨origin, chain, createdAs_append_of_some hfrom, horigin.mono hstores.keeps, ?_, ?_⟩
    · rw [happ, List.reverse_append, hb, nextBranch_head]
      exact .step hstores.lookup hfirst (hchain.mono hstores.keeps)
    · rw [happ, protections_append, hb, nextBranch_version, hold, List.length_append]
      show _ + _ + _ + 1 = _ + (_ + 1) + (_ + 0)
      omega
  have hrest := h.oneBranch hstores.keeps (by rw [hm']) hx hkept
  exact ⟨fun _ _ hc => hstores.storedWell h hc, fun _ _ hc => hstores.rooted h hc,
    fun _ _ hs => hstores.snapshotIds h hs, hrest.1, hrest.2⟩

/-! ## Every answer, every run -/

variable {ε : Type} {environment : Environment ε}

/-- **Every answered request keeps the histories.** -/
theorem Histories.answer (h : Histories m trace) {r : Request pf} {a : Answer r} {e : ε} {s' : Memory pf × ε}
    (hr : handle (inMemoryRevisionRepository pf) environment r (m, e) = (.ok a, s')) :
    Histories s'.1 (trace ++ [⟨r, a⟩]) := by
  cases r with
  | now =>
    cases hr
    exact h.unrelated rfl rfl rfl rfl (fun _ => ⟨rfl, rfl, rfl⟩)
  | consume reference challenge =>
    cases hr
    exact h.unrelated rfl rfl rfl rfl (fun _ => ⟨rfl, rfl, rfl⟩)
  | getCommit id =>
    rw [(reading_eq.mp hr).2]
    exact h.unrelated rfl rfl rfl rfl (fun _ => ⟨rfl, rfl, rfl⟩)
  | getBranch ref =>
    rw [(reading_eq.mp hr).2]
    exact h.unrelated rfl rfl rfl rfl (fun _ => ⟨rfl, rfl, rfl⟩)
  | getChangeset ref =>
    rw [(reading_eq.mp hr).2]
    exact h.unrelated rfl rfl rfl rfl (fun _ => ⟨rfl, rfl, rfl⟩)
  | getDiff ref =>
    rw [(reading_eq.mp hr).2]
    exact h.unrelated rfl rfl rfl rfl (fun _ => ⟨rfl, rfl, rfl⟩)
  | listLineage ref direction =>
    rw [(reading_eq.mp hr).2]
    exact h.unrelated rfl rfl rfl rfl (fun _ => ⟨rfl, rfl, rfl⟩)
  | saveChangeset changeset =>
    obtain ⟨store, hstore, rfl⟩ := writing_ok.mp hr
    have hm := saveChangeset_eq_ok hstore
    have hx : ∀ k, Untouched k (⟨.saveChangeset changeset, a⟩ : Exchange (@Answer pf)) :=
      fun _ => ⟨rfl, rfl, rfl⟩
    exact h.unrelated (by rw [hm]) (by rw [hm]) (by rw [hm]) (by rw [hm]) hx
  | saveDiff diff =>
    obtain ⟨store, hstore, rfl⟩ := writing_ok.mp hr
    have hm := saveDiff_eq_ok hstore
    have hx : ∀ k, Untouched k (⟨.saveDiff diff, a⟩ : Exchange (@Answer pf)) :=
      fun _ => ⟨rfl, rfl, rfl⟩
    exact h.unrelated (by rw [hm]) (by rw [hm]) (by rw [hm]) (by rw [hm]) hx
  | saveLineage edge =>
    obtain ⟨store, hstore, rfl⟩ := writing_ok.mp hr
    have hm := saveLineage_eq_ok hstore
    have hx : ∀ k, Untouched k (⟨.saveLineage edge, a⟩ : Exchange (@Answer pf)) :=
      fun _ => ⟨rfl, rfl, rfl⟩
    exact h.unrelated (by rw [hm]) (by rw [hm]) (by rw [hm]) (by rw [hm]) hx
  | initializeRepository ref branch commit =>
    obtain ⟨store, hstore, rfl⟩ := writing_ok.mp hr
    exact h.initializeRepository hstore
  | createBranch branch =>
    obtain ⟨store, hstore, rfl⟩ := writing_ok.mp hr
    exact h.createBranch hstore
  | protectBranch ref policy =>
    obtain ⟨store, hstore, rfl⟩ := writing_ok.mp hr
    exact h.protectBranch hstore
  | appendCommit branch commit expectedHead =>
    obtain ⟨store, hstore, rfl⟩ := writing_ok.mp hr
    exact h.appendCommit hstore

/-- Between two steps the environment may change: time passes, approvals are issued. -/
def environmentOnly {σ : Type} (s s' : σ × ε) : Prop := s'.1 = s.1

variable {service : RevisionService} {e : ε}
  {w : World (Memory pf × ε) (Call pf) (@Answer pf) RevisionError (Outcome pf)}

theorem histories_of_run
    (h : FreeRun service.code (handle (inMemoryRevisionRepository pf) environment) environmentOnly
      (World.initial ({}, e)) w) : Histories w.state.1 w.trace := by
  refine h.invariant (I := fun w => Histories w.state.1 w.trace) histories_empty ?_
  intro w ev w' _ hI _ hs
  cases hs with
  | begin c => exact hI
  | outside s hout =>
    rw [show s.1 = w.state.1 from hout]
    exact hI
  | answer i c past r g k a s hi hr => exact hI.answer hr
  | refuse i c past r g k err s hi hr =>
    rw [handle_error hr]
    exact hI

/-- **No update is lost in memory.** In every interleaving of calls of the service, the head of a
branch has as its first-parent chain the commits appended to the branch and then the chain of
the commit the branch was created from, its version has grown by one with each append and each
protection, and every stored commit has its parents and its snapshot in the store. -/
theorem no_update_lost
    (h : FreeRun service.code (handle (inMemoryRevisionRepository pf) environment) environmentOnly
      (World.initial ({}, e)) w) :
    (∀ k b, w.state.1.branches.lookup k = some b → BranchKept w.state.1 w.trace k b)
      ∧ ∀ id c, w.state.1.commits.lookup id = some c → StoredWell w.state.1 id c :=
  ⟨(histories_of_run h).branches, (histories_of_run h).commits⟩

/-! ## Two writers at one head -/

def sampleRepository : RepositoryRef :=
  ⟨"t".toList, "r".toList, "do".toList, "x".toList, by decide⟩

def mainBranch : BranchRef := ⟨sampleRepository, "main".toList, by decide⟩

def sampleService : RevisionService := { adapter := jsonDocumentAdapter Platform.reference }

def sampleDocument (n : Int) : Json := .obj [("v".toList, .int n)]

def Outcome.commitId : Outcome pf → Str
  | .committed outcome => outcome.commit.commitId
  | .merge (.merged commit) => commit.commitId
  | .found commit => commit.commitId
  | _ => []

/-- The first commit of `main`. -/
def sampleStart : Call Platform.reference :=
  .initializeRepository sampleRepository "main".toList (sampleDocument 0) "a".toList "m".toList

/-- The commits that calls made one after another in memory create. -/
def commitIds (calls : List (Call Platform.reference)) : List Str :=
  (sampleService.runCalls (inMemoryRevisionRepository Platform.reference) inMemoryApprovals calls
    ({}, ⟨0, ∅⟩)).1.map fun x => (x.toOption.map Outcome.commitId).getD []

def rootId : Str := (commitIds [sampleStart]).headD []

def writeMain (n : Int) : Call Platform.reference :=
  .commit mainBranch (sampleDocument n) rootId "a".toList "m".toList none

/-- Two calls read the branch and its head; then both append. -/
def raceSchedule : List (Move (Call Platform.reference)) :=
  [.begin sampleStart, .next 0, .next 0, .begin (writeMain 1), .begin (writeMain 2), .next 1,
    .next 1, .next 1, .next 2, .next 2, .next 2, .next 1, .next 2]

set_option maxRecDepth 100000 in
theorem no_update_lost_race :
    ∃ w : World (Memory Platform.reference × Approvals) (Call Platform.reference)
        (@Answer Platform.reference) RevisionError (Outcome Platform.reference),
      (appended mainBranch.key w.trace).length = 1
        ∧ (∀ k b, w.state.1.branches.lookup k = some b → BranchKept w.state.1 w.trace k b)
        ∧ ∀ id c, w.state.1.commits.lookup id = some c → StoredWell w.state.1 id c := by
  have hrace : ((World.initial ({}, ⟨0, ∅⟩) : World (Memory Platform.reference × Approvals)
      (Call Platform.reference) (@Answer Platform.reference) RevisionError
        (Outcome Platform.reference)).moves sampleService.code
      (handle (inMemoryRevisionRepository Platform.reference) inMemoryApprovals)
      raceSchedule).any (fun w => (appended mainBranch.key w.trace).length = 1) = true := by
    decide +kernel
  obtain ⟨w, hw, hone⟩ := (Option.any_eq_true _ _).mp hrace
  exact ⟨w, by simpa using hone, no_update_lost (World.run_of_moves hw)⟩

end Ai00.Revision
