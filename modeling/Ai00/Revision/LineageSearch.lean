import Ai00.Basic.BreadthFirst
import Ai00.Revision.History

/-! # The search for lineage

`lineage` of `RevisionService` over `InMemoryRevisionRepository` is a bounded breadth-first search
(`BreadthFirst.walk`) of the stored edges. It knows commits by texts that join tenant, repository and
commit; since an identifier of a commit has no colon, these tell the commits of a tenant apart.
-/

namespace Ai00.Revision

open Program InMemoryRevisionRepository Json

variable {pf : Platform} {m m' : Memory pf} {ε : Type} {environment : Environment ε} {env : ε}
  {direction : Direction} {maxDepth maxEdges : Nat} {root : CommitRef}

/-! ## The graph that is searched -/

def farEnd (direction : Direction) (edge : LineageEdge pf) : CommitRef :=
  match direction with
  | .downstream => edge.downstream
  | .upstream => edge.upstream

def lineageGraph (m : Memory pf) (direction : Direction) :
    BreadthFirst.Graph CommitRef (LineageEdge pf) Str Str where
  direct ref := listLineage ref direction m
  next := farEnd direction
  nodeKey := CommitRef.nodeKey
  edgeKey := LineageEdge.edgeId

def LineageWalk.toWalk (w : LineageWalk pf) : BreadthFirst.Walk CommitRef (LineageEdge pf) Str Str where
  queue := w.queue
  nodeKeys := w.visitedNodes
  edgeKeys := w.visitedEdges
  edges := w.edges
  truncated := w.truncated

theorem lineageEdges_toWalk (depth : Nat) (direct : List (LineageEdge pf)) (w : LineageWalk pf) :
    (lineageEdges direction maxEdges depth direct w).toWalk
      = BreadthFirst.follow (lineageGraph m direction) maxEdges depth direct w.toWalk := by
  induction direct generalizing w with
  | nil => rfl
  | cons edge direct ih =>
    unfold lineageEdges BreadthFirst.follow
    by_cases hseen : edge.edgeId ∈ w.visitedEdges
    · rw [if_pos hseen, ih]
      exact (if_pos hseen).symm
    · rw [if_neg hseen]
      refine Eq.trans ?_ (if_neg hseen).symm
      by_cases hfull : maxEdges ≤ w.edges.length
      · rw [if_pos hfull]
        exact (if_pos hfull).symm
      · rw [if_neg hfull, ih]
        refine Eq.trans ?_ (if_neg hfull).symm
        cases direction with
        | upstream =>
          by_cases hnew : edge.upstream.nodeKey ∈ w.visitedNodes
          · simp [LineageWalk.toWalk, BreadthFirst.Walk.add, lineageGraph, farEnd, hnew]
          · simp [LineageWalk.toWalk, BreadthFirst.Walk.add, lineageGraph, farEnd, hnew]
        | downstream =>
          by_cases hnew : edge.downstream.nodeKey ∈ w.visitedNodes
          · simp [LineageWalk.toWalk, BreadthFirst.Walk.add, lineageGraph, farEnd, hnew]
          · simp [LineageWalk.toWalk, BreadthFirst.Walk.add, lineageGraph, farEnd, hnew]

/-- **The loop of `lineage`** is the search, where that has enough fuel. -/
theorem run_lineageLoop (fuel : Nat) (w : LineageWalk pf)
    (hqueue : (BreadthFirst.walk (lineageGraph m direction) maxDepth maxEdges fuel w.toWalk).queue = []) :
    ∃ w', run (handle (inMemoryRevisionRepository pf) environment)
        (lineageLoop direction maxDepth maxEdges fuel w) (m, env) = (.ok w', (m, env))
      ∧ w'.toWalk = BreadthFirst.walk (lineageGraph m direction) maxDepth maxEdges fuel w.toWalk := by
  induction fuel generalizing w with
  | zero =>
    have hempty : w.queue.isEmpty = true := List.isEmpty_iff.mpr hqueue
    refine ⟨w, ?_, rfl⟩
    rw [lineageLoop, if_pos hempty]
    rfl
  | succ fuel ih =>
    cases hw : w.queue with
    | nil =>
      refine ⟨w, ?_, ?_⟩
      · rw [lineageLoop]
        split
        case h_1 => rfl
        case h_2 hcons =>
          rw [hw] at hcons
          exact nomatch hcons
      · exact (BreadthFirst.walk_of_empty hw _).symm
    | cons head queue =>
      obtain ⟨current, depth⟩ := head
      have hloop : lineageLoop direction maxDepth maxEdges (fuel + 1) w
          = readLineage current direction >>= fun direct =>
            if maxDepth ≤ depth then
              lineageLoop direction maxDepth maxEdges fuel
                { w with queue, truncated := w.truncated || !direct.isEmpty }
            else
              lineageLoop direction maxDepth maxEdges fuel
                (lineageEdges direction maxEdges depth direct { w with queue }) := by
        rw [lineageLoop]
        split
        case h_1 hnil =>
          rw [hw] at hnil
          exact nomatch hnil
        case h_2 heq =>
          rw [hw] at heq
          cases heq
          rfl
      have hwalk : BreadthFirst.walk (lineageGraph m direction) maxDepth maxEdges (fuel + 1) w.toWalk
          = if maxDepth ≤ depth then
              BreadthFirst.walk (lineageGraph m direction) maxDepth maxEdges fuel
                { w.toWalk with queue, truncated := w.truncated
                    || !(listLineage current direction m).isEmpty }
            else
              BreadthFirst.walk (lineageGraph m direction) maxDepth maxEdges fuel
                (BreadthFirst.follow (lineageGraph m direction) maxEdges depth
                  (listLineage current direction m) { w.toWalk with queue }) := by
        rw [BreadthFirst.walk]
        split
        case h_1 hnil =>
          rw [show w.toWalk.queue = w.queue from rfl, hw] at hnil
          exact nomatch hnil
        case h_2 heq =>
          rw [show w.toWalk.queue = w.queue from rfl, hw] at heq
          cases heq
          rfl
      have hread : run (handle (inMemoryRevisionRepository pf) environment)
          (readLineage current direction : Prog pf _) (m, env)
            = (.ok (listLineage current direction m), (m, env)) := rfl
      rw [hloop, run_bind_ok _ hread]
      rw [hwalk] at hqueue ⊢
      by_cases hdeep : maxDepth ≤ depth
      · rw [if_pos hdeep] at hqueue ⊢
        rw [if_pos hdeep]
        exact ih { w with queue, truncated := w.truncated || !(listLineage current direction m).isEmpty } hqueue
      · rw [if_neg hdeep] at hqueue ⊢
        rw [if_neg hdeep]
        have hfollow := @lineageEdges_toWalk pf m direction maxEdges depth
          (listLineage current direction m) { w with queue }
        rw [show ({ w.toWalk with queue } : BreadthFirst.Walk _ _ _ _)
          = ({ w with queue } : LineageWalk pf).toWalk from rfl, ← hfollow] at hqueue ⊢
        exact ih _ hqueue

/-! ## Stored edges -/

/-- The edges of a store, with their ends, are stored as they should be. -/
structure LineageStored (m : Memory pf) : Prop where
  keyed : ∀ id edge, m.lineage.lookup id = some edge → edge.edgeId = id
  ends : ∀ id edge, m.lineage.lookup id = some edge →
    storedRef m edge.upstream = true ∧ storedRef m edge.downstream = true

def storedEdges (m : Memory pf) : List (LineageEdge pf) := m.lineage.entries.map Sigma.snd

variable {edge : LineageEdge pf}

theorem mem_storedEdges (h : LineageStored m) :
    edge ∈ storedEdges m ↔ m.lineage.lookup edge.edgeId = some edge := by
  constructor
  · intro hedge
    obtain ⟨⟨id, stored⟩, hentry, rfl⟩ := List.mem_map.mp hedge
    have hlookup : m.lineage.lookup id = some stored := AList.mem_lookup_iff.mpr hentry
    rw [h.keyed id stored hlookup]
    exact hlookup
  · intro hlookup
    exact List.mem_map.mpr ⟨⟨edge.edgeId, edge⟩, AList.mem_lookup_iff.mp hlookup, rfl⟩

variable {ref : CommitRef}

theorem storedRef_iff :
    storedRef m ref = true ↔ ∃ c, m.commits.lookup ref.commitId = some c ∧ c.ref = ref := by
  unfold storedRef
  cases m.commits.lookup ref.commitId with
  | none => simp
  | some c => simp

theorem storedRef_inj {ref ref' : CommitRef} (h : storedRef m ref = true) (h' : storedRef m ref' = true)
    (hid : ref.commitId = ref'.commitId) : ref = ref' := by
  obtain ⟨c, hc, rfl⟩ := storedRef_iff.mp h
  obtain ⟨c', hc', rfl⟩ := storedRef_iff.mp h'
  rw [hid, hc'] at hc
  rw [Option.some_inj.mp hc]

theorem storedEdges_nodup (h : LineageStored m) : ((storedEdges m).map LineageEdge.edgeId).Nodup := by
  have hkeys : (storedEdges m).map LineageEdge.edgeId = m.lineage.keys := by
    rw [storedEdges, List.map_map]
    refine List.map_congr_left fun entry hentry => ?_
    exact h.keyed entry.1 entry.2 (AList.mem_lookup_iff.mpr hentry)
  rw [hkeys]
  exact m.lineage.keys_nodup

theorem mem_listLineage :
    edge ∈ listLineage ref direction m ↔ edge ∈ storedEdges m ∧ listedEnd direction edge = ref := by
  rw [listLineage, List.mem_insertionSort, List.mem_filter, decide_eq_true_eq]
  rfl

theorem listLineage_nodup (h : LineageStored m) (ref : CommitRef) :
    ((listLineage ref direction m).map LineageEdge.edgeId).Nodup := by
  have hperm : (listLineage ref direction m).Perm
      ((storedEdges m).filter fun edge => listedEnd direction edge = ref) :=
    List.perm_insertionSort _ _
  rw [(hperm.map _).nodup_iff]
  exact (storedEdges_nodup h).sublist (List.filter_sublist.map _)

/-! ## Keys of commits -/

/-- No digest has a colon in it; a digest is printed in hexadecimal digits. -/
def PlainDigests (pf : Platform) : Prop := ∀ n data, ':' ∉ pf.digest n data

theorem colon_notMem_addressOf (hplain : PlainDigests pf) {tag : String} (htag : ':' ∉ tag.toList)
    {n : Nat} {value : Json} {id : Str} (h : addressOf pf tag n value = .ok id) : ':' ∉ id := by
  unfold addressOf at h
  cases hbytes : canonicalJsonBytes pf value with
  | error e =>
    rw [hbytes] at h
    exact nomatch h
  | ok bytes =>
    rw [hbytes] at h
    obtain rfl : tag.toList ++ pf.digest n bytes = id := Except.ok.inj h
    rw [List.mem_append, not_or]
    exact ⟨htag, hplain n bytes⟩

theorem colon_notMem_commitId (hplain : PlainDigests pf)
    (h : storedRef m ref = true) : ':' ∉ ref.commitId := by
  obtain ⟨c, -, rfl⟩ := storedRef_iff.mp h
  exact colon_notMem_addressOf hplain (by decide) c.valid.address

/-- What stands behind the last colon is known. -/
theorem tail_eq_of_colon {a b c d : Str} (hc : ':' ∉ c) (hd : ':' ∉ d)
    (h : a ++ ':' :: c = b ++ ':' :: d) : c = d := by
  have hreverse := congrArg List.reverse h
  rw [List.reverse_append, List.reverse_append, List.reverse_cons, List.reverse_cons,
    List.append_assoc, List.append_assoc] at hreverse
  have hcut := congrArg (List.takeWhile (· ≠ ':')) hreverse
  have htake : ∀ t u : Str, ':' ∉ t → (t.reverse ++ ([':'] ++ u)).takeWhile (· ≠ ':') = t.reverse := by
    intro t u ht
    rw [List.takeWhile_append_of_pos (by
      intro x hx
      have hne : x ≠ ':' := by
        rintro rfl
        exact ht (List.mem_reverse.mp hx)
      simpa using hne)]
    simp
  rw [htake c _ hc, htake d _ hd] at hcut
  exact List.reverse_injective hcut

theorem nodeKey_inj (hplain : PlainDigests pf) {ref ref' : CommitRef} (h : storedRef m ref = true)
    (h' : storedRef m ref' = true) (hkey : ref.nodeKey = ref'.nodeKey) : ref = ref' := by
  refine storedRef_inj h h' (@tail_eq_of_colon (ref.repository.tenantId ++ ':' :: ref.repository.repositoryId)
    (ref'.repository.tenantId ++ ':' :: ref'.repository.repositoryId) _ _
    (colon_notMem_commitId hplain h) (colon_notMem_commitId hplain h') ?_)
  simpa [CommitRef.nodeKey] using hkey

theorem steps_stored (h : LineageStored m) {n : Nat}
    (hsteps : BreadthFirst.Steps (lineageGraph m direction) root n ref) :
    ref = root ∨ storedRef m ref = true ∧ storedRef m root = true := by
  have hends : ∀ edge ref, edge ∈ listLineage ref direction m →
      storedRef m ref = true ∧ storedRef m (farEnd direction edge) = true := by
    intro edge ref hedge
    obtain ⟨hstored, hend⟩ := mem_listLineage.mp hedge
    have hboth := h.ends _ _ ((mem_storedEdges h).mp hstored)
    rw [← hend]
    cases direction with
    | upstream => exact hboth.symm
    | downstream => exact hboth
  induction hsteps with
  | start => exact .inl rfl
  | @follow n ref edge hsteps hedge ih =>
    obtain ⟨hnear, hfar⟩ := hends edge ref hedge
    rcases ih with rfl | ⟨-, hroot⟩
    · exact .inr ⟨hfar, hnear⟩
    · exact .inr ⟨hfar, hroot⟩

theorem lineageGraph_proper (hplain : PlainDigests pf) (h : LineageStored m) :
    BreadthFirst.Proper (lineageGraph m direction) root where
  node ha hb hkey := by
    rcases steps_stored h ha with rfl | ⟨hfirst, hroot⟩
    · rcases steps_stored h hb with rfl | ⟨hsecond, hroot⟩
      · rfl
      · exact nodeKey_inj hplain hroot hsecond hkey
    · rcases steps_stored h hb with rfl | ⟨hsecond, -⟩
      · exact nodeKey_inj hplain hfirst hroot hkey
      · exact nodeKey_inj hplain hfirst hsecond hkey
  edge _ _ he hf hkey := by
    obtain ⟨he, hend⟩ := mem_listLineage.mp he
    obtain ⟨hf, hend'⟩ := mem_listLineage.mp hf
    have hsame : _ = _ := List.inj_on_of_nodup_map (storedEdges_nodup h) he hf hkey
    subst hsame
    exact ⟨hend.symm.trans hend', rfl⟩
  nodup _ := listLineage_nodup h _

/-! ## What is stored in a run -/

/-- Every stored reference stays one. -/
def KeepsRefs (m m' : Memory pf) : Prop := ∀ ref, storedRef m ref = true → storedRef m' ref = true

theorem LineageStored.sameEdges (h : LineageStored m) (hedges : m'.lineage = m.lineage)
    (hrefs : KeepsRefs m m') : LineageStored m' where
  keyed id edge hedge := h.keyed id edge (hedges ▸ hedge)
  ends id edge hedge :=
    have hends := h.ends id edge (hedges ▸ hedge)
    ⟨hrefs _ hends.1, hrefs _ hends.2⟩

theorem keepsRefs_of_commits (hcommits : m'.commits = m.commits) : KeepsRefs m m' := by
  intro ref href
  rwa [storedRef, hcommits]

/-- A commit is stored under its identifier, which gives its reference. -/
theorem keepsRefs_of_insert {c : Commit pf} (hcommits : m'.commits = m.commits.insert c.commitId c) :
    KeepsRefs m m' := by
  intro ref href
  obtain ⟨c', hc', rfl⟩ := storedRef_iff.mp href
  refine storedRef_iff.mpr ?_
  rw [hcommits]
  by_cases hid : c'.commitId = c.commitId
  · refine ⟨c, ?_, ?_⟩
    · show (m.commits.insert c.commitId c).lookup c'.commitId = some c
      rw [hid, AList.lookup_insert]
    · have hhash : c.contentHash = c'.contentHash := by
        rw [c.valid.hash, c'.valid.hash]
        exact Snapshot.contentHash_eq_iff.mpr (Commit.snapshotId_eq hid.symm)
      exact CommitRef.mk.injEq _ _ _ _ _ _ ▸ ⟨Commit.repository_eq hid.symm, hid.symm, hhash⟩
  · exact ⟨c', (AList.lookup_insert_ne hid).trans hc', rfl⟩

theorem LineageStored.saveLineage (h : LineageStored m) {edge answer : LineageEdge pf}
    (hsave : InMemoryRevisionRepository.saveLineage edge m = .ok (answer, m')) : LineageStored m' := by
  have hcommits : m'.commits = m.commits := by rw [saveLineage_eq_ok hsave]
  have hkept := keepsRefs_of_commits hcommits
  unfold InMemoryRevisionRepository.saveLineage at hsave
  split_ifs at hsave with hends
  split at hsave
  · obtain ⟨-, rfl⟩ := Prod.mk.injEq _ _ _ _ ▸ Except.ok.inj hsave
    have hstored := hends
    refine ⟨fun id e he => ?_, fun id e he => ?_⟩
    · by_cases hid : id = edge.edgeId
      · rw [hid, AList.lookup_insert] at he
        rw [hid, Option.some_inj.mp he]
      · rw [AList.lookup_insert_ne hid] at he
        exact h.keyed id e he
    · by_cases hid : id = edge.edgeId
      · rw [hid, AList.lookup_insert] at he
        rw [← Option.some_inj.mp he]
        exact ⟨hkept _ hstored.1, hkept _ hstored.2⟩
      · rw [AList.lookup_insert_ne hid] at he
        exact ⟨hkept _ (h.ends id e he).1, hkept _ (h.ends id e he).2⟩
  · split_ifs at hsave with hsame
    obtain ⟨-, rfl⟩ := Prod.mk.injEq _ _ _ _ ▸ Except.ok.inj hsave
    exact h

/-- Every answered request keeps the edges stored as they should be. -/
theorem LineageStored.answer (h : LineageStored m) {r : Request pf} {a : Answer r} {s' : Memory pf × ε}
    (hr : handle (inMemoryRevisionRepository pf) environment r (m, env) = (.ok a, s')) :
    LineageStored s'.1 := by
  cases r with
  | now =>
    cases hr
    exact h
  | consume reference challenge =>
    cases hr
    exact h
  | getCommit id =>
    rw [(reading_eq.mp hr).2]
    exact h
  | getBranch ref =>
    rw [(reading_eq.mp hr).2]
    exact h
  | getChangeset ref =>
    rw [(reading_eq.mp hr).2]
    exact h
  | getDiff ref =>
    rw [(reading_eq.mp hr).2]
    exact h
  | listLineage ref direction =>
    rw [(reading_eq.mp hr).2]
    exact h
  | saveChangeset changeset =>
    obtain ⟨store, hstore, rfl⟩ := writing_ok.mp hr
    have hm := saveChangeset_eq_ok hstore
    exact h.sameEdges (by rw [hm]) (keepsRefs_of_commits (by rw [hm]))
  | saveDiff diff =>
    obtain ⟨store, hstore, rfl⟩ := writing_ok.mp hr
    have hm := saveDiff_eq_ok hstore
    exact h.sameEdges (by rw [hm]) (keepsRefs_of_commits (by rw [hm]))
  | saveLineage edge =>
    obtain ⟨store, hstore, rfl⟩ := writing_ok.mp hr
    exact h.saveLineage hstore
  | initializeRepository ref branch commit =>
    obtain ⟨store, hstore, rfl⟩ := writing_ok.mp hr
    obtain ⟨-, -, -, -, -, -, hm⟩ := initializeRepository_eq_ok hstore
    exact h.sameEdges (by rw [hm]) (keepsRefs_of_insert (by rw [hm]))
  | createBranch branch =>
    obtain ⟨store, hstore, rfl⟩ := writing_ok.mp hr
    obtain ⟨-, -, hm⟩ := createBranch_eq_ok hstore
    exact h.sameEdges (by rw [hm]) (keepsRefs_of_commits (by rw [hm]))
  | protectBranch ref policy =>
    obtain ⟨store, hstore, rfl⟩ := writing_ok.mp hr
    obtain ⟨current, -, -, -, -, -, -, hm⟩ := protectBranch_eq_ok hstore
    exact h.sameEdges (by rw [hm]) (keepsRefs_of_commits (by rw [hm]))
  | appendCommit branch commit expectedHead =>
    obtain ⟨store, hstore, rfl⟩ := writing_ok.mp hr
    obtain ⟨-, -, -, -, -, -, -, hm⟩ := appendCommit_eq_ok hstore
    exact h.sameEdges (by rw [hm]) (keepsRefs_of_insert (by rw [hm]))

variable {service : RevisionService} {e : ε}
  {w : World (Memory pf × ε) (Call pf) (@Answer pf) RevisionError (Outcome pf)}

theorem lineageStored_of_run
    (h : FreeRun service.code (handle (inMemoryRevisionRepository pf) environment) environmentOnly
      (World.initial ({}, e)) w) : LineageStored w.state.1 := by
  refine h.invariant (I := fun w => LineageStored w.state.1) ?_ ?_
  · exact ⟨fun id edge hedge => (nomatch hedge), fun id edge hedge => (nomatch hedge)⟩
  · intro w ev w' _ hI _ hs
    cases hs with
    | begin c => exact hI
    | outside s hout =>
      rw [show s.1 = w.state.1 from hout]
      exact hI
    | answer i c past r g k a s hi hr => exact hI.answer hr
    | refuse i c past r g k err s hi hr =>
      rw [handle_error hr]
      exact hI

/-! ## The result of `lineage` -/

/-- A stored edge and how many edges lead from the root to its near end. -/
def EdgeAt (m : Memory pf) (direction : Direction) (root : CommitRef) (n : Nat)
    (edge : LineageEdge pf) : Prop :=
  edge ∈ storedEdges m
    ∧ BreadthFirst.Steps (lineageGraph m direction) root n (listedEnd direction edge)

/-- The result of a search for lineage: distinct stored edges that start fewer than `maxDepth` edges from
the root, and all of these unless there are more than `maxEdges`; it is called truncated exactly where
an edge that the root leads to is not there. -/
structure LineageResult (m : Memory pf) (root : CommitRef) (direction : Direction)
    (maxDepth maxEdges : Nat) (graph : LineageGraph pf) : Prop where
  asked : graph.root = root ∧ graph.direction = direction
  distinct : (graph.edges.map LineageEdge.edgeId).Nodup
  bound : graph.edges.length ≤ maxEdges
  near : ∀ edge ∈ graph.edges, ∃ n < maxDepth, EdgeAt m direction root n edge
  complete : (∀ n < maxDepth, ∀ edge, EdgeAt m direction root n edge → edge ∈ graph.edges)
    ∨ graph.edges.length = maxEdges
  truncated : graph.truncated = true
    ↔ ∃ n edge, EdgeAt m direction root n edge ∧ edge ∉ graph.edges

theorem edgeAt_iff {n : Nat} : EdgeAt m direction root n edge
    ↔ ∃ ref, BreadthFirst.Steps (lineageGraph m direction) root n ref
      ∧ edge ∈ (lineageGraph m direction).direct ref := by
  constructor
  · rintro ⟨hedge, hsteps⟩
    exact ⟨_, hsteps, mem_listLineage.mpr ⟨hedge, rfl⟩⟩
  · rintro ⟨ref, hsteps, hedge⟩
    obtain ⟨hstored, rfl⟩ := mem_listLineage.mp hedge
    exact ⟨hstored, hsteps⟩

theorem LineageResult.of_searched {graph : LineageGraph pf}
    (hasked : graph.root = root ∧ graph.direction = direction)
    (h : BreadthFirst.Searched (lineageGraph m direction) root maxDepth maxEdges graph.edges graph.truncated) :
    LineageResult m root direction maxDepth maxEdges graph where
  asked := hasked
  distinct := h.distinct
  bound := h.bound
  near edge hedge := by
    obtain ⟨n, hn, ref, hsteps, hdirect⟩ := h.near edge hedge
    exact ⟨n, hn, edgeAt_iff.mpr ⟨ref, hsteps, hdirect⟩⟩
  complete := h.complete.imp_left fun hall n hn edge hedge => by
    obtain ⟨ref, hsteps, hdirect⟩ := edgeAt_iff.mp hedge
    exact hall n hn ref hsteps edge hdirect
  truncated := h.truncated_iff.trans <| by
    constructor
    · rintro ⟨n, ref, edge, hsteps, hdirect, hout⟩
      exact ⟨n, edge, edgeAt_iff.mpr ⟨ref, hsteps, hdirect⟩, hout⟩
    · rintro ⟨n, edge, hedge, hout⟩
      obtain ⟨ref, hsteps, hdirect⟩ := edgeAt_iff.mp hedge
      exact ⟨n, ref, edge, hsteps, hdirect, hout⟩

/-- **A search for lineage** from a stored commit answers with the edges near it and tells rightly
whether it left one out, in every state that calls of the service lead to. -/
theorem lineage_searched (hplain : PlainDigests pf)
    (h : FreeRun service.code (handle (inMemoryRevisionRepository pf) environment) environmentOnly
      (World.initial ({}, e)) w)
    (hdepth : 1 ≤ maxDepth ∧ maxDepth ≤ 20) (hedges : 1 ≤ maxEdges ∧ maxEdges ≤ 1000)
    (hroot : w.state.1.hasCommit root.commitId root.repository = true) :
    ∃ graph, run (handle (inMemoryRevisionRepository pf) environment)
        (lineage root direction maxDepth maxEdges) w.state = (.ok graph, w.state)
      ∧ LineageResult w.state.1 root direction maxDepth maxEdges graph := by
  have hstored := lineageStored_of_run h
  obtain ⟨hqueue, hsearched⟩ := @BreadthFirst.walk_searched _ _ _ _ (lineageGraph w.state.1 direction)
    root maxDepth maxEdges _ _ (lineageGraph_proper hplain hstored)
  obtain ⟨w', hrun, hwalk⟩ := @run_lineageLoop pf w.state.1 ε environment w.state.2 direction maxDepth
    maxEdges (maxEdges + 1) { queue := [(root, 0)], visitedNodes := [root.nodeKey] } hqueue
  refine ⟨⟨root, direction, w'.edges, w'.truncated⟩, ?_, .of_searched ⟨rfl, rfl⟩ ?_⟩
  · obtain ⟨commit, hcommit, hrepository⟩ := Memory.hasCommit_iff.mp hroot
    have hget : run (handle (inMemoryRevisionRepository pf) environment)
        (getCommit root.commitId (some root.repository)) w.state = (.ok commit, w.state) := by
      have hread : run (handle (inMemoryRevisionRepository pf) environment)
          (readCommit root.commitId : Prog pf _) w.state = (.ok (some commit), w.state) := by
        rw [← hcommit]
        rfl
      rw [getCommit, run_bind_ok _ hread]
      simp [hrepository]
    rw [lineage, if_neg (by omega), if_neg (by omega), run_bind_ok _ hget, run_bind_ok _ hrun]
    rfl
  · have hends : w'.toWalk = _ := hwalk
    rw [← show w'.toWalk.edges = w'.edges from rfl, ← show w'.toWalk.truncated = w'.truncated from rfl, hends]
    exact hsearched

/-! ## A search along one edge -/

/-- A byte in two hexadecimal digits. -/
def hexText (b : UInt8) : Str := [hexDigit (b.toNat / 16), hexDigit (b.toNat % 16)]

theorem hexDigit_ne_colon : ∀ n < 16, hexDigit n ≠ ':' := by decide

theorem hexText_chars (b : UInt8) : ∀ c ∈ hexText b, c.toNat < 128 ∧ c ≠ ':' := by
  have hlt := b.toNat_lt
  have hdigit : ∀ n < 16, (hexDigit n).toNat < 128 := by decide
  intro c hc
  rcases List.mem_cons.mp hc with rfl | hc
  · exact ⟨hdigit _ (by omega), hexDigit_ne_colon _ (by omega)⟩
  · rw [List.mem_singleton.mp hc]
    exact ⟨hdigit _ (by omega), hexDigit_ne_colon _ (by omega)⟩

theorem flatMap_hexText_injective : Function.Injective (fun bs : List UInt8 => bs.flatMap hexText) := by
  intro bs
  induction bs with
  | nil =>
    intro cs h
    cases cs with
    | nil => rfl
    | cons c cs => exact nomatch h
  | cons b bs ih =>
    intro cs h
    cases cs with
    | nil => exact nomatch h
    | cons c cs =>
      have hb := b.toNat_lt
      have hc := c.toNat_lt
      simp only [List.flatMap_cons, hexText, List.cons_append, List.nil_append, List.cons.injEq] at h
      obtain ⟨hhigh, hlow, hrest⟩ := h
      have hhigh' := congrArg hexValue hhigh
      have hlow' := congrArg hexValue hlow
      rw [hexValue_hexDigit _ (by omega), hexValue_hexDigit _ (by omega)] at hhigh' hlow'
      rw [UInt8.toNat_inj.mp (show b.toNat = c.toNat by omega), ih hrest]

/-- The reference platform with digests in hexadecimal digits. -/
def hexPlatform : Platform :=
  { Platform.reference with
    digest := fun _ bytes => bytes.flatMap hexText
    digest_injective := fun _ => flatMap_hexText_injective
    digest_ascii := fun _ bytes c hc => by
      obtain ⟨b, -, hin⟩ := List.mem_flatMap.mp hc
      exact (hexText_chars b c hin).1 }

theorem plainDigests_hexPlatform : PlainDigests hexPlatform := by
  intro n bytes hin
  obtain ⟨b, -, hb⟩ := List.mem_flatMap.mp hin
  exact (hexText_chars b _ hb).2 rfl

def hexService : RevisionService := { adapter := jsonDocumentAdapter hexPlatform }

/-- The first commit of `main`. -/
def hexStart : Call hexPlatform :=
  .initializeRepository sampleRepository "main".toList (sampleDocument 0) "a".toList "m".toList

/-- The references of the commits that calls made one after another create. -/
def commitRefs (calls : List (Call hexPlatform)) : List CommitRef :=
  (hexService.runCalls (inMemoryRevisionRepository hexPlatform) denyApprovals calls
    ({}, 0)).1.filterMap fun x => match x with
      | .ok (.committed outcome) => some outcome.commit.ref
      | _ => none

/-- The reference of the first commit of `main`. -/
def firstRef : CommitRef := (commitRefs [hexStart]).headD ⟨sampleRepository, [], []⟩

def secondCommit : Call hexPlatform :=
  .commit mainBranch (sampleDocument 1) firstRef.commitId "a".toList "m".toList none

/-- The second commit, linked as derived from the first. -/
def linkSecond : Call hexPlatform :=
  .linkLineage firstRef ((commitRefs [hexStart, secondCommit]).getLastD firstRef) "used_in".toList
    "a".toList

def linkSchedule : List (Move (Call hexPlatform)) :=
  [.begin hexStart, .next 0, .next 0, .begin secondCommit, .next 1, .next 1, .next 1, .next 1,
    .begin linkSecond, .next 2, .next 2, .next 2, .next 2, .next 2]

set_option maxRecDepth 100000 in
theorem lineage_searched_link :
    ∃ (w : World (Memory hexPlatform × Timestamp) (Call hexPlatform) (@Answer hexPlatform)
        RevisionError (Outcome hexPlatform)) (graph : LineageGraph hexPlatform),
      (storedEdges w.state.1).length = 1
        ∧ run (handle (inMemoryRevisionRepository hexPlatform) denyApprovals)
            (lineage firstRef .downstream 1 1) w.state = (.ok graph, w.state)
        ∧ LineageResult w.state.1 firstRef .downstream 1 1 graph := by
  have hmoves : ((World.initial ({}, 0) : World (Memory hexPlatform × Timestamp) (Call hexPlatform)
      (@Answer hexPlatform) RevisionError (Outcome hexPlatform)).moves hexService.code
      (handle (inMemoryRevisionRepository hexPlatform) denyApprovals) linkSchedule).any (fun w =>
        (storedEdges w.state.1).length = 1
          ∧ w.state.1.hasCommit firstRef.commitId firstRef.repository = true) = true := by
    decide +kernel
  obtain ⟨w, hw, hone⟩ := (Option.any_eq_true _ _).mp hmoves
  obtain ⟨hlength, hroot⟩ := of_decide_eq_true hone
  obtain ⟨graph, hgraph⟩ := @lineage_searched _ _ _ .downstream 1 1 _ _ _ _ plainDigests_hexPlatform
    (World.run_of_moves hw) ⟨le_rfl, by decide⟩ ⟨le_rfl, by decide⟩ hroot
  exact ⟨w, graph, hlength, hgraph⟩

end Ai00.Revision
