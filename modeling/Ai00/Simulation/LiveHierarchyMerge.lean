import Ai00.Simulation.LiveHierarchySync

/-! # What the reconciliation of a hierarchy returns

The search of `_graph_errors` ends and finds no error exactly in a forest (`graphErrors_ok`); the loop
over the ids leaves for each id what was chosen for it (`nodeOf_mergeAll`). Together they say what
`reconcile` returns, and that it does not matter which of the two changed snapshots comes first.
-/

namespace Ai00.Simulation

open Relation KeyedRows Parents

variable {nodes result : List HierarchyNode} {b a v : List HierarchyNode} {id key : Str}

/-! ## Forests -/

def parentOf (f : Str → Option HierarchyNode) (id : Str) : Option Str :=
  (f id).bind HierarchyNode.parentId

/-- Every node has its parent and leads up to a root. -/
def ForestOf (f : Str → Option HierarchyNode) : Prop :=
  ∀ id n, f id = some n → (∀ p ∈ n.parentId, ∃ m, f p = some m)
    ∧ ∃ root r, ReflTransGen (Edge (parentOf f)) id root ∧ f root = some r ∧ r.parentId = none

structure IsForest (nodes : List HierarchyNode) : Prop where
  unique : (nodeIds nodes).Nodup
  forest : ForestOf (nodeOf nodes)

variable {n : HierarchyNode}

theorem nodeOf_of_mem (h : (nodeIds nodes).Nodup) (hn : n ∈ nodes) :
    nodeOf nodes n.nodeId = some n := lookup_of_mem h hn

theorem mem_of_nodeOf (h : nodeOf nodes id = some n) : n ∈ nodes :=
  mem_of_lookup h

theorem nodeId_of_nodeOf (h : nodeOf nodes id = some n) : n.nodeId = id :=
  key_of_lookup h

theorem nodeOf_eq_none_iff : nodeOf nodes id = none ↔ id ∉ nodeIds nodes := by
  unfold nodeOf
  rw [lookup_eq_none_iff, nodeIds, List.mem_map]
  simp

theorem up_iff_edge (h : (nodeIds nodes).Nodup) (i j : Str) :
    Up HierarchyNode.nodeId HierarchyNode.parentId nodes i j ↔ Edge (parentOf (nodeOf nodes)) i j := by
  constructor
  · rintro ⟨n, hn, rfl, hp⟩
    rw [Edge, parentOf, nodeOf_of_mem h hn]
    exact hp
  · intro hedge
    obtain ⟨n, hn, hp⟩ := Option.bind_eq_some_iff.mp hedge
    exact ⟨n, mem_of_nodeOf hn, nodeId_of_nodeOf hn, hp⟩

theorem rooted_iff (h : (nodeIds nodes).Nodup) : Rooted HierarchyNode.nodeId HierarchyNode.parentId nodes id ↔
      ∃ root r, ReflTransGen (Edge (parentOf (nodeOf nodes))) id root
        ∧ nodeOf nodes root = some r ∧ r.parentId = none := by
  have hsame : Up HierarchyNode.nodeId HierarchyNode.parentId nodes = Edge (parentOf (nodeOf nodes)) := by
    funext i j
    exact propext (up_iff_edge h i j)
  unfold Rooted
  rw [hsame]
  constructor
  · rintro ⟨r, hr, hnone, hreach⟩
    exact ⟨r.nodeId, r, hreach, nodeOf_of_mem h hr, hnone⟩
  · rintro ⟨root, r, hreach, hr, hnone⟩
    exact ⟨r, mem_of_nodeOf hr, hnone, nodeId_of_nodeOf hr ▸ hreach⟩

/-- **The errors of a graph** are none exactly in a forest. -/
theorem graphErrors_ok (h : (nodeIds nodes).Nodup) :
    ∃ errors, graphErrors nodes = .ok errors ∧ (errors = [] ↔ ForestOf (nodeOf nodes)) := by
  have hroots : ∃ met, search (children HierarchyNode.nodeId HierarchyNode.parentId nodes)
        nodes.length (roots HierarchyNode.nodeId HierarchyNode.parentId nodes) [] = some met
      ∧ ∀ a, a ∈ met ↔ Rooted HierarchyNode.nodeId HierarchyNode.parentId nodes a := search_roots h
  obtain ⟨met, hsearch, hmet⟩ := hroots
  unfold graphErrors
  dsimp only
  split_ifs with hmissing
  · refine ⟨_, rfl, iff_of_false (by simpa using hmissing) fun hforest => ?_⟩
    obtain ⟨n, hn⟩ := List.exists_mem_of_ne_nil _ hmissing
    obtain ⟨hn, hlost⟩ := List.mem_filter.mp hn
    obtain ⟨p, hp, hnone⟩ := of_decide_eq_true hlost
    obtain ⟨m, hm⟩ := (hforest n.nodeId n (nodeOf_of_mem h hn)).1 p hp
    rw [hnone] at hm
    cases hm
  · rw [hsearch]
    refine ⟨_, rfl, ?_⟩
    have hparents : ∀ n ∈ nodes, ∀ p ∈ n.parentId, ∃ m, nodeOf nodes p = some m := by
      intro n hn p hp
      by_contra hnone
      have hlost := List.filter_eq_nil_iff.mp (not_not.mp hmissing) n hn
      refine hlost (decide_eq_true ⟨p, hp, ?_⟩)
      exact Option.eq_none_iff_forall_ne_some.mpr fun m hm => hnone ⟨m, hm⟩
    rw [List.map_eq_nil_iff, List.filter_eq_nil_iff]
    constructor
    · intro hall id n hn
      have hin : n.nodeId ∈ met := by simpa using hall n (mem_of_nodeOf hn)
      refine ⟨hparents n (mem_of_nodeOf hn), (rooted_iff h).mp ?_⟩
      exact nodeId_of_nodeOf hn ▸ (hmet _).mp hin
    · intro hforest n hn
      have hrooted := (rooted_iff h).mpr (hforest n.nodeId n (nodeOf_of_mem h hn)).2
      simpa using (hmet _).mpr hrooted

/-! ## Validation -/

theorem foldlM_indexNode {front : List HierarchyNode}
    (h : nodes.foldlM indexNode front = .ok result) (hfront : (nodeIds front).Nodup) :
    result = front ++ nodes ∧ (nodeIds result).Nodup := by
  induction nodes generalizing front with
  | nil =>
    cases h
    exact ⟨(List.append_nil _).symm, hfront⟩
  | cons node nodes ih =>
    rw [List.foldlM_cons] at h
    obtain ⟨next, hnext, h⟩ := bind_eq_ok.mp h
    obtain ⟨_, -, hnext⟩ := bind_eq_ok.mp hnext
    obtain ⟨_, -, hnext⟩ := bind_eq_ok.mp hnext
    obtain ⟨_, -, hnext⟩ := bind_eq_ok.mp hnext
    obtain ⟨_, -, hnext⟩ := bind_eq_ok.mp hnext
    obtain ⟨_, -, hnext⟩ := bind_eq_ok.mp hnext
    obtain ⟨_, -, hnext⟩ := bind_eq_ok.mp hnext
    obtain ⟨_, hnew, hnext⟩ := bind_eq_ok.mp hnext
    cases hnext
    have hnew := nodeOf_eq_none_iff.mp (require_eq_ok.mp hnew)
    have hnodup : (nodeIds (front ++ [node])).Nodup := by
      rw [nodeIds, List.map_append, List.map_singleton, ← List.concat_eq_append, List.nodup_concat]
      exact ⟨hnew, hfront⟩
    obtain ⟨rfl, hresult⟩ := ih h hnodup
    exact ⟨by simp, hresult⟩

theorem indexSnapshot_ok {s : HierarchySnapshot} (h : indexSnapshot s = .ok result) :
    result = s.nodes ∧ IsForest s.nodes := by
  obtain ⟨_, -, h⟩ := bind_eq_ok.mp h
  obtain ⟨_, -, h⟩ := bind_eq_ok.mp h
  obtain ⟨indexed, hindexed, h⟩ := bind_eq_ok.mp h
  obtain ⟨errors, herrors, h⟩ := bind_eq_ok.mp h
  obtain ⟨_, hnone, h⟩ := bind_eq_ok.mp h
  cases h
  obtain ⟨rfl, hunique⟩ := foldlM_indexNode hindexed List.nodup_nil
  rw [List.nil_append] at hunique herrors ⊢
  obtain ⟨errors', herrors', hiff⟩ := graphErrors_ok hunique
  obtain rfl : errors' = errors := Except.ok.inj (herrors'.symm.trans herrors)
  exact ⟨rfl, hunique, hiff.mp (require_eq_ok.mp hnone)⟩

/-! ## Merging -/

/-- What the merge has for an id that is no conflict. -/
def picked (b a v : List HierarchyNode) (key : Str) : Option HierarchyNode :=
  match chooseNode key (nodeOf b key) (nodeOf a key) (nodeOf v key) with
  | .ok chosen => chosen
  | .error _ => none

def conflictOf (b a v : List HierarchyNode) (key : Str) : Option SyncConflict :=
  match chooseNode key (nodeOf b key) (nodeOf a key) (nodeOf v key) with
  | .ok _ => none
  | .error conflict => some conflict

theorem nodeId_of_picked (h : picked b a v key = some n) : n.nodeId = key := by
  unfold picked chooseNode at h
  split_ifs at h
  · exact nodeId_of_nodeOf h
  · exact nodeId_of_nodeOf h
  · exact nodeId_of_nodeOf h

theorem mergeKey_eq (merged : List HierarchyNode) (conflicts : List SyncConflict) :
    mergeKey b a v (merged, conflicts) key
      = ((picked b a v key).elim merged fun chosen => upsert HierarchyNode.nodeId chosen merged,
        conflicts ++ (conflictOf b a v key).toList) := by
  rcases hchoose : chooseNode key (nodeOf b key) (nodeOf a key) (nodeOf v key)
    with conflict | _ | chosen <;> simp [mergeKey, picked, conflictOf, hchoose]

theorem foldl_mergeKey (keys : List Str) (merged : List HierarchyNode)
    (conflicts : List SyncConflict) (hmerged : (nodeIds merged).Nodup) :
    (nodeIds (keys.foldl (mergeKey b a v) (merged, conflicts)).1).Nodup
      ∧ (∀ id, nodeOf (keys.foldl (mergeKey b a v) (merged, conflicts)).1 id
          = if id ∈ keys then (picked b a v id).or (nodeOf merged id) else nodeOf merged id)
      ∧ (keys.foldl (mergeKey b a v) (merged, conflicts)).2 = conflicts ++ keys.filterMap (conflictOf b a v) := by
  induction keys generalizing merged conflicts with
  | nil => exact ⟨hmerged, fun id => by simp, by simp⟩
  | cons key keys ih =>
    rw [List.foldl_cons, mergeKey_eq]
    have hnext : (nodeIds ((picked b a v key).elim merged fun chosen =>
        upsert HierarchyNode.nodeId chosen merged)).Nodup := by
      cases picked b a v key with
      | none => exact hmerged
      | some chosen => exact nodup_upsert hmerged
    have hfound : ∀ id, nodeOf ((picked b a v key).elim merged fun chosen =>
        upsert HierarchyNode.nodeId chosen merged) id
          = if id = key then (picked b a v id).or (nodeOf merged id) else nodeOf merged id := by
      intro id
      cases hpicked : picked b a v key with
      | none =>
        by_cases heq : id = key
        · rw [if_pos heq, heq, hpicked]
          rfl
        · rw [if_neg heq]
          rfl
      | some chosen =>
        have hkey := nodeId_of_picked hpicked
        show lookup HierarchyNode.nodeId id (upsert HierarchyNode.nodeId chosen merged) = _
        rw [lookup_upsert, hkey]
        by_cases heq : key = id
        · rw [if_pos heq, if_pos heq.symm, ← heq, hpicked]
          rfl
        · rw [if_neg heq, if_neg (Ne.symm heq)]
          rfl
    obtain ⟨hunique, hnodes, hconflicts⟩ := ih _ (conflicts ++ (conflictOf b a v key).toList) hnext
    refine ⟨hunique, fun id => ?_, ?_⟩
    · rw [hnodes id, hfound id]
      by_cases hkey : id = key
      · subst hkey
        by_cases hin : id ∈ keys <;> simp [hin, ← Option.or_assoc]
      · simp [hkey]
    · rw [hconflicts]
      cases hconflict : conflictOf b a v key <;> simp [hconflict]

/-- **The merge has for each id what was chosen for it.** -/
theorem nodeOf_mergeAll (id : Str) : nodeOf (mergeAll b a v).1 id = picked b a v id := by
  have hfold := (foldl_mergeKey (b := b) (a := a) (v := v)
    (Dict.sortedUnion (nodeIds b ++ nodeIds a) (nodeIds v)) [] [] List.nodup_nil).2.1 id
  unfold mergeAll
  rw [hfold]
  split_ifs with hin
  · exact Option.or_none
  · -- no snapshot has the id
    rw [Dict.mem_sortedUnion, List.mem_append, not_or, not_or] at hin
    have hb := nodeOf_eq_none_iff.mpr hin.1.1
    have ha := nodeOf_eq_none_iff.mpr hin.1.2
    have hv := nodeOf_eq_none_iff.mpr hin.2
    have hpicked : picked b a v id = none := by simp [picked, chooseNode, ha, hv]
    rw [hpicked]
    rfl

theorem mergeAll_unique : (nodeIds (mergeAll b a v).1).Nodup :=
  (foldl_mergeKey _ [] [] List.nodup_nil).1

theorem mergeAll_conflicts : (mergeAll b a v).2
    = (Dict.sortedUnion (nodeIds b ++ nodeIds a) (nodeIds v)).filterMap (conflictOf b a v) := by
  unfold mergeAll
  rw [(foldl_mergeKey _ [] [] List.nodup_nil).2.2, List.nil_append]

theorem conflictOf_ne_none : conflictOf b a v key ≠ none ↔ nodeOf a key ≠ nodeOf b key
    ∧ nodeOf v key ≠ nodeOf b key ∧ nodeOf a key ≠ nodeOf v key := by
  unfold conflictOf chooseNode
  split_ifs with hav hab hvb
  · simp [hav]
  · simp [hab]
  · simp [hvb]
  · simp [hab, hvb, hav]

/-- **The merge has conflicts** exactly where some id was changed in two ways. -/
theorem mergeAll_conflicts_ne_nil : (mergeAll b a v).2 ≠ [] ↔ ∃ id, nodeOf a id ≠ nodeOf b id
    ∧ nodeOf v id ≠ nodeOf b id ∧ nodeOf a id ≠ nodeOf v id := by
  rw [mergeAll_conflicts, ne_eq, List.filterMap_eq_nil_iff]
  simp only [not_forall]
  constructor
  · rintro ⟨id, -, hid⟩
    exact ⟨id, conflictOf_ne_none.mp hid⟩
  · rintro ⟨id, ha, hv, hav⟩
    refine ⟨id, ?_, conflictOf_ne_none.mpr ⟨ha, hv, hav⟩⟩
    rw [Dict.mem_sortedUnion, List.mem_append]
    by_contra hnot
    rw [not_or, not_or, ← nodeOf_eq_none_iff, ← nodeOf_eq_none_iff, ← nodeOf_eq_none_iff] at hnot
    exact hav (hnot.1.2.trans hnot.2.symm)

/-- The one-sided changes of the two snapshots. -/
def oneSided (b a v : List HierarchyNode) (id : Str) : Option HierarchyNode :=
  if nodeOf a id = nodeOf b id then nodeOf v id else nodeOf a id

theorem picked_eq_oneSided (h : (mergeAll b a v).2 = []) (id : Str) :
    picked b a v id = oneSided b a v id := by
  have hnone : ¬ (nodeOf a id ≠ nodeOf b id ∧ nodeOf v id ≠ nodeOf b id ∧ nodeOf a id ≠ nodeOf v id) :=
    fun hid => mergeAll_conflicts_ne_nil.mpr ⟨id, hid⟩ h
  unfold picked chooseNode oneSided
  by_cases hav : nodeOf a id = nodeOf v id <;> by_cases hab : nodeOf a id = nodeOf b id <;>
    by_cases hvb : nodeOf v id = nodeOf b id <;> simp_all

/-! ## The other snapshot first -/

def SyncConflict.mirrored (c : SyncConflict) : SyncConflict :=
  { c with desired := c.observed, observed := c.desired }

theorem picked_swap : picked b v a key = picked b a v key := by
  unfold picked chooseNode
  by_cases hav : nodeOf a key = nodeOf v key
  · simp [hav]
  · by_cases hab : nodeOf a key = nodeOf b key <;> by_cases hvb : nodeOf v key = nodeOf b key <;>
      simp_all [Ne.symm]

theorem conflictOf_swap : conflictOf b v a key = (conflictOf b a v key).map SyncConflict.mirrored := by
  unfold conflictOf chooseNode
  by_cases hav : nodeOf a key = nodeOf v key
  · simp [hav]
  · by_cases hab : nodeOf a key = nodeOf b key <;> by_cases hvb : nodeOf v key = nodeOf b key <;>
      simp_all [Ne.symm, SyncConflict.mirrored]

theorem mergeAll_swap : mergeAll b v a = ((mergeAll b a v).1, (mergeAll b a v).2.map SyncConflict.mirrored) := by
  have hkeys : Dict.sortedUnion (nodeIds b ++ nodeIds v) (nodeIds a)
      = Dict.sortedUnion (nodeIds b ++ nodeIds a) (nodeIds v) := by
    apply Dict.sortedUnion_congr
    intro k
    simp only [List.mem_append]
    tauto
  have hfold : ∀ (keys : List Str) (merged : List HierarchyNode) (conflicts : List SyncConflict),
      keys.foldl (mergeKey b v a) (merged, conflicts.map SyncConflict.mirrored)
        = ((keys.foldl (mergeKey b a v) (merged, conflicts)).1,
          (keys.foldl (mergeKey b a v) (merged, conflicts)).2.map SyncConflict.mirrored) := by
    intro keys
    induction keys with
    | nil => exact fun merged conflicts => rfl
    | cons key keys ih =>
      intro merged conflicts
      rw [List.foldl_cons, List.foldl_cons, mergeKey_eq, mergeKey_eq, picked_swap, conflictOf_swap,
        ← ih, List.map_append]
      cases conflictOf b a v key <;> rfl
  unfold mergeAll
  rw [hkeys]
  exact hfold _ [] []

/-! ## What is returned -/

/-- Whether a side removed an id of the base. -/
def RemovedBy (before side : Option HierarchyNode) : Prop := before ≠ none ∧ side = none

/-- What a reconciliation says of the base, the desired and the observed nodes. -/
structure Reconciles (b a v : List HierarchyNode) (r : Reconciliation) : Prop where
  forest : ∀ nodes, r.nodes = some nodes → IsForest nodes
  /-- A node has the value of the side that changed it, or else the one of the base. -/
  changed : ∀ nodes, r.nodes = some nodes → ∀ id,
    (nodeOf a id ≠ nodeOf b id → nodeOf nodes id = nodeOf a id)
      ∧ (nodeOf v id ≠ nodeOf b id → nodeOf nodes id = nodeOf v id)
      ∧ (nodeOf a id = nodeOf b id → nodeOf v id = nodeOf b id → nodeOf nodes id = nodeOf b id)
  /-- Of the ids of the three snapshots, those are absent which a side removed while the other left
  them or removed them too. -/
  absent : ∀ nodes, r.nodes = some nodes → ∀ id ∈ nodeIds b ++ nodeIds a ++ nodeIds v,
    nodeOf nodes id = none ↔
      (RemovedBy (nodeOf b id) (nodeOf a id) ∧ (nodeOf v id = nodeOf b id ∨ nodeOf v id = none))
        ∨ (RemovedBy (nodeOf b id) (nodeOf v id)
          ∧ (nodeOf a id = nodeOf b id ∨ nodeOf a id = none))
  conflicts : r.nodes = none ↔ r.conflicts ≠ []
  /-- Nothing is returned exactly where an id was changed in two ways or the one-sided changes make no
  forest. -/
  refused : r.nodes = none ↔ (∃ id, nodeOf a id ≠ nodeOf b id ∧ nodeOf v id ≠ nodeOf b id
    ∧ nodeOf a id ≠ nodeOf v id) ∨ ¬ ForestOf (oneSided b a v)

/-- The result for indexed snapshots. -/
def mergeResult (b a v : List HierarchyNode) : Except SyncError Reconciliation := do
  let (merged, conflicts) := mergeAll b a v
  if conflicts ≠ [] then return ⟨none, conflicts⟩
  let errors ← graphErrors merged
  let conflicts := (errors.insertionSort fun e e' => e.1 ≤ e'.1).map fun error =>
    ⟨error.1, error.2, nodeOf b error.1, nodeOf a error.1, nodeOf v error.1⟩
  return ⟨if conflicts = [] then some merged else none, conflicts⟩

variable {r : Reconciliation}

variable {base desired observed : HierarchySnapshot}

theorem reconcile_ok (h : reconcile base desired observed = .ok r) :
    mergeResult base.nodes desired.nodes observed.nodes = .ok r := by
  obtain ⟨_, -, h⟩ := bind_eq_ok.mp h
  obtain ⟨_, -, h⟩ := bind_eq_ok.mp h
  obtain ⟨b, hb, h⟩ := bind_eq_ok.mp h
  obtain ⟨a, ha, h⟩ := bind_eq_ok.mp h
  obtain ⟨v, hv, h⟩ := bind_eq_ok.mp h
  obtain ⟨rfl, -⟩ := indexSnapshot_ok hb
  obtain ⟨rfl, -⟩ := indexSnapshot_ok ha
  obtain ⟨rfl, -⟩ := indexSnapshot_ok hv
  exact h

theorem mergeResult_of_nil (hnil : (mergeAll b a v).2 = [])
    (h : mergeResult b a v = .ok r) :
    (r.nodes = some (mergeAll b a v).1 ∧ r.conflicts = [] ∧ ForestOf (nodeOf (mergeAll b a v).1))
      ∨ (r.nodes = none ∧ r.conflicts ≠ [] ∧ ¬ ForestOf (nodeOf (mergeAll b a v).1)) := by
  obtain ⟨errors, herrors, hiff⟩ := graphErrors_ok (mergeAll_unique (b := b) (a := a) (v := v))
  unfold mergeResult at h
  dsimp only at h
  rw [if_neg (not_not.mpr hnil), herrors] at h
  obtain rfl := Except.ok.inj h
  by_cases hempty : errors = []
  · subst hempty
    exact Or.inl ⟨rfl, rfl, hiff.mp rfl⟩
  · have hconflicts : ((errors.insertionSort fun e e' => e.1 ≤ e'.1).map fun error =>
        (⟨error.1, error.2, nodeOf b error.1, nodeOf a error.1, nodeOf v error.1⟩ : SyncConflict)) ≠ [] := by
      rw [ne_eq, List.map_eq_nil_iff]
      intro hsorted
      have hlength := List.length_insertionSort (fun e e' : Str × String => e.1 ≤ e'.1) errors
      rw [hsorted] at hlength
      exact hempty (List.length_eq_zero_iff.mp hlength.symm)
    exact Or.inr ⟨if_neg hconflicts, hconflicts, fun hforest => hempty (hiff.mpr hforest)⟩

theorem mergeResult_of_conflicts (hne : (mergeAll b a v).2 ≠ [])
    (h : mergeResult b a v = .ok r) : r = ⟨none, (mergeAll b a v).2⟩ := by
  unfold mergeResult at h
  dsimp only at h
  rw [if_pos hne] at h
  exact (Except.ok.inj h).symm

theorem mergeResult_reconciles (h : mergeResult b a v = .ok r) :
    Reconciles b a v r := by
  by_cases hnil : (mergeAll b a v).2 = []
  · have hone : nodeOf (mergeAll b a v).1 = oneSided b a v := by
      funext id
      rw [nodeOf_mergeAll, picked_eq_oneSided hnil]
    have hnone : ¬ ∃ id, nodeOf a id ≠ nodeOf b id ∧ nodeOf v id ≠ nodeOf b id
        ∧ nodeOf a id ≠ nodeOf v id := fun hid => mergeAll_conflicts_ne_nil.mpr hid hnil
    have hresult := mergeResult_of_nil hnil h
    -- what is returned is the merge, and that is the one-sided changes
    have hnodes : ∀ nodes, r.nodes = some nodes →
        nodeOf nodes = oneSided b a v ∧ IsForest nodes := by
      intro nodes hsome
      rcases hresult with ⟨hmerged, -, hforest⟩ | ⟨hrefused, -, -⟩
      · obtain rfl : (mergeAll b a v).1 = nodes := Option.some.inj (hmerged.symm.trans hsome)
        exact ⟨hone, mergeAll_unique, hforest⟩
      · rw [hrefused] at hsome
        cases hsome
    have heither : ∀ id, nodeOf a id = nodeOf b id ∨ nodeOf v id = nodeOf b id
        ∨ nodeOf a id = nodeOf v id := by
      intro id
      by_contra hid
      rw [not_or, not_or] at hid
      exact hnone ⟨id, hid⟩
    refine ⟨fun nodes hsome => (hnodes nodes hsome).2, fun nodes hsome id => ?_,
      fun nodes hsome id hin => ?_, ?_, ?_⟩
    · rw [(hnodes nodes hsome).1, oneSided]
      have hid := heither id
      refine ⟨fun ha => if_neg ha, fun hv => ?_, fun ha hv => (if_pos ha).trans hv⟩
      split_ifs with ha
      · rfl
      · tauto
    · rw [(hnodes nodes hsome).1, oneSided]
      have hid := heither id
      have hknown : ¬ (nodeOf b id = none ∧ nodeOf a id = none ∧ nodeOf v id = none) := by
        rintro ⟨hb, ha, hv⟩
        rw [List.mem_append, List.mem_append] at hin
        rw [nodeOf_eq_none_iff] at hb ha hv
        tauto
      unfold RemovedBy
      split_ifs with ha
      · rw [ha] at hknown ⊢
        by_cases hv : nodeOf v id = none <;> by_cases hb : nodeOf b id = none <;> simp_all
      · by_cases ha' : nodeOf a id = none <;> by_cases hb : nodeOf b id = none <;> simp_all
        all_goals tauto
    · rcases hresult with ⟨hmerged, hempty, -⟩ | ⟨hrefused, hconflicts, -⟩
      · simp [hmerged, hempty]
      · simp [hrefused, hconflicts]
    · rw [hone] at hresult
      rcases hresult with ⟨hmerged, -, hforest⟩ | ⟨hrefused, -, hforest⟩
      · simp only [hmerged, hforest, hnone]
        simp
      · simp [hrefused, hforest]
  · obtain rfl := mergeResult_of_conflicts hnil h
    refine ⟨fun nodes hsome => ?_, fun nodes hsome => ?_, fun nodes hsome => ?_, ?_, ?_⟩
    · cases hsome
    · cases hsome
    · cases hsome
    · simpa using hnil
    · exact iff_of_true rfl (Or.inl (mergeAll_conflicts_ne_nil.mp hnil))

theorem mergeResult_swap (h : mergeResult b a v = .ok r) :
    mergeResult b v a = .ok ⟨r.nodes, r.conflicts.map SyncConflict.mirrored⟩ := by
  by_cases hnil : (mergeAll b a v).2 = []
  · obtain ⟨errors, herrors, -⟩ := graphErrors_ok (mergeAll_unique (b := b) (a := a) (v := v))
    unfold mergeResult at h ⊢
    rw [mergeAll_swap]
    dsimp only at h ⊢
    rw [if_neg (not_not.mpr hnil), herrors] at h
    rw [hnil, if_neg (by simp), herrors]
    obtain rfl := Except.ok.inj h
    refine congrArg Except.ok ?_
    dsimp only
    rw [List.map_map]
    simp [Function.comp_def, SyncConflict.mirrored]
  · obtain rfl := mergeResult_of_conflicts hnil h
    unfold mergeResult
    rw [mergeAll_swap]
    exact if_pos (by simpa using hnil)

/-- **A reconciliation** of three snapshots that are accepted: what it returns, and what it returns
when the desired and the observed snapshot change places. -/
theorem reconcile_merges (h : reconcile base desired observed = .ok r) :
    IsForest base.nodes ∧ IsForest desired.nodes ∧ IsForest observed.nodes
      ∧ Reconciles base.nodes desired.nodes observed.nodes r
      ∧ reconcile base observed desired
        = .ok ⟨r.nodes, r.conflicts.map SyncConflict.mirrored⟩ := by
  have hresult := reconcile_ok h
  obtain ⟨_, hscope, h⟩ := bind_eq_ok.mp h
  obtain ⟨_, hsame, h⟩ := bind_eq_ok.mp h
  obtain ⟨b, hb, h⟩ := bind_eq_ok.mp h
  obtain ⟨a, ha, h⟩ := bind_eq_ok.mp h
  obtain ⟨v, hv, -⟩ := bind_eq_ok.mp h
  obtain ⟨rfl, hbase⟩ := indexSnapshot_ok hb
  obtain ⟨rfl, hdesired⟩ := indexSnapshot_ok ha
  obtain ⟨rfl, hobserved⟩ := indexSnapshot_ok hv
  refine ⟨hbase, hdesired, hobserved, mergeResult_reconciles hresult, ?_⟩
  have hsame' : ∀ s ∈ [observed, desired], s.environmentId = base.environmentId
      ∧ s.documentSession = base.documentSession := by
    have hboth := require_eq_ok.mp hsame
    simp only [List.forall_mem_cons] at hboth ⊢
    exact ⟨hboth.2.1, hboth.1, hboth.2.2⟩
  unfold reconcile
  rw [hscope, require_bind hsame', hb, hv, ha]
  exact mergeResult_swap hresult

/-! ## Two moves that make a cycle together -/

def plainNode (id : String) (parent : Option String) : HierarchyNode :=
  ⟨id.toList, parent.map String.toList, id.toList, none, 0, none, none⟩

def plainSnapshot (nodes : List HierarchyNode) : HierarchySnapshot :=
  ⟨"env".toList, "session".toList, true, nodes⟩

theorem reconcile_merges_moves : ∃ r : Reconciliation, r.nodes = none
    ∧ reconcile (plainSnapshot [plainNode "a" none, plainNode "b" none])
      (plainSnapshot [plainNode "a" (some "b"), plainNode "b" none])
      (plainSnapshot [plainNode "a" none, plainNode "b" (some "a")]) = .ok r
    ∧ Reconciles [plainNode "a" none, plainNode "b" none]
      [plainNode "a" (some "b"), plainNode "b" none]
      [plainNode "a" none, plainNode "b" (some "a")] r := by
  have hrun : ∃ r : Reconciliation, r.nodes = none
      ∧ reconcile (plainSnapshot [plainNode "a" none, plainNode "b" none])
        (plainSnapshot [plainNode "a" (some "b"), plainNode "b" none])
        (plainSnapshot [plainNode "a" none, plainNode "b" (some "a")]) = .ok r :=
    ⟨⟨none, [⟨"a".toList, "merged_cycle", plainNode "a" none, plainNode "a" (some "b"),
        plainNode "a" none⟩,
      ⟨"b".toList, "merged_cycle", plainNode "b" none, plainNode "b" none,
        plainNode "b" (some "a")⟩]⟩, rfl, by decide +kernel⟩
  obtain ⟨r, hnone, hr⟩ := hrun
  exact ⟨r, hnone, hr, (reconcile_merges hr).2.2.2.1⟩

end Ai00.Simulation
