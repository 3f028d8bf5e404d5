import Ai00.Simulation.WorkspaceRuns

/-! # The order of siblings in a workspace

`create_node` and `move_node` give a node the number of live children that its new parent has. That
is a position of its own as long as the children fill the positions from zero on; after a child was
removed or moved away, or moved within its parent, it may be the position of another one
(`repeatedPosition`). A call keeps siblings at different positions exactly if it is not carried out
or finds that number free (`siblingsOrdered_next`), and so does a run (`siblings_ordered_iff`).
-/

namespace Ai00.Simulation

open KeyedRows Stateful

/-- A live child of a parent, or a live root. -/
def WorkspaceNode.IsChild (parentGid : Option Str) (n : WorkspaceNode) : Prop :=
  n.parentGid = parentGid ∧ n.removed = false

instance (parentGid : Option Str) (n : WorkspaceNode) : Decidable (n.IsChild parentGid) :=
  inferInstanceAs (Decidable (_ ∧ _))

/-- Live children of one parent are at different positions. -/
def SiblingsOrdered (nodes : List WorkspaceNode) : Prop :=
  ∀ parentGid, ∀ m ∈ nodes, ∀ n ∈ nodes, m.IsChild parentGid → n.IsChild parentGid →
    m.position = n.position → m = n

variable {ambient : WorkspaceAmbient} {s : SimulationWorkspace} {nodes : List WorkspaceNode}

/-! ## Editing nodes -/

/-- **Putting a live node** keeps siblings in order exactly if no other child of its parent is at its
position. -/
theorem siblingsOrdered_upsert (hnodup : (nodes.map WorkspaceNode.gid).Nodup) (h : SiblingsOrdered nodes)
    {node : WorkspaceNode} (hnode : node.removed = false) :
    SiblingsOrdered (upsert WorkspaceNode.gid node nodes)
      ↔ ∀ n ∈ nodes, n.IsChild node.parentGid → n.gid ≠ node.gid → n.position ≠ node.position := by
  have hmem : ∀ n, n ∈ upsert WorkspaceNode.gid node nodes ↔ n = node ∨ n ∈ nodes ∧ n.gid ≠ node.gid := by
    intro n
    have hnodup' : ((upsert WorkspaceNode.gid node nodes).map WorkspaceNode.gid).Nodup := nodup_upsert hnodup
    have hlookup := lookup_iff_mem (r := n) (k := n.gid) hnodup'
    rw [and_iff_left rfl, lookup_upsert] at hlookup
    rw [← hlookup]
    split_ifs with hgid
    · simp [hgid, eq_comm]
    · rw [lookup_iff_mem hnodup, and_iff_left rfl]
      have hne : n ≠ node := fun heq => hgid (heq ▸ rfl)
      simp [hne, Ne.symm hgid]
  constructor
  · intro hordered n hn hchild hgid hposition
    have hsame := hordered node.parentGid n ((hmem n).mpr (Or.inr ⟨hn, hgid⟩)) node
      ((hmem node).mpr (Or.inl rfl)) hchild ⟨rfl, hnode⟩ hposition
    exact hgid (hsame ▸ rfl)
  · intro hfree parentGid m hm n hn hmchild hnchild hposition
    rcases (hmem m).mp hm with hmnode | ⟨hmin, hmgid⟩ <;> rcases (hmem n).mp hn with hnnode | ⟨hnin, hngid⟩
    · exact hmnode.trans hnnode.symm
    · rw [hmnode] at hmchild hposition
      rw [← hmchild.1] at hnchild
      exact absurd hposition.symm (hfree n hnin hnchild hngid)
    · rw [hnnode] at hnchild hposition
      rw [← hnchild.1] at hmchild
      exact absurd hposition (hfree m hmin hmchild hmgid)
    · exact h parentGid m hmin n hnin hmchild hnchild hposition

theorem SiblingsOrdered.markNode (h : SiblingsOrdered nodes) (removed : List Str) :
    SiblingsOrdered (nodes.map (SimulationWorkspace.markNode removed)) := by
  have hlive : ∀ (parentGid : Option Str) (n : WorkspaceNode),
      (SimulationWorkspace.markNode removed n).IsChild parentGid →
        n.IsChild parentGid ∧ SimulationWorkspace.markNode removed n = n := by
    rintro parentGid n ⟨hparent, hlive⟩
    rw [SimulationWorkspace.markNode_parentGid] at hparent
    obtain ⟨hnlive, hnot⟩ := SimulationWorkspace.markNode_live.mp hlive
    exact ⟨⟨hparent, hnlive⟩, if_neg hnot⟩
  intro parentGid m' hm' n' hn' hmchild hnchild hposition
  obtain ⟨m, hm, rfl⟩ := List.mem_map.mp hm'
  obtain ⟨n, hn, rfl⟩ := List.mem_map.mp hn'
  obtain ⟨hmchild, hmsame⟩ := hlive parentGid m hmchild
  obtain ⟨hnchild, hnsame⟩ := hlive parentGid n hnchild
  rw [hmsame, hnsame] at hposition ⊢
  exact h parentGid m hm n hn hmchild hnchild hposition

/-! ## What the calls do to the nodes -/

namespace WorkspaceMutation

def expected : WorkspaceMutation → ℤ
  | createNode _ _ _ expected _ | moveNode _ _ expected _ | removeNode _ expected _
  | createBinding _ _ _ expected _ => expected

/-- `_begin` lets the call go on: its key is new, and it has seen the row version. -/
def Begins (s : SimulationWorkspace) (m : WorkspaceMutation) : Prop :=
  lookup WorkspaceEntry.key m.key s.idempotency = none ∧ m.expected = s.rowVersion

/-- The checks of `create_node` and `move_node` let the call go on. -/
def Passes (s : SimulationWorkspace) : WorkspaceMutation → Prop
  | createNode parentGid nodeType name _ _ => (∀ p ∈ parentGid, s.HasLive p) ∧ strip name ≠ []
      ∧ nodeType ∈ SimulationWorkspace.structureTypes
  | moveNode nodeGid newParentGid _ _ => s.HasLive nodeGid ∧ (∀ p ∈ newParentGid, s.HasLive p)
      ∧ s.walk nodeGid s.nodes.length newParentGid = .ok ()
  | _ => True

/-- No live child of the parent, other than the node that is moved, has the number of live children as
its position. -/
def FindsPlace (s : SimulationWorkspace) : WorkspaceMutation → Prop
  | createNode parentGid _ _ _ _ =>
    ∀ n ∈ s.nodes, n.IsChild parentGid → n.position ≠ s.siblings parentGid
  | moveNode nodeGid newParentGid _ _ =>
    ∀ n ∈ s.nodes, n.IsChild newParentGid → n.gid ≠ nodeGid → n.position ≠ s.siblings newParentGid
  | _ => True

instance (s : SimulationWorkspace) (m : WorkspaceMutation) : Decidable (m.FindsPlace s) := by
  cases m <;> unfold FindsPlace <;> infer_instance

/-- The call is not carried out, or it finds its place. -/
def KeepsOrder (s : SimulationWorkspace) (m : WorkspaceMutation) : Prop :=
  m.Begins s → m.Passes s → m.FindsPlace s

end WorkspaceMutation

namespace SimulationWorkspace

open WorkspaceMutation

theorem mutation_nodes {key : Str} {payload : WorkspacePayload} {expected : ℤ}
    {body : WorkspaceCall WorkspaceChange} :
    (mutation ambient key payload expected body s).2.nodes
      = if lookup WorkspaceEntry.key key s.idempotency = none ∧ expected = s.rowVersion
        then (body s).2.nodes else s.nodes := by
  cases hentry : lookup WorkspaceEntry.key key s.idempotency with
  | some entry =>
    have hseen : ¬ (some entry = none ∧ expected = s.rowVersion) := fun h => nomatch h.1
    rw [mutation_recorded hentry, if_neg hseen]
    split
    · rfl
    · rfl
  | none =>
    have hbegin : begin ambient key payload expected s = _ := begin_new hentry
    unfold mutation
    by_cases hversion : expected = s.rowVersion
    · rw [if_pos hversion] at hbegin
      rw [if_pos ⟨rfl, hversion⟩, bind_ok hbegin]
      show ((body >>= finish ambient key payload) s).2.nodes = _
      rcases hbody : body s with ⟨result, s'⟩
      cases result with
      | ok change =>
        rw [bind_ok hbody]
        rfl
      | error e => rw [bind_error hbody]
    · rw [if_neg hversion] at hbegin
      rw [if_neg fun h => hversion h.2, bind_error hbegin]

theorem lift_require_bind {p : Prop} [Decidable p] {e : WorkspaceFailure}
    {f : Unit → WorkspaceCall WorkspaceChange} :
    (lift (require p e) >>= f) s = if p then f () s else (.error e, s) := by
  split_ifs with hp
  · exact lift_bind_ok (require_eq_ok.mpr hp)
  · exact lift_bind_error (if_neg hp)

section

variable (h : Lawful ambient s)

include h

theorem nodes_moveNode (nodeGid : Str) (newParentGid : Option Str) (expected : ℤ) (key : Str) :
    let m := WorkspaceMutation.moveNode nodeGid newParentGid expected key
    (¬ (m.Begins s ∧ m.Passes s) ∧ (s.next ambient m).nodes = s.nodes)
      ∨ m.Begins s ∧ m.Passes s ∧ ∃ node, node.gid = nodeGid ∧ node.parentGid = newParentGid
        ∧ node.removed = false ∧ node.position = s.siblings newParentGid
        ∧ (s.next ambient m).nodes = upsert WorkspaceNode.gid node s.nodes := by
  intro m
  have hnodes : (s.next ambient m).nodes = _ := mutation_nodes
  by_cases hbegins : lookup WorkspaceEntry.key key s.idempotency = none ∧ expected = s.rowVersion
  · rw [if_pos hbegins, read_bind, id_eq] at hnodes
    by_cases hnode : s.HasLive nodeGid
    · obtain ⟨node, hfound, hlive⟩ := hasLive_iff.mp hnode
      have hfilter : ((s.node? nodeGid).filter fun node => !node.removed) = some node := by
        rw [hfound, Option.filter_some, hlive]
        rfl
      rw [lift_bind_ok (found_eq_ok.mpr hfilter), lift_require_bind] at hnodes
      by_cases hparent : ∀ p ∈ newParentGid, s.HasLive p
      · rw [if_pos hparent] at hnodes
        rcases h.walk_cases nodeGid hparent with hcycle | ⟨hends, -⟩
        · rw [lift_bind_error hcycle] at hnodes
          refine Or.inl ⟨fun hpasses => ?_, hnodes⟩
          exact nomatch hcycle.symm.trans hpasses.2.2.2
        · rw [lift_bind_ok hends] at hnodes
          exact Or.inr ⟨hbegins, ⟨hnode, hparent, hends⟩,
            ⟨node.gid, newParentGid, node.nodeType, node.name, s.siblings newParentGid, false⟩,
            (gid_of_node? hfound : node.gid = nodeGid), rfl, rfl, rfl, hnodes⟩
      · rw [if_neg hparent] at hnodes
        exact Or.inl ⟨fun hpasses => hparent hpasses.2.2.1, hnodes⟩
    · have hfilter : ((s.node? nodeGid).filter fun node => !node.removed) = none := by
        rw [Option.filter_eq_none_iff]
        intro node hfound hlive
        exact hnode (hasLive_iff.mpr ⟨node, hfound, by simpa using hlive⟩)
      rw [hfilter] at hnodes
      exact Or.inl ⟨fun hpasses => hnode hpasses.2.1, hnodes⟩
  · rw [if_neg hbegins] at hnodes
    exact Or.inl ⟨fun hpasses => hbegins hpasses.1, hnodes⟩

theorem nodes_removeNode (nodeGid : Str) (expected : ℤ) (key : Str) :
    ∃ removed, (s.next ambient (.removeNode nodeGid expected key)).nodes = s.nodes.map (markNode removed) := by
  have hnone : s.nodes.map (markNode []) = s.nodes := by
    rw [show markNode [] = id from funext fun n => if_neg List.not_mem_nil, List.map_id]
  have hnodes : (s.next ambient (.removeNode nodeGid expected key)).nodes = _ := mutation_nodes
  split_ifs at hnodes
  · rw [read_bind, id_eq, lift_require_bind] at hnodes
    split_ifs at hnodes with hlive
    · obtain ⟨removed, hremoved, -, hexists⟩ := h.subtree_ok hlive
      rw [lift_bind_ok (found_eq_ok.mpr hremoved), bind_ok (forM_removeOne removed h.nodeGids hexists)] at hnodes
      refine ⟨removed, hnodes.trans ?_⟩
      show ((lift (sortedByInt ambient removed) >>= _) (s.markRemoved removed)).2.nodes = _
      cases hsorted : sortedByInt ambient removed with
      | ok sorted => rw [lift_bind_ok rfl]; rfl
      | error e => rw [lift_bind_error rfl]; rfl
    · exact ⟨[], hnodes.trans hnone.symm⟩
  · exact ⟨[], hnodes.trans hnone.symm⟩

variable (hfresh : ambient.Fresh)

include hfresh

theorem nodes_createNode (parentGid : Option Str) (nodeType name : Str) (expected : ℤ) (key : Str) :
    let m := WorkspaceMutation.createNode parentGid nodeType name expected key
    (¬ (m.Begins s ∧ m.Passes s) ∧ (s.next ambient m).nodes = s.nodes)
      ∨ m.Begins s ∧ m.Passes s ∧ ∃ node, (∀ n ∈ s.nodes, n.gid ≠ node.gid) ∧ node.parentGid = parentGid
        ∧ node.removed = false ∧ node.position = s.siblings parentGid
        ∧ (s.next ambient m).nodes = upsert WorkspaceNode.gid node s.nodes := by
  intro m
  have hnodes : (s.next ambient m).nodes = _ := mutation_nodes
  by_cases hbegins : lookup WorkspaceEntry.key key s.idempotency = none ∧ expected = s.rowVersion
  · rw [if_pos hbegins, read_bind, id_eq, lift_require_bind] at hnodes
    by_cases hparent : ∀ p ∈ parentGid, s.HasLive p
    · rw [if_pos hparent, lift_require_bind] at hnodes
      by_cases hvalid : strip name ≠ [] ∧ nodeType ∈ structureTypes
      · rw [if_pos hvalid, bind_ok (nextGid_ok hfresh)] at hnodes
        exact Or.inr ⟨hbegins, ⟨hparent, hvalid⟩,
          ⟨ambient.gidFactory s.drawn, parentGid, nodeType, strip name, s.siblings parentGid, false⟩,
          lookup_eq_none_iff.mp (h.node?_fresh hfresh), rfl, rfl, rfl, hnodes⟩
      · rw [if_neg hvalid] at hnodes
        exact Or.inl ⟨fun hpasses => hvalid hpasses.2.2, hnodes⟩
    · rw [if_neg hparent] at hnodes
      exact Or.inl ⟨fun hpasses => hparent hpasses.2.1, hnodes⟩
  · rw [if_neg hbegins] at hnodes
    exact Or.inl ⟨fun hpasses => hbegins hpasses.1, hnodes⟩

omit h in
theorem nodes_createBinding (nodeGid occurrenceGid role : Str) (expected : ℤ) (key : Str) :
    (s.next ambient (.createBinding nodeGid occurrenceGid role expected key)).nodes = s.nodes := by
  have hnodes : (s.next ambient (.createBinding nodeGid occurrenceGid role expected key)).nodes = _ :=
    mutation_nodes
  rw [hnodes]
  split_ifs
  · rw [read_bind, id_eq, lift_require_bind]
    split_ifs
    · rw [lift_require_bind]
      split_ifs
      · rw [lift_require_bind]
        split_ifs
        · rfl
        · rw [bind_ok (nextGid_ok hfresh)]
          rfl
      · rfl
    · rfl
  · rfl

/-! ## Siblings over a run -/

/-- **A call keeps siblings in order** exactly if it is not carried out or finds its place. -/
theorem siblingsOrdered_next (hordered : SiblingsOrdered s.nodes) (m : WorkspaceMutation) :
    SiblingsOrdered (s.next ambient m).nodes ↔ m.KeepsOrder s := by
  cases m with
  | createNode parentGid nodeType name expected key =>
    rcases nodes_createNode h hfresh parentGid nodeType name expected key with ⟨hnot, hnodes⟩
        | ⟨hbegins, hpasses, node, hnew, hparent, hlive, hposition, hnodes⟩
    · rw [hnodes]
      exact iff_of_true hordered fun hbegins hpasses => absurd ⟨hbegins, hpasses⟩ hnot
    · rw [hnodes, siblingsOrdered_upsert h.nodeGids hordered hlive, hparent, hposition]
      constructor
      · exact fun hfree _ _ n hn hchild => hfree n hn hchild (hnew n hn)
      · exact fun hkeeps n hn hchild _ => hkeeps hbegins hpasses n hn hchild
  | moveNode nodeGid newParentGid expected key =>
    rcases nodes_moveNode h nodeGid newParentGid expected key with ⟨hnot, hnodes⟩
        | ⟨hbegins, hpasses, node, hgid, hparent, hlive, hposition, hnodes⟩
    · rw [hnodes]
      exact iff_of_true hordered fun hbegins hpasses => absurd ⟨hbegins, hpasses⟩ hnot
    · rw [hnodes, siblingsOrdered_upsert h.nodeGids hordered hlive, hparent, hposition, hgid]
      exact ⟨fun hfree _ _ => hfree, fun hkeeps => hkeeps hbegins hpasses⟩
  | removeNode nodeGid expected key =>
    obtain ⟨removed, hnodes⟩ := nodes_removeNode h nodeGid expected key
    rw [hnodes]
    exact iff_of_true (hordered.markNode removed) fun _ _ => trivial
  | createBinding nodeGid occurrenceGid role expected key =>
    rw [nodes_createBinding hfresh nodeGid occurrenceGid role expected key]
    exact iff_of_true hordered fun _ _ => trivial

end

/-- **In every state of a run siblings are in order** exactly if every call of the run is not carried
out or finds its place. -/
theorem siblings_ordered_iff (hfresh : ambient.Fresh) {gid tenantGid ownerGid name : Str}
    {start : SimulationWorkspace} (hstart : create gid tenantGid ownerGid name = .ok start)
    (calls : List WorkspaceMutation) :
    (∀ past, past <+: calls → SiblingsOrdered (Successive.after (next ambient) start past).nodes)
      ↔ ∀ past m, past ++ [m] <+: calls → m.KeepsOrder (Successive.after (next ambient) start past) := by
  have hlawful : ∀ past, Lawful ambient (Successive.after (next ambient) start past) := fun past =>
    Successive.after_keeps (create_lawful hstart) fun s m h => h.next hfresh m
  constructor
  · intro hall past m hpast
    have hnext := hall (past ++ [m]) hpast
    rw [Successive.after_concat] at hnext
    exact (siblingsOrdered_next (hlawful past) hfresh
      (hall past ((List.prefix_append past [m]).trans hpast)) m).mp hnext
  · intro hall past
    induction past using List.reverseRecOn with
    | nil =>
      intro _ parentGid m hm
      obtain ⟨-, -, hstart⟩ := bind_eq_ok.mp hstart
      cases hstart
      cases hm
    | append_singleton past m ih =>
      intro hpast
      have hordered := ih ((List.prefix_append past [m]).trans hpast)
      rw [Successive.after_concat]
      exact (siblingsOrdered_next (hlawful past) hfresh hordered m).mpr (hall past m hpast)

/-- A line with two stations, the second of which is moved to the end. -/
def movedCalls : List WorkspaceMutation :=
  [.createNode none "line".toList "L".toList 1 "a".toList,
    .createNode (some "1".toList) "station".toList "S".toList 2 "b".toList,
    .createNode (some "1".toList) "station".toList "T".toList 3 "c".toList,
    .moveNode "111".toList (some "1".toList) 4 "d".toList]

def emptyWorkspace : SimulationWorkspace :=
  ⟨"7".toList, "8".toList, "9".toList, "w".toList, 1, [], [], [], 0⟩

theorem siblings_ordered_movedCalls :
    create "7".toList "8".toList "9".toList "w".toList = .ok emptyWorkspace
      ∧ ∀ past, past <+: movedCalls →
        SiblingsOrdered (Successive.after (next repunits) emptyWorkspace past).nodes := by
  have hstart : create "7".toList "8".toList "9".toList "w".toList = .ok emptyWorkspace := by
    decide +kernel
  refine ⟨hstart, (siblings_ordered_iff repunits_fresh hstart movedCalls).mpr ?_⟩
  have hplaces : ∀ i (hi : i < movedCalls.length),
      (movedCalls[i]).FindsPlace (Successive.after (next repunits) emptyWorkspace (movedCalls.take i)) := by
    decide +kernel
  exact Successive.forall_prefix_iff.mpr fun i hi _ _ => hplaces i hi

/-- After the first of two lines is removed, a third one gets the position of the second. -/
def repeatedPosition : List WorkspaceMutation :=
  [.createNode none "line".toList "L".toList 1 "a".toList,
    .createNode none "line".toList "M".toList 2 "b".toList,
    .removeNode "1".toList 3 "c".toList,
    .createNode none "line".toList "N".toList 4 "d".toList]

/-- The second and the third line are live roots at one position. -/
theorem not_ordered_repeatedPosition :
    create "7".toList "8".toList "9".toList "w".toList = .ok emptyWorkspace
      ∧ ¬ SiblingsOrdered (Successive.after (next repunits) emptyWorkspace repeatedPosition).nodes := by
  refine ⟨by decide +kernel, fun hordered => ?_⟩
  have hnodes : (Successive.after (next repunits) emptyWorkspace repeatedPosition).nodes
      = [⟨"1".toList, none, "line".toList, "L".toList, 0, true⟩,
        ⟨"11".toList, none, "line".toList, "M".toList, 1, false⟩,
        ⟨"111".toList, none, "line".toList, "N".toList, 1, false⟩] := by decide +kernel
  rw [hnodes] at hordered
  have hsame := hordered none _ (List.mem_cons_of_mem _ List.mem_cons_self) _
    (List.mem_cons_of_mem _ (List.mem_cons_of_mem _ List.mem_cons_self)) ⟨rfl, rfl⟩ ⟨rfl, rfl⟩ rfl
  exact absurd (congrArg WorkspaceNode.name hsame) (by decide)

end SimulationWorkspace

end Ai00.Simulation
