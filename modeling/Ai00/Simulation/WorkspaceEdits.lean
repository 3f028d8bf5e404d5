import Ai00.Simulation.Workspace

/-! # What a call does to a workspace

`Lawful` is the invariant of a workspace: its nodes are an acyclic forest in which the parent of a
live node is live, live bindings are at live nodes, and no occurrence has two live load bindings. A
body that goes through leaves a lawful workspace, and one that does not leaves the workspace as it
was (`Settled`); what a whole call does is an `Outcome`.
-/

namespace Ai00.Simulation

open Relation KeyedRows Parents Ancestors Stateful

variable {ambient : WorkspaceAmbient} {s : SimulationWorkspace} {a b g p : Str}

/-- The factory yields decimal ids, none of them twice. -/
structure WorkspaceAmbient.Fresh (ambient : WorkspaceAmbient) : Prop where
  injective : Function.Injective ambient.gidFactory
  decimal : ∀ i, ∃ v, ambient.int (ambient.gidFactory i) = some v ∧ 0 < v

namespace SimulationWorkspace

/-! ## The invariant -/

def parent (s : SimulationWorkspace) (gid : Str) : Option Str :=
  (s.node? gid).bind WorkspaceNode.parentGid

def isLoad (occurrenceGid : Str) (b : WorkspaceBinding) : Bool :=
  b.occurrenceGid = occurrenceGid && b.role = "load".toList && !b.removed

structure Lawful (ambient : WorkspaceAmbient) (s : SimulationWorkspace) : Prop where
  nodeGids : (s.nodes.map WorkspaceNode.gid).Nodup
  nodesDrawn : ∀ n ∈ s.nodes, ∃ i < s.drawn, n.gid = ambient.gidFactory i
  bindingsDrawn : ∀ b ∈ s.bindings, ∃ i < s.drawn, b.gid = ambient.gidFactory i
  parents : ∀ n ∈ s.nodes, ∀ p ∈ n.parentGid,
    ∃ m, s.node? p = some m ∧ (n.removed = false → m.removed = false)
  acyclic : Acyclic (Edge s.parent)
  bound : ∀ b ∈ s.bindings, b.removed = false → s.HasLive b.nodeGid
  loads : ∀ occurrenceGid, s.bindings.countP (isLoad occurrenceGid) ≤ 1

theorem hasLive_iff : s.HasLive g ↔ ∃ n, s.node? g = some n ∧ n.removed = false := by
  unfold HasLive
  simp

variable {n : WorkspaceNode}

theorem mem_of_node? (h : s.node? g = some n) : n ∈ s.nodes := mem_of_lookup h

theorem gid_of_node? (h : s.node? g = some n) : n.gid = g := key_of_lookup h

theorem Lawful.exists_parent (h : Lawful ambient s) (hab : Edge s.parent a b) :
    ∃ m, s.node? b = some m := by
  obtain ⟨n, hn, hp⟩ := Option.bind_eq_some_iff.mp hab
  obtain ⟨m, hm, -⟩ := h.parents n (mem_of_node? hn) b hp
  exact ⟨m, hm⟩

theorem Lawful.exists_ancestor (h : Lawful ambient s) (hab : TransGen (Edge s.parent) a b) :
    ∃ m, s.node? b = some m := by
  cases hab with
  | single hab => exact h.exists_parent hab
  | tail _ hab => exact h.exists_parent hab

theorem Lawful.node?_fresh (h : Lawful ambient s) (hfresh : ambient.Fresh) :
    s.node? (ambient.gidFactory s.drawn) = none := by
  apply lookup_eq_none_iff.mpr
  intro n hn heq
  obtain ⟨i, hi, hgid⟩ := h.nodesDrawn n hn
  have hsame : i = s.drawn := hfresh.injective (hgid.symm.trans heq)
  omega

/-! ## The walk to the ancestors -/

/-- **The walk of `move_node`** is a climb, as every parent is a node. -/
theorem Lawful.walk_eq (h : Lawful ambient s) (g : Str) {fuel : ℕ} {current : Option Str}
    (hcurrent : ∀ p ∈ current, ∃ m, s.node? p = some m) :
    s.walk g fuel current = match Parents.climb s.parent g fuel current with
      | some true => .error (.ruleError "structure_cycle")
      | some false => .ok ()
      | none => .error .hangs := by
  induction fuel generalizing current with
  | zero => cases current <;> rfl
  | succ fuel ih =>
    cases current with
    | none => rfl
    | some p =>
      rw [walk, Parents.climb]
      by_cases heq : p = g
      · rw [if_pos heq, if_pos heq]
      · obtain ⟨m, hm⟩ := hcurrent p rfl
        have hparent : s.parent p = m.parentGid := by rw [parent, hm]; rfl
        have hnext : ∀ q ∈ m.parentGid, ∃ m', s.node? q = some m' := by
          intro q hq
          obtain ⟨m', hm', -⟩ := h.parents m (mem_of_node? hm) q hq
          exact ⟨m', hm'⟩
        rw [if_neg heq, if_neg heq, hm, hparent]
        exact ih hnext

/-- The walk ends, without a missing node, and lets a parent pass that is not below the node. -/
theorem Lawful.walk_cases (h : Lawful ambient s) (g : Str) {newParent : Option Str}
    (hlive : ∀ p ∈ newParent, s.HasLive p) :
    s.walk g s.nodes.length newParent = .error (.ruleError "structure_cycle")
      ∨ (s.walk g s.nodes.length newParent = .ok () ∧ ∀ p ∈ newParent, ¬ ReflTransGen (Edge s.parent) p g) := by
  have hexists : ∀ p ∈ newParent, ∃ m, s.node? p = some m := by
    intro p hp
    obtain ⟨m, hm, -⟩ := hasLive_iff.mp (hlive p hp)
    exact ⟨m, hm⟩
  rw [h.walk_eq g hexists]
  cases newParent with
  | none =>
    refine Or.inr ⟨by cases s.nodes.length <;> rfl, ?_⟩
    simp
  | some p =>
    have hmet : ∀ b, ReflTransGen (Edge s.parent) p b → b ∈ s.nodes.map WorkspaceNode.gid := by
      intro b hb
      obtain ⟨m, hm⟩ : ∃ m, s.node? b = some m := by
        rcases reflTransGen_iff_eq_or_transGen.mp hb with rfl | hb
        · exact hexists _ rfl
        · exact h.exists_ancestor hb
      exact List.mem_map.mpr ⟨m, mem_of_node? hm, gid_of_node? hm⟩
    have hends : Parents.climb s.parent g s.nodes.length (some p) ≠ none :=
      climb_ne_none h.acyclic hmet (by simp)
    cases hclimb : Parents.climb s.parent g s.nodes.length (some p) with
    | none => exact absurd hclimb hends
    | some met =>
      have hiff := climb_eq_some hclimb
      cases met with
      | true => exact Or.inl rfl
      | false =>
        refine Or.inr ⟨rfl, fun q hq hreach => ?_⟩
        obtain rfl : p = q := Option.some.inj hq
        exact absurd (hiff.mpr hreach) Bool.false_ne_true

/-! ## A live node that is put -/

variable {node : WorkspaceNode}

/-- The workspace with one node put, and maybe an id drawn. -/
def putNode (s : SimulationWorkspace) (node : WorkspaceNode) (drawn : ℕ) : SimulationWorkspace :=
  { s with nodes := upsert WorkspaceNode.gid node s.nodes, drawn, rowVersion := s.rowVersion + 1 }

variable {drawn : ℕ}

theorem node?_putNode :
    (s.putNode node drawn).node? g = if node.gid = g then some node else s.node? g := lookup_upsert

theorem parent_putNode :
    (s.putNode node drawn).parent g = if node.gid = g then node.parentGid else s.parent g := by
  rw [parent, node?_putNode]
  split_ifs <;> rfl

theorem HasLive.putNode (hnode : node.removed = false) (h : s.HasLive g) :
    (s.putNode node drawn).HasLive g := by
  rw [hasLive_iff, node?_putNode]
  split_ifs
  · exact ⟨node, rfl, hnode⟩
  · exact hasLive_iff.mp h

theorem acyclic_putNode (h : Acyclic (Edge s.parent))
    (hbelow : ∀ p ∈ node.parentGid, ¬ ReflTransGen (Edge s.parent) p node.gid) :
    Acyclic (Edge (s.putNode node drawn).parent) := by
  have hagree : ∀ a b, a ≠ node.gid →
      (Edge (s.putNode node drawn).parent a b ↔ Edge s.parent a b) := by
    intro a b ha
    rw [Edge, parent_putNode, if_neg ha.symm, Edge]
  have hself : ∀ b, Edge (s.putNode node drawn).parent node.gid b ↔ node.parentGid = some b := by
    intro b
    rw [Edge, parent_putNode, if_pos rfl]
  cases hparent : node.parentGid with
  | none =>
    refine h.mono fun a b hab => ?_
    by_cases ha : a = node.gid
    · rw [ha, hself, hparent] at hab
      cases hab
    · exact (hagree a b ha).mp hab
  | some p =>
    have hnot := hbelow p hparent
    refine (acyclic_redirect_iff (p := p) h hagree fun b => ?_).mpr ⟨?_, ?_⟩
    · rw [hself, hparent, Option.some.injEq, eq_comm]
    · rintro rfl
      exact hnot .refl
    · exact fun hpg => hnot hpg.to_reflTransGen

/-- **Putting a live node** under live parents that are not below it keeps the invariant. -/
theorem Lawful.putNode (h : Lawful ambient s) (hdrawn : s.drawn ≤ drawn)
    (hgid : ∃ i < drawn, node.gid = ambient.gidFactory i) (hnode : node.removed = false)
    (hlive : ∀ p ∈ node.parentGid, s.HasLive p)
    (hbelow : ∀ p ∈ node.parentGid, ¬ ReflTransGen (Edge s.parent) p node.gid) :
    Lawful ambient (s.putNode node drawn) where
  nodeGids := nodup_upsert h.nodeGids
  nodesDrawn n hn := by
    rcases mem_upsert hn with rfl | hn
    · exact hgid
    · obtain ⟨i, hi, heq⟩ := h.nodesDrawn n hn
      exact ⟨i, lt_of_lt_of_le hi hdrawn, heq⟩
  bindingsDrawn b hb := by
    obtain ⟨i, hi, heq⟩ := h.bindingsDrawn b hb
    exact ⟨i, lt_of_lt_of_le hi hdrawn, heq⟩
  parents n hn p hp := by
    rcases mem_upsert hn with rfl | hn
    · have hput : (s.putNode n drawn).HasLive p := (hlive p hp).putNode hnode
      obtain ⟨m, hm, hmlive⟩ := hasLive_iff.mp hput
      exact ⟨m, hm, fun _ => hmlive⟩
    · obtain ⟨m, hm, hmlive⟩ := h.parents n hn p hp
      rw [node?_putNode]
      split_ifs
      · exact ⟨node, rfl, fun _ => hnode⟩
      · exact ⟨m, hm, hmlive⟩
  acyclic := acyclic_putNode h.acyclic hbelow
  bound b hb hlive := (h.bound b hb hlive).putNode hnode
  loads := h.loads

/-! ## A subtree that is removed -/

/-- A node after the removal of some gids. -/
def markNode (removed : List Str) (n : WorkspaceNode) : WorkspaceNode :=
  if n.gid ∈ removed then { n with removed := true } else n

/-- A binding after the removal of some nodes. -/
def markBinding (removed : List Str) (b : WorkspaceBinding) : WorkspaceBinding :=
  if b.nodeGid ∈ removed ∧ b.removed = false then { b with removed := true } else b

/-- The workspace with some nodes removed and the bindings at them. -/
def markRemoved (s : SimulationWorkspace) (removed : List Str) : SimulationWorkspace :=
  { s with
    nodes := s.nodes.map (markNode removed)
    bindings := s.bindings.map (markBinding removed)
    rowVersion := s.rowVersion + 1 }

@[simp] theorem markNode_gid (removed : List Str) (n : WorkspaceNode) :
    (markNode removed n).gid = n.gid := by
  unfold markNode
  split_ifs <;> rfl

@[simp] theorem markNode_parentGid (removed : List Str) (n : WorkspaceNode) :
    (markNode removed n).parentGid = n.parentGid := by
  unfold markNode
  split_ifs <;> rfl

variable {removed : List Str}

theorem markNode_live :
    (markNode removed n).removed = false ↔ n.removed = false ∧ n.gid ∉ removed := by
  unfold markNode
  split_ifs with h <;> simp [h]

@[simp] theorem markBinding_gid (removed : List Str) (b : WorkspaceBinding) :
    (markBinding removed b).gid = b.gid := by
  unfold markBinding
  split_ifs <;> rfl

@[simp] theorem markBinding_nodeGid (removed : List Str) (b : WorkspaceBinding) :
    (markBinding removed b).nodeGid = b.nodeGid := by
  unfold markBinding
  split_ifs <;> rfl

theorem markBinding_live {b : WorkspaceBinding} :
    (markBinding removed b).removed = false ↔ b.removed = false ∧ b.nodeGid ∉ removed := by
  unfold markBinding
  split_ifs with h
  · simp [h.1]
  · constructor
    · exact fun hlive => ⟨hlive, fun hin => h ⟨hin, hlive⟩⟩
    · exact And.left

theorem isLoad_of_markBinding {occurrenceGid : Str} {b : WorkspaceBinding}
    (h : isLoad occurrenceGid (markBinding removed b) = true) : isLoad occurrenceGid b = true := by
  unfold markBinding at h
  split_ifs at h with hmark
  · simp [isLoad] at h
  · exact h

theorem node?_markRemoved :
    (s.markRemoved removed).node? g = (s.node? g).map (markNode removed) :=
  (map_lookup (markNode_gid removed)).symm

theorem parent_markRemoved : (s.markRemoved removed).parent = s.parent := by
  funext a
  rw [parent, node?_markRemoved, parent]
  cases s.node? a with
  | none => rfl
  | some n => exact markNode_parentGid removed n

/-- **Removing a set of gids** that holds every live child of its nodes keeps the invariant. -/
theorem Lawful.markRemoved (h : Lawful ambient s)
    (hclosed : ∀ n ∈ s.nodes, ∀ p ∈ collectedBy n, p ∈ removed → n.gid ∈ removed) :
    Lawful ambient (s.markRemoved removed) where
  nodeGids := by
    have hkeys : (s.nodes.map (markNode removed)).map WorkspaceNode.gid
        = s.nodes.map WorkspaceNode.gid := by
      rw [List.map_map]
      exact List.map_congr_left fun n _ => markNode_gid removed n
    exact hkeys ▸ h.nodeGids
  nodesDrawn _ hmarked := by
    obtain ⟨n, hn, rfl⟩ := List.mem_map.mp hmarked
    rw [markNode_gid]
    exact h.nodesDrawn n hn
  bindingsDrawn _ hmarked := by
    obtain ⟨b, hb, rfl⟩ := List.mem_map.mp hmarked
    rw [markBinding_gid]
    exact h.bindingsDrawn b hb
  parents _ hmarked p hp := by
    obtain ⟨n, hn, rfl⟩ := List.mem_map.mp hmarked
    rw [markNode_parentGid] at hp
    obtain ⟨m, hm, hlive⟩ := h.parents n hn p hp
    refine ⟨markNode removed m, by rw [node?_markRemoved, hm]; rfl, fun hn' => ?_⟩
    obtain ⟨hnlive, hnot⟩ := markNode_live.mp hn'
    refine markNode_live.mpr ⟨hlive hnlive, fun hin => hnot ?_⟩
    -- the parent would have taken the live child with it
    have hcollected : p ∈ collectedBy n := by
      unfold collectedBy
      simpa [hnlive] using hp
    exact hclosed n hn p hcollected (gid_of_node? hm ▸ hin)
  acyclic := by
    rw [parent_markRemoved]
    exact h.acyclic
  bound _ hmarked hlive := by
    obtain ⟨b, hb, rfl⟩ := List.mem_map.mp hmarked
    obtain ⟨hblive, hnot⟩ := markBinding_live.mp hlive
    obtain ⟨n, hn, hnlive⟩ := hasLive_iff.mp (h.bound b hb hblive)
    rw [markBinding_nodeGid, hasLive_iff, node?_markRemoved, hn]
    exact ⟨_, rfl, markNode_live.mpr ⟨hnlive, gid_of_node? hn ▸ hnot⟩⟩
  loads occurrenceGid := by
    refine le_trans ?_ (h.loads occurrenceGid)
    show (s.bindings.map (markBinding removed)).countP (isLoad occurrenceGid) ≤ _
    rw [List.countP_map]
    exact List.countP_mono_left fun b _ hb => isLoad_of_markBinding hb

theorem removeOne_ok (hnodup : (s.nodes.map WorkspaceNode.gid).Nodup)
    (hn : s.node? g = some n) :
    removeOne g s = (.ok (), { s with nodes := s.nodes.map (markNode [g]) }) := by
  have hgid := gid_of_node? hn
  let row : WorkspaceNode := ⟨n.gid, n.parentGid, n.nodeType, n.name, n.position, true⟩
  have hrow : upsert WorkspaceNode.gid row s.nodes = s.nodes.map (markNode [g]) := by
    have hkey : n.gid = row.gid := rfl
    rw [upsert_eq_map hnodup (mem_of_node? hn) hkey]
    refine List.map_congr_left fun m hm => ?_
    unfold markNode
    by_cases heq : m.gid = g
    · have hsame : m = n := by
        have hfound := lookup_of_mem hnodup hm
        rw [heq] at hfound
        exact Option.some.inj (hfound.symm.trans hn)
      subst hsame
      simp [row, hgid]
    · simp [row, heq, hgid]
  unfold removeOne
  rw [read_bind, id_eq, lift_bind_ok (found_eq_ok.mpr hn), setNode, modify_apply, hrow]

theorem forM_removeOne (removed : List Str) (hnodup : (s.nodes.map WorkspaceNode.gid).Nodup)
    (hexists : ∀ g ∈ removed, ∃ n, s.node? g = some n) :
    removed.forM removeOne s = (.ok (), { s with nodes := s.nodes.map (markNode removed) }) := by
  induction removed generalizing s with
  | nil =>
    have hsame : s.nodes.map (markNode []) = s.nodes := by
      rw [show markNode [] = id from funext fun n => if_neg List.not_mem_nil, List.map_id]
    rw [hsame]
    rfl
  | cons g removed ih =>
    obtain ⟨n, hn⟩ := hexists g List.mem_cons_self
    have hgids : (s.nodes.map (markNode [g])).map WorkspaceNode.gid
        = s.nodes.map WorkspaceNode.gid := by
      rw [List.map_map]
      exact List.map_congr_left fun n _ => markNode_gid [g] n
    have hnext : ∀ x ∈ removed,
        ∃ n, node? { s with nodes := s.nodes.map (markNode [g]) } x = some n := by
      intro x hx
      obtain ⟨m, hm⟩ := hexists x (List.mem_cons_of_mem _ hx)
      refine ⟨markNode [g] m, ?_⟩
      rw [node?, ← map_lookup (markNode_gid [g])]
      exact congrArg (Option.map (markNode [g])) hm
    have hboth : markNode removed ∘ markNode [g] = markNode (g :: removed) := by
      funext n
      by_cases hg : n.gid = g <;> by_cases hr : n.gid ∈ removed <;> simp [markNode, hg, hr]
    show (removeOne g >>= fun _ => removed.forM removeOne) s = _
    rw [bind_ok (removeOne_ok hnodup hn), ih (hgids ▸ hnodup) hnext, List.map_map, hboth]

/-- What `remove_node` collects is closed under live children, and holds nothing but gids of
nodes. -/
theorem Lawful.subtree_ok (h : Lawful ambient s) (hlive : s.HasLive g) : ∃ removed, s.subtree g = some removed
      ∧ (∀ n ∈ s.nodes, ∀ p ∈ collectedBy n, p ∈ removed → n.gid ∈ removed)
      ∧ ∀ x ∈ removed, ∃ n, s.node? x = some n := by
  obtain ⟨n, hn, -⟩ := hasLive_iff.mp hlive
  have hg : g ∈ s.nodes.map WorkspaceNode.gid :=
    List.mem_map.mpr ⟨n, mem_of_node? hn, gid_of_node? hn⟩
  have hends : s.subtree g ≠ none := by
    have hstart : [g] ⊆ s.nodes.map WorkspaceNode.gid := by simpa using hg
    apply closure_ne_none (List.nodup_singleton g) hstart (List.Subset.refl _)
    simp
  obtain ⟨removed, hremoved⟩ := Option.ne_none_iff_exists'.mp hends
  obtain ⟨-, hclosed, honly⟩ := closure_eq_some hremoved
  refine ⟨removed, hremoved, hclosed, fun x hx => ?_⟩
  have hx : x ∈ s.nodes.map WorkspaceNode.gid := by
    rcases honly x hx with hin | hin
    · exact List.mem_singleton.mp hin ▸ hg
    · exact hin
  obtain ⟨m, hm, rfl⟩ := List.mem_map.mp hx
  exact ⟨m, lookup_of_mem h.nodeGids hm⟩

theorem sortedByInt_ok (h : ∀ g ∈ removed, ∃ v, ambient.int g = some v) :
    ∃ sorted, sortedByInt ambient removed = .ok sorted := by
  suffices hkeyed : ∃ keyed, removed.mapM (m := Except WorkspaceFailure)
      (fun gid => found ((ambient.int gid).map fun v => (v, gid)) .valueError) = .ok keyed by
    obtain ⟨keyed, hkeyed⟩ := hkeyed
    exact ⟨_, bind_eq_ok.mpr ⟨keyed, hkeyed, rfl⟩⟩
  induction removed with
  | nil => exact ⟨[], rfl⟩
  | cons g removed ih =>
    obtain ⟨v, hv⟩ := h g List.mem_cons_self
    obtain ⟨keyed, hkeyed⟩ := ih fun x hx => h x (List.mem_cons_of_mem _ hx)
    refine ⟨(v, g) :: keyed, ?_⟩
    rw [List.mapM_cons]
    exact bind_eq_ok.mpr ⟨_, found_eq_ok.mpr (by rw [hv]; rfl), bind_eq_ok.mpr ⟨_, hkeyed, rfl⟩⟩

/-! ## A binding that is added -/

def putBinding (s : SimulationWorkspace) (b : WorkspaceBinding) (drawn : ℕ) :
    SimulationWorkspace :=
  { s with bindings := upsert WorkspaceBinding.gid b s.bindings, drawn, rowVersion := s.rowVersion + 1 }

/-- **Adding a live binding** of a new gid at a live node keeps the invariant, unless it is a second
load of its occurrence. -/
theorem Lawful.putBinding (h : Lawful ambient s) (hfresh : ambient.Fresh) {b : WorkspaceBinding}
    (hgid : b.gid = ambient.gidFactory s.drawn) (hbound : s.HasLive b.nodeGid)
    (hload : ¬ (b.role = "load".toList ∧ s.HasLoad b.occurrenceGid)) :
    Lawful ambient (s.putBinding b (s.drawn + 1)) := by
  have hnew : upsert WorkspaceBinding.gid b s.bindings = s.bindings ++ [b] := by
    apply upsert_of_new
    intro c hc heq
    obtain ⟨i, hi, hdrawn⟩ := h.bindingsDrawn c hc
    have hsame : i = s.drawn := hfresh.injective (hdrawn.symm.trans (heq.trans hgid))
    omega
  refine ⟨h.nodeGids, fun n hn => ?_, fun c hc => ?_, h.parents, h.acyclic, fun c hc hlive => ?_,
    fun occurrenceGid => ?_⟩
  · obtain ⟨i, hi, heq⟩ := h.nodesDrawn n hn
    exact ⟨i, Nat.lt_succ_of_lt hi, heq⟩
  · rcases mem_upsert hc with rfl | hc
    · exact ⟨s.drawn, Nat.lt_succ_self _, hgid⟩
    · obtain ⟨i, hi, heq⟩ := h.bindingsDrawn c hc
      exact ⟨i, Nat.lt_succ_of_lt hi, heq⟩
  · rcases mem_upsert hc with rfl | hc
    · exact hbound
    · exact h.bound c hc hlive
  · show (upsert WorkspaceBinding.gid b s.bindings).countP (isLoad occurrenceGid) ≤ 1
    rw [hnew, List.countP_append, List.countP_singleton]
    split_ifs with hb
    · have hrole : b.occurrenceGid = occurrenceGid ∧ b.role = "load".toList := by
        simp only [isLoad, Bool.and_eq_true, decide_eq_true_eq] at hb
        exact hb.1
      have hzero : s.bindings.countP (isLoad occurrenceGid) = 0 := by
        rw [List.countP_eq_zero]
        intro c hc hcload
        simp only [isLoad, Bool.and_eq_true, decide_eq_true_eq, Bool.not_eq_true'] at hcload
        exact hload ⟨hrole.2, c, hc, hcload.1.1.trans hrole.1.symm, hcload.1.2, hcload.2⟩
      omega
    · exact h.loads occurrenceGid

end SimulationWorkspace

end Ai00.Simulation
