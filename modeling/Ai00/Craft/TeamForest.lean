import Ai00.Basic.Ancestors
import Ai00.Craft.Heads

/-! # The shape of the team head

The live nodes of a head are a forest with live parents, and live bindings start at live nodes
(`Forest`). A component writes one member and is checked against that member's previous value
only; whether the shape stays depends on what the member hangs off and on what hangs off it
(`Admissible`, `forest_setMember_iff`).
-/

namespace Ai00.Craft

open Relation Ai00.Ancestors

/-! ## Forests -/

def nodeParent (t : Store) (m : Member) : Option Gid :=
  (m.nodeRevisionGid.bind t.nodeRevision?).bind NodeRevision.parentNodeGid

/-- The node that a binding member's revision starts at. -/
def bindingSource (t : Store) (m : Member) : Option Gid :=
  (m.bindingRevisionGid.bind t.bindingRevision?).map BindingRevision.sourceNodeGid

def Live (members : List Member) (node : Gid) : Prop :=
  ∃ m, member? ⟨.node, node⟩ members = some m ∧ m.isTombstone = false

def Parent (t : Store) (members : List Member) (node parent : Gid) : Prop :=
  ∃ m, member? ⟨.node, node⟩ members = some m ∧ m.isTombstone = false ∧
    nodeParent t m = some parent

def Source (t : Store) (members : List Member) (binding node : Gid) : Prop :=
  ∃ m, member? ⟨.binding, binding⟩ members = some m ∧ m.isTombstone = false ∧
    bindingSource t m = some node

structure Forest (t : Store) (members : List Member) : Prop where
  parents : ∀ node parent, Parent t members node parent → Live members parent
  acyclic : Acyclic (Parent t members)
  sources : ∀ binding node, Source t members binding node → Live members node

/-- What the shape asks of a member that is written: nothing hangs off a node that is taken away;
a node goes under a live node other than itself and its descendants; a binding starts at a live
node. -/
def Admissible (t : Store) (members : List Member) (m : Member) : Prop :=
  match m.kind, m.isTombstone with
  | .node, true =>
    (∀ child, ¬ Parent t members child m.logicalGid) ∧
      ∀ binding, ¬ Source t members binding m.logicalGid
  | .node, false => ∀ parent, nodeParent t m = some parent → Live members parent ∧
      parent ≠ m.logicalGid ∧ ¬ TransGen (Parent t members) parent m.logicalGid
  | .binding, false => ∀ node, bindingSource t m = some node → Live members node
  | .binding, true => True
  | .vpps, _ => True

instance (members : List Member) (node : Gid) : Decidable (Live members node) :=
  decidable_of_iff ((member? ⟨.node, node⟩ members).any (fun m => !m.isTombstone) = true) <| by
    unfold Live
    cases member? ⟨.node, node⟩ members <;> simp

theorem parent_of_rank {t : Store} {members : List Member} {rank : Gid → Nat}
    (hnodes : ∀ m ∈ members, m.kind = .node → m.isTombstone = false → ∀ parent ∈ nodeParent t m,
      Live members parent ∧ rank parent < rank m.logicalGid) {node parent : Gid}
    (h : Parent t members node parent) : Live members parent ∧ rank parent < rank node := by
  obtain ⟨m, hm, htombstone, hparent⟩ := h
  have hkey := member?_key hm
  have hkind : m.kind = .node := congrArg MemberKey.kind hkey
  have hgid : m.logicalGid = node := congrArg MemberKey.logicalGid hkey
  exact hgid ▸ hnodes m (mem_of_member? hm) hkind htombstone parent hparent

theorem forest_of_rank {t : Store} {members : List Member} (rank : Gid → Nat)
    (hnodes : ∀ m ∈ members, m.kind = .node → m.isTombstone = false → ∀ parent ∈ nodeParent t m,
      Live members parent ∧ rank parent < rank m.logicalGid)
    (hbindings : ∀ m ∈ members, m.kind = .binding → m.isTombstone = false →
      ∀ node ∈ bindingSource t m, Live members node) : Forest t members := by
  refine ⟨fun _ _ h => (parent_of_rank hnodes h).1,
    acyclic_of_measure rank fun _ _ h => (parent_of_rank hnodes h).2, ?_⟩
  rintro binding node ⟨m, hm, htombstone, hsource⟩
  have hkind : m.kind = .binding := congrArg MemberKey.kind (member?_key hm)
  exact hbindings m (mem_of_member? hm) hkind htombstone node hsource

/-! ## Writing one member -/

section

variable {t : Store} {members members' : List Member} {m : Member} {g a b : Gid}

/-- The shape is read off the nodes and bindings. -/
theorem forest_congr (hnodes : ∀ g, member? ⟨.node, g⟩ members' = member? ⟨.node, g⟩ members)
    (hbindings : ∀ b, member? ⟨.binding, b⟩ members' = member? ⟨.binding, b⟩ members) :
    Forest t members' ↔ Forest t members := by
  have hlive : Live members' = Live members := by
    funext g
    unfold Live
    rw [hnodes]
  have hparent : Parent t members' = Parent t members := by
    funext g p
    unfold Parent
    rw [hnodes]
  have hsource : Source t members' = Source t members := by
    funext b n
    unfold Source
    rw [hbindings]
  constructor
  · rintro ⟨hparents, hacyclic, hsources⟩
    exact ⟨hlive ▸ hparent ▸ hparents, hparent ▸ hacyclic, hlive ▸ hsource ▸ hsources⟩
  · rintro ⟨hparents, hacyclic, hsources⟩
    exact ⟨hlive ▸ hparent ▸ hparents, hparent ▸ hacyclic, hlive ▸ hsource ▸ hsources⟩

theorem forest_store {t t' : Store} (hnodes : t'.nodeRevisions = t.nodeRevisions)
    (hbindings : t'.bindingRevisions = t.bindingRevisions) :
    Forest t' members ↔ Forest t members := by
  have hparent : Parent t' members = Parent t members := by
    funext g p
    unfold Parent nodeParent Store.nodeRevision?
    rw [hnodes]
  have hsource : Source t' members = Source t members := by
    funext b n
    unfold Source bindingSource Store.bindingRevision?
    rw [hbindings]
  constructor
  · rintro ⟨hparents, hacyclic, hsources⟩
    exact ⟨hparent ▸ hparents, hparent ▸ hacyclic, hsource ▸ hsources⟩
  · rintro ⟨hparents, hacyclic, hsources⟩
    exact ⟨hparent ▸ hparents, hparent ▸ hacyclic, hsource ▸ hsources⟩

theorem member?_setMember_self : member? m.key (setMember m members) = some m := by
  rw [member?_setMember, if_pos rfl]

theorem member?_setMember_of_kind {key : MemberKey} (h : m.kind ≠ key.kind) :
    member? key (setMember m members) = member? key members := by
  rw [member?_setMember, if_neg]
  exact fun heq => h (congrArg MemberKey.kind heq)

theorem member?_setMember_of_gid {key : MemberKey} (h : m.logicalGid ≠ key.logicalGid) :
    member? key (setMember m members) = member? key members := by
  rw [member?_setMember, if_neg]
  exact fun heq => h (congrArg MemberKey.logicalGid heq)

theorem forest_setMember_vpps (hkind : m.kind = .vpps) : Forest t (setMember m members) ↔ Forest t members :=
  forest_congr (fun _ => member?_setMember_of_kind (by simp [hkind]))
    fun _ => member?_setMember_of_kind (by simp [hkind])

theorem forest_setMember_binding (hforest : Forest t members) (hkind : m.kind = .binding) :
    Forest t (setMember m members) ↔
      (m.isTombstone = false → ∀ node, bindingSource t m = some node → Live members node) := by
  have hkey : m.key = ⟨.binding, m.logicalGid⟩ := by rw [Member.key, hkind]
  have hnodes : ∀ g, member? ⟨.node, g⟩ (setMember m members) = member? ⟨.node, g⟩ members :=
    fun _ => member?_setMember_of_kind (by simp [hkind])
  have hlive : ∀ g, Live (setMember m members) g ↔ Live members g := by
    intro g
    unfold Live
    rw [hnodes]
  have hparent : Parent t (setMember m members) = Parent t members := by
    funext g p
    unfold Parent
    rw [hnodes]
  constructor
  · intro h htombstone node hsource
    refine (hlive node).mp (h.sources m.logicalGid node ⟨m, ?_, htombstone, hsource⟩)
    rw [← hkey]
    exact member?_setMember_self
  · intro h
    refine ⟨fun node parent hedge => ?_, hparent ▸ hforest.acyclic, fun binding node hsource => ?_⟩
    · exact (hlive parent).mpr (hforest.parents node parent (hparent ▸ hedge))
    · refine (hlive node).mpr ?_
      obtain ⟨m', hm', htombstone, hnode⟩ := hsource
      by_cases hgid : m.logicalGid = binding
      · rw [← hgid, ← hkey, member?_setMember_self] at hm'
        cases hm'
        exact h htombstone node hnode
      · rw [member?_setMember_of_gid hgid] at hm'
        exact hforest.sources binding node ⟨m', hm', htombstone, hnode⟩

/-! A node that is written keeps the edges of all other nodes. -/

theorem parent_setMember_of_ne (h : m.logicalGid ≠ a) :
    Parent t (setMember m members) a b ↔ Parent t members a b := by
  unfold Parent
  rw [member?_setMember_of_gid h]

theorem live_setMember_of_ne (h : m.logicalGid ≠ a) : Live (setMember m members) a ↔ Live members a := by
  unfold Live
  rw [member?_setMember_of_gid h]

theorem source_setMember_node (hkind : m.kind = .node) :
    Source t (setMember m members) a b ↔ Source t members a b := by
  unfold Source
  rw [member?_setMember_of_kind (by simp [hkind])]

theorem member?_setMember_node (hkind : m.kind = .node) :
    member? ⟨.node, m.logicalGid⟩ (setMember m members) = some m := by
  have hkey : m.key = ⟨.node, m.logicalGid⟩ := by rw [Member.key, hkind]
  rw [← hkey]
  exact member?_setMember_self

theorem parent_setMember_self (hkind : m.kind = .node) : Parent t (setMember m members) m.logicalGid b ↔
      m.isTombstone = false ∧ nodeParent t m = some b := by
  unfold Parent
  rw [member?_setMember_node hkind]
  constructor
  · rintro ⟨m', hm', hboth⟩
    cases hm'
    exact hboth
  · exact fun hboth => ⟨m, rfl, hboth⟩

theorem live_setMember_self (hkind : m.kind = .node) :
    Live (setMember m members) m.logicalGid ↔ m.isTombstone = false := by
  unfold Live
  rw [member?_setMember_node hkind]
  constructor
  · rintro ⟨m', hm', htombstone⟩
    cases hm'
    exact htombstone
  · exact fun htombstone => ⟨m, rfl, htombstone⟩

/-- **Taking a node away** keeps the shape exactly if nothing hangs off it. -/
theorem forest_setMember_tombstone (hforest : Forest t members) (hkind : m.kind = .node)
    (htombstone : m.isTombstone = true) : Forest t (setMember m members) ↔
      (∀ child, ¬ Parent t members child m.logicalGid) ∧
        ∀ binding, ¬ Source t members binding m.logicalGid := by
  have hdead : ¬ Live (setMember m members) m.logicalGid := by
    rw [live_setMember_self hkind, htombstone]
    decide
  have hnone : ∀ b, ¬ Parent t (setMember m members) m.logicalGid b := by
    intro b
    rw [parent_setMember_self hkind, htombstone]
    exact fun h => by cases h.1
  have hsub : ∀ a b, Parent t (setMember m members) a b → Parent t members a b := by
    intro a b hab
    refine (parent_setMember_of_ne fun heq => ?_).mp hab
    exact hnone b (heq ▸ hab)
  constructor
  · intro h
    refine ⟨fun child hchild => ?_, fun binding hbinding => ?_⟩
    · have hne : m.logicalGid ≠ child := by
        rintro rfl
        exact hforest.acyclic _ (.single hchild)
      exact hdead (h.parents child _ ((parent_setMember_of_ne hne).mpr hchild))
    · exact hdead (h.sources binding _ ((source_setMember_node hkind).mpr hbinding))
  · rintro ⟨hchildren, hbindings⟩
    refine ⟨fun node parent hedge => ?_, hforest.acyclic.mono hsub, fun binding node hsource => ?_⟩
    · have hold := hsub node parent hedge
      have hne : m.logicalGid ≠ parent := fun heq => hchildren node (heq ▸ hold)
      exact (live_setMember_of_ne hne).mpr (hforest.parents node parent hold)
    · have hold := (source_setMember_node hkind).mp hsource
      have hne : m.logicalGid ≠ node := fun heq => hbindings binding (heq ▸ hold)
      exact (live_setMember_of_ne hne).mpr (hforest.sources binding node hold)

/-- **Writing a live node** keeps the shape exactly if it goes under a live node that is not itself
and does not descend from it. -/
theorem forest_setMember_node (hforest : Forest t members) (hkind : m.kind = .node)
    (hlive : m.isTombstone = false) : Forest t (setMember m members) ↔
      ∀ parent, nodeParent t m = some parent → Live members parent ∧ parent ≠ m.logicalGid ∧
        ¬ TransGen (Parent t members) parent m.logicalGid := by
  have hself : ∀ b, Parent t (setMember m members) m.logicalGid b ↔ nodeParent t m = some b := by
    intro b
    rw [parent_setMember_self hkind, hlive]
    exact and_iff_right rfl
  have hagree : ∀ a b, a ≠ m.logicalGid →
      (Parent t (setMember m members) a b ↔ Parent t members a b) :=
    fun a b ha => parent_setMember_of_ne ha.symm
  have hlater : ∀ a, Live members a → Live (setMember m members) a := by
    intro a ha
    by_cases heq : m.logicalGid = a
    · exact heq ▸ (live_setMember_self hkind).mpr hlive
    · exact (live_setMember_of_ne heq).mpr ha
  have hacyclic : ∀ parent, nodeParent t m = some parent →
      (Acyclic (Parent t (setMember m members)) ↔
        parent ≠ m.logicalGid ∧ ¬ TransGen (Parent t members) parent m.logicalGid) := by
    intro parent hparent
    refine acyclic_redirect_iff hforest.acyclic hagree fun b => (hself b).trans ?_
    rw [hparent]
    exact ⟨fun h => (Option.some.inj h).symm, fun h => by rw [h]⟩
  constructor
  · intro h parent hparent
    obtain ⟨hne, hdescends⟩ := (hacyclic parent hparent).mp h.acyclic
    have hin := h.parents _ parent ((hself parent).mpr hparent)
    exact ⟨(live_setMember_of_ne hne.symm).mp hin, hne, hdescends⟩
  · intro h
    refine ⟨fun node parent hedge => ?_, ?_, fun binding node hsource => ?_⟩
    · by_cases hnode : node = m.logicalGid
      · subst hnode
        exact hlater parent (h parent ((hself parent).mp hedge)).1
      · exact hlater parent (hforest.parents node parent ((hagree node parent hnode).mp hedge))
    · cases hparent : nodeParent t m with
      | some parent => exact (hacyclic parent hparent).mpr (h parent hparent).2
      | none =>
        refine hforest.acyclic.mono fun a b hab => ?_
        refine (hagree a b ?_).mp hab
        rintro rfl
        have hsome := (hself b).mp hab
        rw [hparent] at hsome
        cases hsome
    · exact hlater node (hforest.sources binding node ((source_setMember_node hkind).mp hsource))

/-- **Writing one member** keeps the shape exactly if it is admissible. -/
theorem forest_setMember_iff (hforest : Forest t members) (m : Member) :
    Forest t (setMember m members) ↔ Admissible t members m := by
  unfold Admissible
  cases hkind : m.kind with
  | node =>
    cases htombstone : m.isTombstone with
    | true => exact forest_setMember_tombstone hforest hkind htombstone
    | false => exact forest_setMember_node hforest hkind htombstone
  | binding =>
    rw [forest_setMember_binding hforest hkind]
    cases htombstone : m.isTombstone with
    | true => exact iff_of_true (fun h => by cases h) trivial
    | false => exact ⟨fun h => h rfl, fun h _ => h⟩
  | vpps => exact iff_of_true ((forest_setMember_vpps hkind).mpr hforest) trivial

end

/-! ## Applying components -/

namespace CraftWorld

/-- The shape of the head of the repository's team space. -/
def TeamForest (w : CraftWorld) (repository : Gid) : Prop :=
  ∀ head, w.db.teamHead? repository = some head → Forest w.db.toStore head.members

/-- A component that is let through in the repository writes an admissible member. -/
def AppliesAdmissibly (hash : Json → Str) (w : CraftWorld) (repository : Gid)
    (c : Caller × ProposalCall) : Prop :=
  ∀ head edits, Edits hash w c.1 (.proposal c.2) head edits →
    w.db.teamHead? repository = some head →
    ∀ m ∈ edits, Admissible w.db.toStore head.members m

section

variable {hash : Json → Str} {w : CraftWorld} {c : Caller × ProposalCall} {repository : Gid}

theorem step_eq_spaceStep (w : CraftWorld) (c : Caller × ProposalCall) :
    w.step hash c = w.spaceStep hash (c.1, .proposal c.2) := by
  unfold step spaceStep
  show _ = (committed (call hash w c.1 c.2)).getD w
  cases call hash w c.1 c.2 with
  | error e => rfl
  | ok r => rfl

theorem Keyed.run (h : w.Keyed) (calls : List (Caller × ProposalCall)) : (w.run hash calls).Keyed := by
  induction calls generalizing w with
  | nil => exact h
  | cons c calls ih =>
    refine ih ?_
    rw [step_eq_spaceStep]
    exact h.spaceStep _

theorem step_store (hsafe : w.LedgerSafe) (c : Caller × ProposalCall) :
    (w.step hash c).db.toStore = w.db.toStore ∨ ∃ head edits, Edits hash w c.1 (.proposal c.2) head edits ∧
        (w.step hash c).db.toStore = w.db.updateHead head.gid (SpaceHead.edited edits) := by
  unfold step
  split
  · rename_i hcall
    exact call_store hsafe hcall
  · exact Or.inl rfl

variable {edits : List Member} {head : SpaceHead}

theorem Edits.step_store (h : Edits hash w c.1 (.proposal c.2) head edits) :
    (w.step hash c).db.toStore = w.db.updateHead head.gid (SpaceHead.edited edits) := by
  obtain ⟨outcome, u, hok, hstore⟩ := h.call_store
  unfold step
  rw [hok]
  exact hstore

theorem Edits.singleton {caller : Caller} {call : ProposalCall}
    (h : Edits hash w caller (.proposal call) head edits) :
    ∃ m, edits = [m] := by
  cases h
  exact ⟨_, rfl⟩

theorem teamHead?_updateHead {t : Store} {gid : Gid} {f : SpaceHead → SpaceHead}
    (hf : ∀ h, (f h).spaceGid = h.spaceGid) : (t.updateHead gid f).teamHead? repository
      = (t.teamHead? repository).map (fun h => if h.gid == gid then f h else h) := by
  unfold Store.teamHead? Store.updateHead
  dsimp only
  cases t.spaces.find? (fun s => s.repositoryGid == repository && s.kind == .team && !s.deleted) with
  | none => rfl
  | some space => exact Rows.find?_update fun h _ => by rw [hf]

/-- **One component** that is let through keeps the shape of the team head exactly if the member
it writes there is admissible. -/
theorem teamForest_edited (hkeyed : w.Keyed) (hforest : w.TeamForest repository)
    (hedits : Edits hash w c.1 (.proposal c.2) head edits) :
    (w.step hash c).TeamForest repository ↔ (w.db.teamHead? repository = some head →
      ∀ m ∈ edits, Admissible w.db.toStore head.members m) := by
  obtain ⟨m, rfl⟩ := hedits.singleton
  have hstore := hedits.step_store
  have hafter : ∀ h, (w.step hash c).db.teamHead? repository = some h ↔
      ∃ h₀, w.db.teamHead? repository = some h₀ ∧
        (if h₀.gid == head.gid then h₀.edited [m] else h₀) = h := by
    intro h
    rw [hstore, teamHead?_updateHead (SpaceHead.edited_spaceGid [m]), Option.map_eq_some_iff]
  have hsame : ∀ members, Forest (w.step hash c).db.toStore members ↔ Forest w.db.toStore members := by
    intro members
    rw [hstore]
    exact forest_store rfl rfl
  have hmem : ∀ {h}, w.db.teamHead? repository = some h → h ∈ w.db.heads := by
    intro h hh
    obtain ⟨space, -, hfind⟩ := Option.bind_eq_some_iff.mp hh
    exact List.mem_of_find?_eq_some hfind
  constructor
  · intro h hhead m' hm'
    rw [List.mem_singleton.mp hm']
    have hlater := h (head.edited [m]) ((hafter _).mpr ⟨head, hhead, by simp⟩)
    exact (forest_setMember_iff (hforest head hhead) m).mp ((hsame _).mp hlater)
  · intro h later hlater
    obtain ⟨h₀, hh₀, rfl⟩ := (hafter later).mp hlater
    refine (hsame _).mpr ?_
    split_ifs with hgid
    · rw [beq_iff_eq] at hgid
      obtain rfl := List.inj_on_of_nodup_map hkeyed.headGids (hmem hh₀) hedits.mem hgid
      exact (forest_setMember_iff (hforest h₀ hh₀) m).mpr (h hh₀ m List.mem_cons_self)
    · exact hforest h₀ hh₀

theorem teamForest_step_iff (hkeyed : w.Keyed) (hforest : w.TeamForest repository) :
    (w.step hash c).TeamForest repository ↔ AppliesAdmissibly hash w repository c := by
  constructor
  · exact fun h head edits hedits => (teamForest_edited hkeyed hforest hedits).mp h
  · intro h
    rcases step_store hkeyed.ledger c with hsame | ⟨head, edits, hedits, -⟩
    · unfold TeamForest at hforest ⊢
      rw [hsame]
      exact hforest
    · exact (teamForest_edited hkeyed hforest hedits).mpr (h head edits hedits)

theorem run_concat (w : CraftWorld) (calls : List (Caller × ProposalCall))
    (c : Caller × ProposalCall) :
    w.run hash (calls ++ [c]) = (w.run hash calls).step hash c := List.foldl_concat ..

end

/-- **The shape of the team head.** From a team head that is a forest, under any calls on any
proposals, the head is a forest in all states exactly if every component that is let through
writes an admissible member. -/
theorem team_forest_iff (hash : Json → Str) (store : Store) (issued : Gid)
    (hkeyed : (fresh store issued).Keyed) (repository : Gid)
    (hstart : (fresh store issued).TeamForest repository)
    (calls : List (Caller × ProposalCall)) :
    (∀ before, before <+: calls → ((fresh store issued).run hash before).TeamForest repository) ↔
      ∀ before c, before ++ [c] <+: calls →
        AppliesAdmissibly hash ((fresh store issued).run hash before) repository c := by
  constructor
  · intro h before c hprefixed
    have hbefore := h before ((List.prefix_append _ _).trans hprefixed)
    have hafter := h (before ++ [c]) hprefixed
    rw [run_concat] at hafter
    exact (teamForest_step_iff (hkeyed.run before) hbefore).mp hafter
  · intro h before
    induction before using List.reverseRecOn with
    | nil => exact fun _ => hstart
    | append_singleton before c ih =>
      intro hprefixed
      have hbefore := ih ((List.prefix_append _ _).trans hprefixed)
      rw [run_concat]
      exact (teamForest_step_iff (hkeyed.run before) hbefore).mpr (h before c hprefixed)

theorem not_teamForest_of_orphan {w : CraftWorld} {repository : Gid} (m : Member) (parent : Gid)
    (h : (w.db.teamHead? repository).any (fun head =>
      decide (member? ⟨.node, m.logicalGid⟩ head.members = some m ∧ m.isTombstone = false ∧
        nodeParent w.db.toStore m = some parent ∧ ¬ Live head.members parent)) = true) :
    ¬ w.TeamForest repository := by
  intro hforest
  cases hhead : w.db.teamHead? repository with
  | none =>
    rw [hhead] at h
    cases h
  | some head =>
    rw [hhead] at h
    obtain ⟨hmember, hlive, hparent, hdead⟩ := of_decide_eq_true h
    exact hdead ((hforest head hhead).parents _ parent ⟨m, hmember, hlive, hparent⟩)

/-- A line with a station; a personal version has deleted both. -/
def lineAndStation : Store where
  repositories := [⟨1, 9, 5, false⟩]
  spaces := [⟨2, 1, 9, .team, none, none, false⟩,
    ⟨3, 1, 9, .managedPersonal, some 8, some 20, false⟩]
  heads := [⟨4, 2, 9, 1, "sha256:t".toList, [⟨.node, 10, some 30, none, none, false⟩,
    ⟨.node, 11, some 31, none, none, false⟩]⟩]
  versions := [⟨20, 2, 9, "saved".toList, .null, .null, "a".toList,
      [⟨.node, 10, some 30, none, none, false⟩, ⟨.node, 11, some 31, none, none, false⟩]⟩,
    ⟨21, 3, 9, "saved".toList, .null, .null, "b".toList,
      [⟨.node, 10, none, none, none, true⟩, ⟨.node, 11, none, none, none, true⟩]⟩]
  nodes := [⟨10, 1, 10, none⟩, ⟨11, 1, 11, none⟩]
  nodeRevisions := [⟨30, 10, none, "line".toList, "1".toList, .null, [], .null⟩,
    ⟨31, 11, some 10, "station".toList, "1".toList, .null, [], .null⟩]

theorem lineAndStation_forest : Forest lineAndStation
    [⟨.node, 10, some 30, none, none, false⟩, ⟨.node, 11, some 31, none, none, false⟩] :=
  forest_of_rank id (by decide) (by decide)

theorem lineAndStation_teamForest : (fresh lineAndStation 100).TeamForest 1 := by
  intro head hhead
  obtain rfl : _ = head := Option.some.inj hhead
  exact lineAndStation_forest

theorem lineAndStation_keyed : (fresh lineAndStation 100).Keyed := by
  refine ⟨⟨by decide, by decide⟩, ?_, ?_, ?_, ?_, ?_, ?_, ?_, ?_, ?_, ?_, ?_, ?_⟩ <;> decide

/-- Both deletions are proposed; that of the line is accepted and applied. -/
def halfDeletedCalls : List (Caller × ProposalCall) :=
  [(⟨9, 8, "a".toList⟩, .createProposal 1 3 21 20), (⟨9, 8, "b".toList⟩, .submit 101),
    (⟨9, 7, "c".toList⟩, .review 101 [(103, "accepted".toList), (104, "rejected".toList)]),
    (⟨9, 7, "d".toList⟩, .applyComponent 101 103)]

/-- **A deletion leaves an orphan**: the accepted component takes the line away from under the
station, whose deletion was rejected. -/
theorem deletion_leaves_orphan :
    Forest lineAndStation (lineAndStation.versionMembers 20) ∧
    Forest lineAndStation (lineAndStation.versionMembers 21) ∧
    (fresh lineAndStation 100).TeamForest 1 ∧
    ¬ ((fresh lineAndStation 100).run (Json.dumps (fun _ => [])) halfDeletedCalls).TeamForest 1 := by
  refine ⟨lineAndStation_forest, forest_of_rank id (by decide) (by decide),
    lineAndStation_teamForest, not_teamForest_of_orphan ⟨.node, 11, some 31, none, none, false⟩ 10 ?_⟩
  decide +kernel

theorem team_forest_before_review : (halfDeletedCalls.take 3).length = 3
    ∧ ∀ before, before <+: halfDeletedCalls.take 3 →
      ((fresh lineAndStation 100).run (Json.dumps (fun _ => [])) before).TeamForest 1 := by
  refine ⟨rfl, ?_⟩
  refine (team_forest_iff _ lineAndStation 100 lineAndStation_keyed 1 lineAndStation_teamForest
    (halfDeletedCalls.take 3)).mpr ?_
  intro before c hprefixed head edits hedits
  have hin : c ∈ halfDeletedCalls.take 3 := hprefixed.subset (by simp)
  simp only [halfDeletedCalls, List.take, List.mem_cons, List.not_mem_nil, or_false] at hin
  rcases hin with rfl | rfl | rfl
  · cases hedits
  · cases hedits
  · cases hedits

end CraftWorld

end Ai00.Craft
