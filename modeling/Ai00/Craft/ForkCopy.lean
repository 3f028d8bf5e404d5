import Ai00.Craft.TeamForest
import Ai00.Json.Builtins

/-! # Copies of a version and their projection

A fork into another repository copies the nodes that a depth includes, under new gids, and the
projection of the run lists the nodes it took with their parents. Whether a node is included is
read off its type, while its place is read off its parent: a node whose parent is left out becomes
a root, and the members of a group whose scopes are left out fall together in one scope.
`Copyable` says when neither happens, and `copy_faithful_iff` that the copy is faithful exactly
then.
-/

namespace Ai00.Craft

open Relation Ai00.Ancestors Ai00.Numbering

/-! ## The projection of a run -/

inductive ProjectionError where
  | forkProjectionNotFound
  /-- `props.get` of a value that is no dictionary. -/
  | attributeError

structure ProjectedNode where
  nodeGid : Gid
  parentGid : Option Gid
  nodeType : Str
  name : Str
  position : Nat

structure ForkProjection where
  sourceRepositoryGid : Gid
  sourceVersionGid : Gid
  sourceContentHash : Str
  forkOperationGid : Gid
  nodes : List ProjectedNode

def projectedRow? (t : Store) (m : Member) : Option (Gid × NodeRevision) :=
  if m.kind = .node ∧ m.isTombstone = false then
    (m.nodeRevisionGid.bind t.nodeRevision?).map (m.logicalGid, ·)
  else none

/-- NULL sorts before every gid. -/
def parentRank (row : Gid × NodeRevision) : Nat :=
  match row.2.parentNodeGid with
  | none => 0
  | some parent => parent + 1

/-- `ORDER BY r.parent_node_gid,r.order_key,m.logical_gid`. -/
def projectedBefore (a b : Gid × NodeRevision) : Bool :=
  decide (parentRank a < parentRank b) || (parentRank a == parentRank b &&
    (decide (a.2.orderKey < b.2.orderKey) ||
      (a.2.orderKey == b.2.orderKey && decide (a.1 ≤ b.1))))

/-- `included` of `get_projection`. -/
def projectedRows (t : Store) (versionGid : Gid) (depth : ForkDepth) : List (Gid × NodeRevision) :=
  (((t.versionMembers versionGid).filterMap (projectedRow? t)).insertionSort
    (fun a b => projectedBefore a b = true)).filter
      (fun row => decide (level row.2.nodeType ≤ depth.maxLevel))

section

variable (str : Json → Str)

/-- `str(props.get("name") or props.get("title") or row["node_gid"])`; `str` prints a value. -/
def projectedName (properties : Json) (nodeGid : Gid) : Except ProjectionError Str :=
  match properties.orElse (.obj []) with
  | .obj props =>
    let name := Json.getD props "name"
    let title := Json.getD props "title"
    .ok (if name.truthy then str name else if title.truthy then str title else gidText nodeGid)
  | _ => .error .attributeError

def projectedNode (includedIds : List Gid) (e : (Gid × NodeRevision) × Nat) :
    Except ProjectionError ProjectedNode := do
  let name ← projectedName str e.1.2.properties e.1.1
  return ⟨e.1.1, e.1.2.parentNodeGid.filter (fun parent => decide (parent ∈ includedIds)),
    e.1.2.nodeType, name, e.2⟩

def projectedNodes (included : List (Gid × NodeRevision)) :
    Except ProjectionError (List ProjectedNode) :=
  included.zipIdx.mapM (projectedNode str (included.map Prod.fst))

def getProjection (db : Db) (forkRunGid tenantGid actorGid : Gid) :
    Except ProjectionError ForkProjection :=
  let run : Option (ForkPlan × SpaceVersion × Space) := do
    let run ← db.forkRuns.find? (·.gid == forkRunGid)
    let plan ← db.forkPlans.find? (·.gid == run.planGid)
    let version ← db.versions.find? (·.gid == plan.sourceVersionGid)
    let space ← db.spaces.find? (·.gid == version.spaceGid)
    if plan.tenantGid = tenantGid ∧ plan.actorGid = actorGid then some (plan, version, space)
    else none
  match run with
  | none => .error .forkProjectionNotFound
  | some (plan, version, space) => do
    let nodes ← projectedNodes str
      (projectedRows db.toStore plan.sourceVersionGid plan.forkDepth)
    return ⟨space.repositoryGid, plan.sourceVersionGid, version.manifestHash, forkRunGid, nodes⟩

end

/-! ## What a copy is -/

def nodeRow? (t : Store) (members : List Member) (node : Gid) : Option SourceNode :=
  (member? ⟨.node, node⟩ members).bind (sourceNode? t)

/-- The live nodes are on record, with a dictionary of properties, and form a forest. -/
structure NodeForest (t : Store) (members : List Member) : Prop where
  recorded : ∀ m ∈ members, m.kind = .node → m.isTombstone = false →
    ∃ row, sourceNode? t m = some row ∧ ∃ props, row.properties = .obj props
  parents : ∀ node parent, Parent t members node parent → Live members parent
  acyclic : Acyclic (Parent t members)

def Included (t : Store) (version : Gid) (depth : ForkDepth) (node : Gid) : Prop :=
  node ∈ (includedNodes depth (sourceNodes t version)).map SourceNode.logicalGid

instance (t : Store) (version : Gid) (depth : ForkDepth) :
    DecidablePred (Included t version depth) :=
  fun node => inferInstanceAs (Decidable (node ∈ _))

/-- The live nodes of `target` in `t'` are copies, under the gids `copy`, of the included nodes of
`source` in `t`. -/
structure NodeCopy (t t' : Store) (source target : List Member) (included : Gid → Prop)
    (copy : Gid → Gid) : Prop where
  injective : Set.InjOn copy {node | included node}
  fresh : ∀ node, included node → t.node? (copy node) = none
  onto : ∀ node, Live target node ↔ ∃ original, included original ∧ copy original = node
  content : ∀ node row, included node → nodeRow? t source node = some row →
    ∃ row', nodeRow? t' target (copy node) = some row' ∧ row'.nodeType = row.nodeType ∧
      row'.orderKey = row.orderKey ∧ row'.properties = row.properties
  parents : ∀ node parent, included node → included parent →
    (Parent t' target (copy node) (copy parent) ↔ Parent t source node parent)
  roots : ∀ node ancestor, included node → included ancestor →
    TransGen (Parent t source) node ancestor → ∃ parent, Parent t' target (copy node) parent

/-- A group and the members of its version refer to live nodes, and its members differ in scope
or order key. -/
structure GroupCopy (target : List Member) (g : SourceGroup) : Prop where
  boundary : Live target g.boundaryNodeGid
  root : Live target g.version.rootScopeGid
  scopes : ∀ m ∈ g.version.members, Live target m.parentScopeGid
  sources : ∀ m ∈ g.version.members, ∀ node ∈ m.sourceBopNodeGid, Live target node
  siblings : g.version.siblings.Nodup

/-- A projection lists the included nodes once each, with the types of their copies and with
parents whose copies are their copies' parents. -/
structure Describes (t' : Store) (target : List Member) (included : Gid → Prop) (copy : Gid → Gid)
    (nodes : List ProjectedNode) : Prop where
  once : (nodes.map ProjectedNode.nodeGid).Nodup
  complete : ∀ node, node ∈ nodes.map ProjectedNode.nodeGid ↔ included node
  rows : ∀ n ∈ nodes, ∃ row, nodeRow? t' target (copy n.nodeGid) = some row ∧
    row.nodeType = n.nodeType ∧ row.parentNodeGid = n.parentGid.map copy

/-- The head `target` in `t'` is a faithful copy of a version in `t` down to a depth, and so says
the projection of every run of it. -/
def FaithfulCopy (str : Json → Str) (t t' : Store) (version : Gid) (depth : ForkDepth)
    (target : List Member) : Prop :=
  ∃ copy : Gid → Gid,
    NodeCopy t t' (t.versionMembers version) target (Included t version depth) copy ∧
    NodeForest t' target ∧
    (∀ binding node, Source t' target binding node → Live target node) ∧
    (∀ m ∈ target, m.kind = .vpps → ∃ g, sourceGroup? t' m = some g ∧ GroupCopy target g) ∧
    ∀ (db : Db) (run : ForkRun) (plan : ForkPlan), db.toStore = t' →
      db.forkRuns.find? (·.gid == run.gid) = some run →
      db.forkPlans.find? (·.gid == run.planGid) = some plan →
      plan.sourceVersionGid = version → plan.forkDepth = depth →
      ∃ projection, getProjection str db run.gid plan.tenantGid plan.actorGid = .ok projection ∧
        Describes t' target (Included t version depth) copy projection.nodes

/-- The scope that a member of a group keeps: its own, else the root, else the boundary. -/
def keptScope (included : Gid → Prop) [DecidablePred included] (g : SourceGroup)
    (m : VppsGroupMember) : Gid :=
  if included m.parentScopeGid then m.parentScopeGid
  else if included g.version.rootScopeGid then g.version.rootScopeGid
  else g.boundaryNodeGid

/-- The depth suits the version: no included node hangs below an included one with the nodes
between left out, no two included groups share a boundary, and the members of an included group
still differ when they are moved out of scopes that are left out. -/
structure Copyable (t : Store) (version : Gid) (depth : ForkDepth) : Prop where
  parents : ∀ node parent ancestor, Included t version depth node →
    Parent t (t.versionMembers version) node parent → ¬ Included t version depth parent →
    TransGen (Parent t (t.versionMembers version)) node ancestor →
    ¬ Included t version depth ancestor
  boundaries : (((sourceGroups t version).map SourceGroup.boundaryNodeGid).filter
    (fun node => decide (Included t version depth node))).Nodup
  siblings : ∀ g ∈ sourceGroups t version, Included t version depth g.boundaryNodeGid →
    (g.version.members.map
      (fun m => (keptScope (Included t version depth) g m, m.orderKey))).Nodup

/-- No row has a gid from `first` on. -/
structure Unissued (t : Store) (first : Gid) : Prop where
  nodes : ∀ r ∈ t.nodes, r.gid < first
  nodeRevisions : ∀ r ∈ t.nodeRevisions, r.gid < first
  bindings : ∀ r ∈ t.bindings, r.gid < first
  bindingRevisions : ∀ r ∈ t.bindingRevisions, r.gid < first
  vppsGroups : ∀ r ∈ t.vppsGroups, r.gid < first
  vppsGroupVersions : ∀ r ∈ t.vppsGroupVersions, r.gid < first

/-! ## Reading nodes -/

section

variable {t : Store} {members : List Member} {m : Member} {row : SourceNode} {version g p : Gid}
  {depth : ForkDepth}

theorem sourceNode?_eq_some : sourceNode? t m = some row ↔
    m.kind = .node ∧ m.isTombstone = false ∧ ∃ n r, t.node? m.logicalGid = some n ∧
      m.nodeRevisionGid.bind t.nodeRevision? = some r ∧
      row = ⟨m.logicalGid, n.lineageGid, r.parentNodeGid, r.nodeType, r.orderKey, r.properties,
        r.contentHash, r.evidenceRefs⟩ := by
  unfold sourceNode?
  split_ifs with hlive
  · constructor
    · intro h
      obtain ⟨n, hn, h⟩ := Option.bind_eq_some_iff.mp h
      obtain ⟨r, hr, h⟩ := Option.bind_eq_some_iff.mp h
      exact ⟨hlive.1, hlive.2, n, r, hn, hr, (Option.some.inj h).symm⟩
    · rintro ⟨-, -, n, r, hn, hr, rfl⟩
      rw [hn, hr]
      rfl
  · exact iff_of_false (fun h => by cases h) fun h => hlive ⟨h.1, h.2.1⟩

theorem sourceNode?_gid (h : sourceNode? t m = some row) : row.logicalGid = m.logicalGid := by
  obtain ⟨-, -, n, r, -, -, rfl⟩ := sourceNode?_eq_some.mp h
  rfl

theorem nodeRow?_eq_some (hkeys : (members.map Member.key).Nodup) : nodeRow? t members g = some row ↔
      ∃ m ∈ members, sourceNode? t m = some row ∧ row.logicalGid = g := by
  unfold nodeRow? member?
  rw [Option.bind_eq_some_iff]
  constructor
  · rintro ⟨m, hm, hrow⟩
    have hgid : m.logicalGid = g := congrArg MemberKey.logicalGid (KeyedRows.key_of_lookup hm)
    exact ⟨m, KeyedRows.mem_of_lookup hm, hrow, (sourceNode?_gid hrow).trans hgid⟩
  · rintro ⟨m, hm, hrow, rfl⟩
    refine ⟨m, (KeyedRows.lookup_iff_mem hkeys).mpr ⟨hm, ?_⟩, hrow⟩
    rw [sourceNode?_gid hrow]
    exact congrArg (MemberKey.mk · m.logicalGid) (sourceNode?_eq_some.mp hrow).1

theorem live_iff_nodeRow (hrecorded : ∀ m ∈ members, m.kind = .node → m.isTombstone = false →
    ∃ row, sourceNode? t m = some row ∧ ∃ props, row.properties = .obj props) :
    Live members g ↔ ∃ row, nodeRow? t members g = some row := by
  constructor
  · rintro ⟨m, hm, hlive⟩
    have hkind : m.kind = .node := congrArg MemberKey.kind (member?_key hm)
    obtain ⟨row, hrow, -⟩ := hrecorded m (mem_of_member? hm) hkind hlive
    exact ⟨row, by rw [nodeRow?, hm, Option.bind_some, hrow]⟩
  · rintro ⟨row, h⟩
    obtain ⟨m, hm, hrow⟩ := Option.bind_eq_some_iff.mp h
    exact ⟨m, hm, (sourceNode?_eq_some.mp hrow).2.1⟩

theorem parent_iff_nodeRow (hrecorded : ∀ m ∈ members, m.kind = .node → m.isTombstone = false →
    ∃ row, sourceNode? t m = some row ∧ ∃ props, row.properties = .obj props) :
    Parent t members g p ↔ ∃ row, nodeRow? t members g = some row ∧ row.parentNodeGid = some p := by
  unfold Parent nodeParent
  constructor
  · rintro ⟨m, hm, hlive, hparent⟩
    have hkind : m.kind = .node := congrArg MemberKey.kind (member?_key hm)
    obtain ⟨row, hrow, -⟩ := hrecorded m (mem_of_member? hm) hkind hlive
    refine ⟨row, by rw [nodeRow?, hm, Option.bind_some, hrow], ?_⟩
    obtain ⟨-, -, n, r, -, hr, rfl⟩ := sourceNode?_eq_some.mp hrow
    rwa [hr] at hparent
  · rintro ⟨row, h, hparent⟩
    obtain ⟨m, hm, hrow⟩ := Option.bind_eq_some_iff.mp h
    obtain ⟨-, hlive, n, r, -, hr, rfl⟩ := sourceNode?_eq_some.mp hrow
    exact ⟨m, hm, hlive, by rw [hr]; exact hparent⟩

theorem mem_sourceNodes :
    row ∈ sourceNodes t version ↔ ∃ m ∈ t.versionMembers version, sourceNode? t m = some row := by
  unfold sourceNodes
  rw [List.mem_insertionSort, List.mem_filterMap]

theorem nodup_sourceNodes (hkeys : ((t.versionMembers version).map Member.key).Nodup) :
    ((sourceNodes t version).map SourceNode.logicalGid).Nodup := by
  have hperm := List.perm_insertionSort (fun a b : SourceNode => a.before b = true)
    ((t.versionMembers version).filterMap (sourceNode? t))
  refine (hperm.map _).nodup_iff.mpr ?_
  rw [List.Nodup, List.pairwise_map]
  refine (List.pairwise_map.mp hkeys).filterMap (sourceNode? t) fun a b hne row hrow row' hrow' => ?_
  intro hsame
  have hgid := (sourceNode?_gid hrow).symm.trans (hsame.trans (sourceNode?_gid hrow'))
  refine hne (congrArg₂ MemberKey.mk ?_ hgid)
  exact (sourceNode?_eq_some.mp hrow).1.trans (sourceNode?_eq_some.mp hrow').1.symm

theorem included_iff_nodeRow (hkeys : ((t.versionMembers version).map Member.key).Nodup) :
    Included t version depth g ↔ ∃ row, nodeRow? t (t.versionMembers version) g = some row ∧
      row ∈ includedNodes depth (sourceNodes t version) := by
  unfold Included
  rw [List.mem_map]
  constructor
  · rintro ⟨row, hrow, rfl⟩
    obtain ⟨m, hm, hsource⟩ := mem_sourceNodes.mp (List.mem_of_mem_filter hrow)
    exact ⟨row, (nodeRow?_eq_some hkeys).mpr ⟨m, hm, hsource, rfl⟩, hrow⟩
  · rintro ⟨row, h, hrow⟩
    obtain ⟨m, -, -, rfl⟩ := (nodeRow?_eq_some hkeys).mp h
    exact ⟨row, hrow, rfl⟩

end

/-! ## The rows of a copy -/

section

variable (t : Store) (version : Gid) (depth : ForkDepth) (first : Gid)

/-- The nodes that are taken, with their new gids. -/
def takenNodes : List (SourceNode × Gid) :=
  (includedNodes depth (sourceNodes t version)).zipIdx first

/-- `node_map`. -/
def takenMap : List (Gid × Gid) := nodeMap (includedNodes depth (sourceNodes t version)) first

def takenBindings : List ((SourceBinding × Gid) × Gid) :=
  if depth = .all then copiedBindings (takenMap t version depth first) (sourceBindings t version)
    (first + 2 * (takenNodes t version depth first).length)
  else []

def takenGroups : List ((SourceGroup × Gid) × Gid) :=
  copiedGroups (takenMap t version depth first) (sourceGroups t version)
    (first + 2 * (takenNodes t version depth first).length
      + 2 * (takenBindings t version depth first).length)

def copyGid (node : Gid) : Gid := (mapped (takenMap t version depth first) node).getD 0

variable {t version depth first} {repository space headGid g x y : Gid} {m : Member}
  {hash : Json → Str}

theorem versionCopy_eq : versionCopy t version repository space depth first =
    let nodes := takenNodes t version depth first
    let bindings := takenBindings t version depth first
    let groups := takenGroups t version depth first
    let map := takenMap t version depth first
    { nodes := nodes.map (copiedNode repository)
      nodeRevisions := nodes.map (copiedRevision map nodes.length)
      bindings := bindings.map (copiedBinding repository)
      bindingRevisions := bindings.map (copiedBindingRevision bindings.length)
      groups := groups.map (copiedGroup space groups.length)
      groupVersions := groups.map (copiedGroupVersion map groups.length)
      members := nodes.map (copiedMember nodes.length) ++ bindings.map (copiedBindingMember bindings.length) ++
        groups.map (copiedGroupHeadMember groups.length) } := rfl

theorem mem_copy_members : m ∈ (versionCopy t version repository space depth first).members ↔
    (∃ e ∈ takenNodes t version depth first, copiedMember (takenNodes t version depth first).length e = m) ∨
    (∃ e ∈ takenBindings t version depth first,
      copiedBindingMember (takenBindings t version depth first).length e = m) ∨
    ∃ e ∈ takenGroups t version depth first,
      copiedGroupHeadMember (takenGroups t version depth first).length e = m := by
  rw [versionCopy_eq]
  simp only [List.mem_append, List.mem_map, or_assoc]

/-! **What `node_map` maps**: the included nodes, to different new gids. -/

theorem nodup_included (hkeys : ((t.versionMembers version).map Member.key).Nodup) :
    ((includedNodes depth (sourceNodes t version)).map SourceNode.logicalGid).Nodup :=
  (nodup_sourceNodes hkeys).sublist (List.filter_sublist.map _)

theorem mapped_takenMap : mapped (takenMap t version depth first) g
    = number? SourceNode.logicalGid (includedNodes depth (sourceNodes t version)) first g := rfl

theorem mapped_of_mem (hkeys : ((t.versionMembers version).map Member.key).Nodup)
    {e : SourceNode × Gid} (he : e ∈ takenNodes t version depth first) :
    mapped (takenMap t version depth first) e.1.logicalGid = some e.2 :=
  number?_of_mem (nodup_included hkeys) he

theorem exists_of_mapped (h : mapped (takenMap t version depth first) g = some x) :
    ∃ e ∈ takenNodes t version depth first, e.1.logicalGid = g ∧ e.2 = x :=
  exists_of_number? (mapped_takenMap.symm.trans h)

variable (first) in
theorem mapped_isSome_iff :
    (mapped (takenMap t version depth first) g).isSome ↔ Included t version depth g :=
  number?_isSome_iff first

theorem mapped_of_included (h : Included t version depth g) :
    mapped (takenMap t version depth first) g = some (copyGid t version depth first g) := by
  obtain ⟨x, hx⟩ := Option.isSome_iff_exists.mp ((mapped_isSome_iff first).mpr h)
  rw [copyGid, hx, Option.getD_some]

theorem mapped_of_not_included (h : ¬ Included t version depth g) :
    mapped (takenMap t version depth first) g = none := by
  rwa [← mapped_isSome_iff first, Option.not_isSome_iff_eq_none] at h

theorem included_of_mapped (h : mapped (takenMap t version depth first) g = some x) :
    Included t version depth g ∧ copyGid t version depth first g = x := by
  refine ⟨(mapped_isSome_iff first).mp (Option.isSome_of_eq_some h), ?_⟩
  rw [copyGid, h, Option.getD_some]

variable (first) in
theorem exists_taken_of_included (h : Included t version depth g) :
    ∃ e ∈ takenNodes t version depth first, e.1.logicalGid = g ∧
      e.2 = copyGid t version depth first g := exists_of_mapped (mapped_of_included h)

theorem copyGid_injOn : Set.InjOn (copyGid t version depth first)
    {node | Included t version depth node} := by
  intro a ha b hb hsame
  have hmapped : mapped (takenMap t version depth first) b
      = some (copyGid t version depth first a) := hsame ▸ mapped_of_included hb
  exact number?_inj (mapped_of_included ha) hmapped

/-! **What the copied members name** is found in the store with the copy. -/

variable (map : List (Gid × Gid))

def copiedRow (e : SourceNode × Gid) : SourceNode :=
  ⟨e.2, orGid e.1.lineageGid e.1.logicalGid, e.1.parentNodeGid.bind (mapped map), e.1.nodeType,
    e.1.orderKey, e.1.properties, e.1.contentHash, e.1.evidenceRefs⟩

variable {map}

def copiedStore (hash : Json → Str) (t : Store) (version repository space headGid : Gid)
    (depth : ForkDepth) (first : Gid) : Store :=
  t.insertCopy hash headGid (versionCopy t version repository space depth first)

theorem sourceNode?_copiedMember (hfresh : Unissued t first) {e : SourceNode × Gid}
    (he : e ∈ takenNodes t version depth first) :
    sourceNode? (copiedStore hash t version repository space headGid depth first)
      (copiedMember (takenNodes t version depth first).length e)
        = some (copiedRow (takenMap t version depth first) e) := by
  refine sourceNode?_eq_some.mpr ⟨rfl, rfl, copiedNode repository e,
    copiedRevision (takenMap t version depth first) (takenNodes t version depth first).length e,
    ?_, ?_, rfl⟩
  · exact find?_numbered 0 (fun _ => rfl) hfresh.nodes he
  · exact find?_numbered _ (fun _ => rfl) hfresh.nodeRevisions he

theorem bindingRevision?_copied (hfresh : Unissued t first)
    {e : (SourceBinding × Gid) × Gid} (he : e ∈ takenBindings t version depth first) :
    (copiedStore hash t version repository space headGid depth first).bindingRevision?
      (e.2 + (takenBindings t version depth first).length)
        = some (copiedBindingRevision (takenBindings t version depth first).length e) := by
  unfold Store.bindingRevision? copiedStore Store.insertCopy
  rw [versionCopy_eq]
  dsimp only
  unfold takenBindings at he ⊢
  split_ifs at he ⊢
  · refine find?_numbered _ (fun _ => rfl) (fun r hr => ?_) he
    exact lt_of_lt_of_le (hfresh.bindingRevisions r hr) (Nat.le_add_right _ _)
  · cases he

theorem sourceGroup?_copied (hfresh : Unissued t first) {e : (SourceGroup × Gid) × Gid}
    (he : e ∈ takenGroups t version depth first) :
    sourceGroup? (copiedStore hash t version repository space headGid depth first)
      (copiedGroupHeadMember (takenGroups t version depth first).length e)
        = some ⟨e.2, e.1.2, orGid e.1.1.groupLineageGid e.1.1.logicalGid,
          copiedGroupVersion (takenMap t version depth first)
            (takenGroups t version depth first).length e⟩ := by
  have hgroup : (copiedStore hash t version repository space headGid depth first).vppsGroup? e.2
      = some (copiedGroup space (takenGroups t version depth first).length e) := by
    refine find?_numbered 0 (fun _ => rfl) (fun r hr => ?_) he
    refine lt_of_lt_of_le (hfresh.vppsGroups r hr) ?_
    exact (Nat.le_add_right _ _).trans (Nat.le_add_right _ _)
  have hversion : (copiedStore hash t version repository space headGid depth first).vppsGroupVersion?
      (e.2 + (takenGroups t version depth first).length)
      = some (copiedGroupVersion (takenMap t version depth first)
          (takenGroups t version depth first).length e) := by
    refine find?_numbered _ (fun _ => rfl) (fun r hr => ?_) he
    refine lt_of_lt_of_le (hfresh.vppsGroupVersions r hr) ?_
    exact (Nat.le_add_right _ _).trans (Nat.le_add_right _ _)
  unfold sourceGroup?
  rw [if_pos ⟨rfl, rfl⟩]
  simp only [copiedGroupHeadMember, Option.bind_some, hversion, hgroup]
  rfl

end

/-! ## The shape of a copy -/

section

variable {hash : Json → Str} {t : Store} {version repository space headGid first : Gid}
  {depth : ForkDepth} {m : Member} {row : SourceNode} {a x y : Gid}

theorem eq_copiedMember (hm : m ∈ (versionCopy t version repository space depth first).members)
    (hkind : m.kind = .node) : ∃ e ∈ takenNodes t version depth first,
      copiedMember (takenNodes t version depth first).length e = m := by
  rcases mem_copy_members.mp hm with hnode | ⟨e, -, rfl⟩ | ⟨e, -, rfl⟩
  · exact hnode
  · cases hkind
  · cases hkind

theorem mem_included_of_taken {e : SourceNode × Gid} (he : e ∈ takenNodes t version depth first) :
    e.1 ∈ includedNodes depth (sourceNodes t version) := List.fst_mem_of_mem_zipIdx he

variable (first) in
theorem exists_taken (h : row ∈ includedNodes depth (sourceNodes t version)) :
    ∃ e ∈ takenNodes t version depth first, e.1 = row := exists_mem_zipIdx h first

theorem recorded_copy (hforest : NodeForest t (t.versionMembers version))
    (hfresh : Unissued t first) :
    ∀ m ∈ (versionCopy t version repository space depth first).members, m.kind = .node →
      m.isTombstone = false → ∃ row,
        sourceNode? (copiedStore hash t version repository space headGid depth first) m = some row ∧
        ∃ props, row.properties = .obj props := by
  intro m hm hkind _
  obtain ⟨e, he, rfl⟩ := eq_copiedMember hm hkind
  obtain ⟨source, hsource, hrow⟩ :=
    mem_sourceNodes.mp (List.mem_of_mem_filter (mem_included_of_taken he))
  obtain ⟨hnode, hlive, -⟩ := sourceNode?_eq_some.mp hrow
  obtain ⟨row, hrow', props, hprops⟩ := hforest.recorded source hsource hnode hlive
  obtain rfl := Option.some.inj (hrow.symm.trans hrow')
  exact ⟨_, sourceNode?_copiedMember hfresh he, props, hprops⟩

theorem nodeRow?_copy (hfresh : Unissued t first) :
    nodeRow? (copiedStore hash t version repository space headGid depth first)
      (versionCopy t version repository space depth first).members x = some row ↔
      ∃ e ∈ takenNodes t version depth first, e.2 = x ∧ copiedRow (takenMap t version depth first) e = row := by
  rw [nodeRow?_eq_some (CraftWorld.nodup_copy_members _ _ _ _ _ _)]
  constructor
  · rintro ⟨m, hm, hrow, rfl⟩
    obtain ⟨e, he, rfl⟩ := eq_copiedMember hm (sourceNode?_eq_some.mp hrow).1
    obtain rfl := Option.some.inj ((sourceNode?_copiedMember hfresh he).symm.trans hrow)
    exact ⟨e, he, rfl, rfl⟩
  · rintro ⟨e, he, rfl, rfl⟩
    exact ⟨_, mem_copy_members.mpr (Or.inl ⟨e, he, rfl⟩), sourceNode?_copiedMember hfresh he, rfl⟩

/-- **The live nodes of a copy** are the copies of the included nodes. -/
theorem live_copy (hkeys : ((t.versionMembers version).map Member.key).Nodup)
    (hforest : NodeForest t (t.versionMembers version)) (hfresh : Unissued t first) :
    Live (versionCopy t version repository space depth first).members x ↔
      ∃ a, Included t version depth a ∧ copyGid t version depth first a = x := by
  rw [live_iff_nodeRow (t := copiedStore (fun _ => []) t version repository space 0 depth first)
    (recorded_copy hforest hfresh)]
  constructor
  · rintro ⟨row, hrow⟩
    obtain ⟨e, he, rfl, rfl⟩ := (nodeRow?_copy hfresh).mp hrow
    exact ⟨e.1.logicalGid, included_of_mapped (mapped_of_mem hkeys he)⟩
  · rintro ⟨a, ha, rfl⟩
    obtain ⟨e, he, rfl, hgid⟩ := exists_taken_of_included first ha
    exact ⟨_, (nodeRow?_copy hfresh).mpr ⟨e, he, hgid, rfl⟩⟩

/-- **The parents in a copy** are the copies of included parents. -/
theorem parent_copy (hkeys : ((t.versionMembers version).map Member.key).Nodup)
    (hforest : NodeForest t (t.versionMembers version)) (hfresh : Unissued t first) :
    Parent (copiedStore hash t version repository space headGid depth first)
      (versionCopy t version repository space depth first).members x y ↔
      ∃ a b, Included t version depth a ∧ Included t version depth b ∧
        copyGid t version depth first a = x ∧ copyGid t version depth first b = y ∧
        Parent t (t.versionMembers version) a b := by
  rw [parent_iff_nodeRow (recorded_copy hforest hfresh)]
  constructor
  · rintro ⟨row, hrow, hparent⟩
    obtain ⟨e, he, rfl, rfl⟩ := (nodeRow?_copy hfresh).mp hrow
    obtain ⟨b, hb, hmapped⟩ := Option.bind_eq_some_iff.mp hparent
    obtain ⟨ha, hcopy⟩ := included_of_mapped (mapped_of_mem hkeys he)
    obtain ⟨hb', hcopy'⟩ := included_of_mapped hmapped
    refine ⟨e.1.logicalGid, b, ha, hb', hcopy, hcopy', ?_⟩
    refine (parent_iff_nodeRow hforest.recorded).mpr ⟨e.1, ?_, hb⟩
    obtain ⟨m, hm, hsource⟩ :=
      mem_sourceNodes.mp (List.mem_of_mem_filter (mem_included_of_taken he))
    exact (nodeRow?_eq_some hkeys).mpr ⟨m, hm, hsource, rfl⟩
  · rintro ⟨a, b, ha, hb, rfl, rfl, hparent⟩
    obtain ⟨row, hrow, hab⟩ := (parent_iff_nodeRow hforest.recorded).mp hparent
    obtain ⟨row', hrow', hincluded⟩ := (included_iff_nodeRow hkeys).mp ha
    obtain rfl := Option.some.inj (hrow.symm.trans hrow')
    obtain ⟨e, he, rfl⟩ := exists_taken first hincluded
    obtain ⟨m, -, -, hgid⟩ := (nodeRow?_eq_some hkeys).mp hrow
    have hcopy := (included_of_mapped (mapped_of_mem hkeys he)).2
    refine ⟨_, (nodeRow?_copy hfresh).mpr ⟨e, he, ?_, rfl⟩, ?_⟩
    · rw [← hcopy, hgid]
    · exact Option.bind_eq_some_iff.mpr ⟨b, hab, mapped_of_included hb⟩

/-- **A copy is a forest** where its source is one. -/
theorem nodeForest_copy (hkeys : ((t.versionMembers version).map Member.key).Nodup)
    (hforest : NodeForest t (t.versionMembers version)) (hfresh : Unissued t first) :
    NodeForest (copiedStore hash t version repository space headGid depth first)
      (versionCopy t version repository space depth first).members := by
  refine ⟨recorded_copy hforest hfresh, fun x y h => ?_, fun x hcycle => ?_⟩
  · obtain ⟨a, b, -, hb, -, rfl, -⟩ := (parent_copy hkeys hforest hfresh).mp h
    exact (live_copy hkeys hforest hfresh).mpr ⟨b, hb, rfl⟩
  · -- a chain of copies is the image of a chain in the source
    have hchain : ∀ y, TransGen (Parent (copiedStore hash t version repository space headGid depth
        first) (versionCopy t version repository space depth first).members) x y →
        ∃ a b, Included t version depth a ∧ Included t version depth b ∧
          copyGid t version depth first a = x ∧ copyGid t version depth first b = y ∧
          TransGen (Parent t (t.versionMembers version)) a b := by
      intro y h
      induction h with
      | single hxy =>
        obtain ⟨a, b, ha, hb, hx, hy, hab⟩ := (parent_copy hkeys hforest hfresh).mp hxy
        exact ⟨a, b, ha, hb, hx, hy, .single hab⟩
      | tail _ hyz ih =>
        obtain ⟨a, b, ha, hb, hx, hy, hab⟩ := ih
        obtain ⟨b', c, hb', hc, hy', hz, hbc⟩ := (parent_copy hkeys hforest hfresh).mp hyz
        obtain rfl := copyGid_injOn hb hb' (hy.trans hy'.symm)
        exact ⟨a, c, ha, hc, hx, hz, .tail hab hbc⟩
    obtain ⟨a, b, ha, hb, hx, hx', hab⟩ := hchain x hcycle
    obtain rfl := copyGid_injOn ha hb (hx.trans hx'.symm)
    exact hforest.acyclic a hab

/-- **The nodes of a copy** are copies, where no included node hangs below a left-out one that has
an included ancestor. -/
theorem nodeCopy_copy (hkeys : ((t.versionMembers version).map Member.key).Nodup)
    (hforest : NodeForest t (t.versionMembers version)) (hfresh : Unissued t first)
    (hparents : ∀ node parent ancestor, Included t version depth node →
      Parent t (t.versionMembers version) node parent → ¬ Included t version depth parent →
      TransGen (Parent t (t.versionMembers version)) node ancestor →
      ¬ Included t version depth ancestor) :
    NodeCopy t (copiedStore hash t version repository space headGid depth first)
      (t.versionMembers version) (versionCopy t version repository space depth first).members
      (Included t version depth) (copyGid t version depth first) where
  injective := copyGid_injOn
  fresh := by
    intro a ha
    obtain ⟨e, he, -, hgid⟩ := exists_taken_of_included first ha
    refine List.find?_eq_none.mpr fun r hr => ?_
    rw [← hgid, beq_iff_eq]
    exact ((hfresh.nodes r hr).trans_le (first_le he)).ne
  onto := fun x => live_copy hkeys hforest hfresh
  content := by
    intro a row ha hrow
    obtain ⟨row', hrow', hincluded⟩ := (included_iff_nodeRow hkeys).mp ha
    obtain rfl := Option.some.inj (hrow.symm.trans hrow')
    obtain ⟨e, he, rfl⟩ := exists_taken first hincluded
    obtain ⟨m, -, -, rfl⟩ := (nodeRow?_eq_some hkeys).mp hrow
    have hcopy := (included_of_mapped (mapped_of_mem hkeys he)).2
    exact ⟨_, (nodeRow?_copy hfresh).mpr ⟨e, he, hcopy.symm, rfl⟩, rfl, rfl, rfl⟩
  parents := by
    intro a b ha hb
    constructor
    · intro h
      obtain ⟨a', b', ha', hb', hx, hy, hab⟩ := (parent_copy hkeys hforest hfresh).mp h
      obtain rfl := copyGid_injOn ha' ha hx
      obtain rfl := copyGid_injOn hb' hb hy
      exact hab
    · exact fun hab => (parent_copy hkeys hforest hfresh).mpr ⟨a, b, ha, hb, rfl, rfl, hab⟩
  roots := by
    intro a ancestor ha hancestor hchain
    obtain ⟨p, hp, -⟩ := TransGen.head'_iff.mp hchain
    have hincluded : Included t version depth p := by
      by_contra hleft
      exact hparents a p ancestor ha hp hleft hchain hancestor
    exact ⟨_, (parent_copy hkeys hforest hfresh).mpr ⟨a, p, ha, hincluded, rfl, rfl, hp⟩⟩

/-! ## Bindings and groups of a copy -/

theorem source_copy (hkeys : ((t.versionMembers version).map Member.key).Nodup)
    (hforest : NodeForest t (t.versionMembers version)) (hfresh : Unissued t first)
    (h : Source (copiedStore hash t version repository space headGid depth first)
      (versionCopy t version repository space depth first).members x y) :
    Live (versionCopy t version repository space depth first).members y := by
  obtain ⟨m, hm, -, hsource⟩ := h
  have hkind : m.kind = .binding := congrArg MemberKey.kind (member?_key hm)
  rcases mem_copy_members.mp (mem_of_member? hm) with ⟨e, -, rfl⟩ | ⟨e, he, rfl⟩ | ⟨e, -, rfl⟩
  · cases hkind
  · unfold bindingSource at hsource
    simp only [copiedBindingMember, Option.bind_some] at hsource
    rw [bindingRevision?_copied hfresh he, Option.map_some, Option.some.injEq] at hsource
    subst hsource
    have hmapped : mapped (takenMap t version depth first) e.1.1.sourceNodeGid = some e.1.2 := by
      unfold takenBindings at he
      split_ifs at he
      · obtain ⟨row, -, hrow⟩ := List.mem_filterMap.mp (List.fst_mem_of_mem_zipIdx he)
        obtain ⟨x, hx, heq⟩ := Option.map_eq_some_iff.mp hrow
        rw [← heq]
        exact hx
      · cases he
    exact (live_copy hkeys hforest hfresh).mpr ⟨_, included_of_mapped hmapped⟩
  · cases hkind

theorem mapped_of_group {e : (SourceGroup × Gid) × Gid} (he : e ∈ takenGroups t version depth first) :
    e.1.1 ∈ sourceGroups t version ∧
      mapped (takenMap t version depth first) e.1.1.boundaryNodeGid = some e.1.2 := by
  obtain ⟨row, hrow, hmap⟩ := List.mem_filterMap.mp (List.fst_mem_of_mem_zipIdx he)
  obtain ⟨x, hx, heq⟩ := Option.map_eq_some_iff.mp hmap
  rw [← heq]
  exact ⟨hrow, hx⟩

/-- **The scope of a copied member** is the copy of the scope that is kept. -/
theorem copiedScope_eq {g : SourceGroup} {boundary : Gid} (member : VppsGroupMember)
    (hboundary : mapped (takenMap t version depth first) g.boundaryNodeGid = some boundary) :
    Included t version depth (keptScope (Included t version depth) g member) ∧
      copiedScope (takenMap t version depth first)
        (copiedRoot (takenMap t version depth first) g boundary) member
          = copyGid t version depth first (keptScope (Included t version depth) g member) := by
  unfold copiedScope copiedRoot keptScope
  split_ifs with hscope hroot
  · rw [mapped_of_included hscope]
    exact ⟨hscope, rfl⟩
  · rw [mapped_of_not_included hscope, mapped_of_included hroot]
    exact ⟨hroot, rfl⟩
  · rw [mapped_of_not_included hscope, mapped_of_not_included hroot]
    obtain ⟨hincluded, hcopy⟩ := included_of_mapped hboundary
    exact ⟨hincluded, hcopy.symm⟩

theorem copiedRoot_included {g : SourceGroup} {boundary : Gid}
    (hboundary : mapped (takenMap t version depth first) g.boundaryNodeGid = some boundary) :
    ∃ a, Included t version depth a ∧ copyGid t version depth first a
      = copiedRoot (takenMap t version depth first) g boundary := by
  unfold copiedRoot
  by_cases hroot : Included t version depth g.version.rootScopeGid
  · rw [mapped_of_included hroot]
    exact ⟨_, hroot, rfl⟩
  · rw [mapped_of_not_included hroot]
    exact ⟨_, included_of_mapped hboundary⟩

/-- **The siblings of a copied group** differ exactly if the members differ in the scope they keep
or in their order key. -/
theorem siblings_copy {e : (SourceGroup × Gid) × Gid} (he : e ∈ takenGroups t version depth first)
    (shift : Nat) :
    (copiedGroupVersion (takenMap t version depth first) shift e).siblings.Nodup ↔
      (e.1.1.version.members.map
        (fun m => (keptScope (Included t version depth) e.1.1 m, m.orderKey))).Nodup := by
  have hscope := fun member => copiedScope_eq member (mapped_of_group he).2
  have hmap : (copiedGroupVersion (takenMap t version depth first) shift e).siblings = (e.1.1.version.members.map
          (fun m => (keptScope (Included t version depth) e.1.1 m, m.orderKey))).map
            (Prod.map (copyGid t version depth first) id) := by
    unfold VppsGroupVersion.siblings copiedGroupVersion
    simp only [List.map_map]
    refine List.map_congr_left fun member _ => ?_
    exact congrArg (Prod.mk · member.orderKey) (hscope member).2
  rw [hmap]
  refine ⟨List.Nodup.of_map _, fun h => h.map_on fun p hp q hq hsame => ?_⟩
  obtain ⟨m, -, rfl⟩ := List.mem_map.mp hp
  obtain ⟨m', -, rfl⟩ := List.mem_map.mp hq
  obtain ⟨hgid, hkey⟩ := Prod.ext_iff.mp hsame
  exact Prod.ext (copyGid_injOn (hscope m).1 (hscope m').1 hgid) hkey

theorem filterMap_mapped (nodes : List Gid) : nodes.filterMap (mapped (takenMap t version depth first))
      = (nodes.filter (fun node => decide (Included t version depth node))).map
          (copyGid t version depth first) := by
  induction nodes with
  | nil => rfl
  | cons node nodes ih =>
    by_cases h : Included t version depth node
    · rw [List.filterMap_cons_some (mapped_of_included h), ih,
        List.filter_cons_of_pos (by simpa using h), List.map_cons]
    · rw [List.filterMap_cons_none (mapped_of_not_included h), ih, List.filter_cons_of_neg (by simpa using h)]

/-- **The boundaries of the copied groups** differ exactly if the included ones do. -/
theorem boundaries_copy :
    ((versionCopy t version repository space depth first).groups.map VppsGroup.boundaryNodeGid).Nodup ↔
      (((sourceGroups t version).map SourceGroup.boundaryNodeGid).filter
        (fun node => decide (Included t version depth node))).Nodup := by
  have htaken : (takenGroups t version depth first).map (fun e => e.1.2)
      = ((sourceGroups t version).map SourceGroup.boundaryNodeGid).filterMap
          (mapped (takenMap t version depth first)) := by
    unfold takenGroups copiedGroups
    calc _ = (((sourceGroups t version).filterMap (fun row =>
            (mapped (takenMap t version depth first) row.boundaryNodeGid).map (row, ·))).zipIdx
              _ |>.map Prod.fst).map Prod.snd := by rw [List.map_map]; rfl
      _ = _ := by
        rw [List.zipIdx_map_fst, List.map_filterMap, List.filterMap_map]
        refine List.filterMap_congr fun row _ => ?_
        simp [Option.map_map, Function.comp_def]
  rw [versionCopy_eq]
  simp only [List.map_map]
  have hgroups : ((takenGroups t version depth first).map
      (VppsGroup.boundaryNodeGid ∘ copiedGroup space (takenGroups t version depth first).length))
      = (takenGroups t version depth first).map (fun e => e.1.2) := rfl
  rw [hgroups, htaken, filterMap_mapped]
  refine ⟨List.Nodup.of_map _, fun h => h.map_on fun a ha b hb hsame => ?_⟩
  have hincluded : Included t version depth a := of_decide_eq_true (List.mem_filter.mp ha).2
  have hincluded' : Included t version depth b := of_decide_eq_true (List.mem_filter.mp hb).2
  exact copyGid_injOn hincluded hincluded' hsame

theorem groupCopy_copy (hkeys : ((t.versionMembers version).map Member.key).Nodup)
    (hforest : NodeForest t (t.versionMembers version)) (hfresh : Unissued t first)
    (hsiblings : ∀ g ∈ sourceGroups t version, Included t version depth g.boundaryNodeGid →
      (g.version.members.map
        (fun m => (keptScope (Included t version depth) g m, m.orderKey))).Nodup)
    (hm : m ∈ (versionCopy t version repository space depth first).members)
    (hkind : m.kind = .vpps) :
    ∃ g, sourceGroup? (copiedStore hash t version repository space headGid depth first) m = some g ∧
      GroupCopy (versionCopy t version repository space depth first).members g := by
  rcases mem_copy_members.mp hm with ⟨e, -, rfl⟩ | ⟨e, -, rfl⟩ | ⟨e, he, rfl⟩
  · cases hkind
  · cases hkind
  obtain ⟨hgroup, hboundary⟩ := mapped_of_group he
  refine ⟨_, sourceGroup?_copied hfresh he, ?_, ?_, ?_, ?_, ?_⟩
  · exact (live_copy hkeys hforest hfresh).mpr ⟨_, included_of_mapped hboundary⟩
  · exact (live_copy hkeys hforest hfresh).mpr (copiedRoot_included hboundary)
  · intro member hmember
    obtain ⟨source, -, rfl⟩ := List.mem_map.mp hmember
    obtain ⟨hincluded, hscope⟩ := copiedScope_eq source hboundary
    exact (live_copy hkeys hforest hfresh).mpr ⟨_, hincluded, hscope.symm⟩
  · intro member hmember node hnode
    obtain ⟨source, -, rfl⟩ := List.mem_map.mp hmember
    obtain ⟨_, -, hmapped⟩ := Option.bind_eq_some_iff.mp hnode
    exact (live_copy hkeys hforest hfresh).mpr ⟨_, included_of_mapped hmapped⟩
  · exact (siblings_copy he _).mpr (hsiblings _ hgroup (included_of_mapped hboundary).1)

end

/-! ## The projection of a copy -/

section

variable {hash : Json → Str} {str : Json → Str} {t t' : Store}
  {version repository space headGid first g : Gid} {depth : ForkDepth} {m : Member}
  {r : NodeRevision}

theorem projectedRow?_eq_some : projectedRow? t m = some (g, r) ↔
    m.kind = .node ∧ m.isTombstone = false ∧ m.logicalGid = g ∧
      m.nodeRevisionGid.bind t.nodeRevision? = some r := by
  unfold projectedRow?
  split_ifs with hlive
  · rw [Option.map_eq_some_iff]
    constructor
    · rintro ⟨r', hr, heq⟩
      cases heq
      exact ⟨hlive.1, hlive.2, rfl, hr⟩
    · rintro ⟨-, -, rfl, hr⟩
      exact ⟨r, hr, rfl⟩
  · exact iff_of_false (fun h => by cases h) fun h => hlive ⟨h.1, h.2.1⟩

theorem mem_projectedRows : (g, r) ∈ projectedRows t version depth ↔
    (∃ m ∈ t.versionMembers version, projectedRow? t m = some (g, r)) ∧
      level r.nodeType ≤ depth.maxLevel := by
  unfold projectedRows
  rw [List.mem_filter, List.mem_insertionSort, List.mem_filterMap, decide_eq_true_iff]

theorem nodup_projectedRows (hkeys : ((t.versionMembers version).map Member.key).Nodup) :
    ((projectedRows t version depth).map Prod.fst).Nodup := by
  refine List.Nodup.sublist (List.filter_sublist.map _) ?_
  have hperm := List.perm_insertionSort (fun a b : Gid × NodeRevision => projectedBefore a b = true)
    ((t.versionMembers version).filterMap (projectedRow? t))
  refine (hperm.map _).nodup_iff.mpr ?_
  rw [List.Nodup, List.pairwise_map]
  refine (List.pairwise_map.mp hkeys).filterMap (projectedRow? t) fun a b hne row hrow row' hrow' hsame => ?_
  obtain ⟨hkind, -, hgid, -⟩ := projectedRow?_eq_some.mp hrow
  obtain ⟨hkind', -, hgid', -⟩ := projectedRow?_eq_some.mp hrow'
  exact hne (congrArg₂ MemberKey.mk (hkind.trans hkind'.symm) (hgid.trans (hsame.trans hgid'.symm)))

/-- **The rows of a projection** are the included nodes, also after their version was copied. -/
theorem projectedRow_included (hforest : NodeForest t (t.versionMembers version))
    (hversions : t'.versions = t.versions) (more : List NodeRevision)
    (hrevisions : t'.nodeRevisions = t.nodeRevisions ++ more) :
    (g, r) ∈ projectedRows t' version depth ↔ ∃ row ∈ includedNodes depth (sourceNodes t version),
      ∃ m ∈ t.versionMembers version, sourceNode? t m = some row ∧ row.logicalGid = g ∧
        m.nodeRevisionGid.bind t.nodeRevision? = some r := by
  have hmembers : t'.versionMembers version = t.versionMembers version := by
    unfold Store.versionMembers
    rw [hversions]
  have hfind : ∀ {gid r}, t.nodeRevision? gid = some r → t'.nodeRevision? gid = some r := by
    intro gid r h
    unfold Store.nodeRevision?
    rw [hrevisions]
    exact Rows.find?_append_of_some h more
  have hbind : ∀ {gid : Option Gid} {r}, gid.bind t.nodeRevision? = some r →
      gid.bind t'.nodeRevision? = some r := by
    intro gid r h
    obtain ⟨gid, rfl, h⟩ := Option.bind_eq_some_iff.mp h
    exact hfind h
  rw [mem_projectedRows, hmembers]
  constructor
  · rintro ⟨⟨m, hm, hrow⟩, hlevel⟩
    obtain ⟨hkind, hlive, rfl, hr⟩ := projectedRow?_eq_some.mp hrow
    obtain ⟨row, hsource, -⟩ := hforest.recorded m hm hkind hlive
    obtain ⟨-, -, n, r', -, hr', rfl⟩ := sourceNode?_eq_some.mp hsource
    obtain rfl := Option.some.inj ((hbind hr').symm.trans hr)
    refine ⟨_, List.mem_filter.mpr ⟨mem_sourceNodes.mpr ⟨m, hm, hsource⟩, ?_⟩, m, hm, hsource, rfl, hr'⟩
    exact decide_eq_true hlevel
  · rintro ⟨row, hincluded, m, hm, hsource, rfl, hr⟩
    obtain ⟨hkind, hlive, n, r', -, hr', rfl⟩ := sourceNode?_eq_some.mp hsource
    obtain rfl := Option.some.inj (hr'.symm.trans hr)
    refine ⟨⟨m, hm, projectedRow?_eq_some.mpr ⟨hkind, hlive, rfl, hbind hr⟩⟩, ?_⟩
    exact of_decide_eq_true (List.mem_filter.mp hincluded).2

theorem projectedName_of_obj (str : Json → Str) (props : List (Str × Json)) (g : Gid) :
    ∃ name, projectedName str (.obj props) g = .ok name := by
  unfold projectedName Json.orElse
  split_ifs <;> exact ⟨_, rfl⟩

theorem mapM_projectedNode (str : Json → Str) (ids : List Gid) (rows : List ((Gid × NodeRevision) × Nat))
    (hprops : ∀ e ∈ rows, ∃ props, e.1.2.properties = .obj props) :
    ∃ nodes, rows.mapM (projectedNode str ids) = .ok nodes ∧
      nodes.map ProjectedNode.nodeGid = rows.map (fun e => e.1.1) ∧
      ∀ n ∈ nodes, ∃ e ∈ rows, n.nodeGid = e.1.1 ∧ n.nodeType = e.1.2.nodeType ∧
        n.parentGid = e.1.2.parentNodeGid.filter (fun parent => decide (parent ∈ ids)) := by
  induction rows with
  | nil => exact ⟨[], rfl, rfl, by simp⟩
  | cons e rows ih =>
    obtain ⟨nodes, hnodes, hgids, hrows⟩ := ih fun e' he' => hprops e' (List.mem_cons_of_mem _ he')
    obtain ⟨props, hobj⟩ := hprops e List.mem_cons_self
    obtain ⟨name, hname⟩ := projectedName_of_obj str props e.1.1
    let node : ProjectedNode := ⟨e.1.1,
      e.1.2.parentNodeGid.filter (fun parent => decide (parent ∈ ids)), e.1.2.nodeType, name, e.2⟩
    have hnode : projectedNode str ids e = .ok node := by
      unfold projectedNode
      rw [hobj, hname]
      rfl
    refine ⟨node :: nodes, ?_, ?_, ?_⟩
    · rw [List.mapM_cons, hnode, hnodes]
      rfl
    · rw [List.map_cons, List.map_cons, hgids]
    · intro n hn
      rcases List.mem_cons.mp hn with rfl | hn
      · exact ⟨e, List.mem_cons_self, rfl, rfl, rfl⟩
      · obtain ⟨e', he', h⟩ := hrows n hn
        exact ⟨e', List.mem_cons_of_mem _ he', h⟩

/-- **The projection of a copy** describes it. -/
theorem projectedNodes_copy (hkeys : ((t.versionMembers version).map Member.key).Nodup)
    (hforest : NodeForest t (t.versionMembers version)) (hfresh : Unissued t first)
    (hversions : t'.versions = t.versions) (more : List NodeRevision)
    (hrevisions : t'.nodeRevisions = t.nodeRevisions ++ more) :
    ∃ nodes, projectedNodes str (projectedRows t' version depth) = .ok nodes ∧
      Describes (copiedStore hash t version repository space headGid depth first)
        (versionCopy t version repository space depth first).members (Included t version depth)
        (copyGid t version depth first) nodes := by
  have hrows : ∀ {g r}, (g, r) ∈ projectedRows t' version depth ↔
      ∃ row ∈ includedNodes depth (sourceNodes t version),
        ∃ m ∈ t.versionMembers version, sourceNode? t m = some row ∧ row.logicalGid = g ∧
          m.nodeRevisionGid.bind t.nodeRevision? = some r :=
    projectedRow_included hforest hversions more hrevisions
  have hincluded : ∀ node, node ∈ (projectedRows t' version depth).map Prod.fst ↔
      Included t version depth node := by
    intro node
    unfold Included
    rw [List.mem_map, List.mem_map]
    constructor
    · rintro ⟨⟨g, r⟩, hrow, rfl⟩
      obtain ⟨row, hrow, -, -, -, hgid, -⟩ := hrows.mp hrow
      exact ⟨row, hrow, hgid⟩
    · rintro ⟨row, hrow, rfl⟩
      obtain ⟨m, hm, hsource⟩ := mem_sourceNodes.mp (List.mem_of_mem_filter hrow)
      obtain ⟨-, -, n, r, -, hr, -⟩ := sourceNode?_eq_some.mp hsource
      exact ⟨(row.logicalGid, r), hrows.mpr ⟨row, hrow, m, hm, hsource, rfl, hr⟩, rfl⟩
  obtain ⟨nodes, hnodes, hgids, hfields⟩ := mapM_projectedNode str
    ((projectedRows t' version depth).map Prod.fst) (projectedRows t' version depth).zipIdx (by
      rintro ⟨⟨g, r⟩, i⟩ he
      obtain ⟨row, -, m, hm, hrow, -, hr⟩ := hrows.mp (List.fst_mem_of_mem_zipIdx he)
      obtain ⟨hkind, hlive, n, r', -, hr', rfl⟩ := sourceNode?_eq_some.mp hrow
      obtain rfl := Option.some.inj (hr'.symm.trans hr)
      obtain ⟨row', hrow', hprops⟩ := hforest.recorded m hm hkind hlive
      obtain rfl := Option.some.inj (hrow.symm.trans hrow')
      exact hprops)
  have hids : nodes.map ProjectedNode.nodeGid = (projectedRows t' version depth).map Prod.fst := by
    rw [hgids]
    calc (projectedRows t' version depth).zipIdx.map (fun e => e.1.1)
        = ((projectedRows t' version depth).zipIdx.map Prod.fst).map Prod.fst := by
          rw [List.map_map]
          rfl
      _ = (projectedRows t' version depth).map Prod.fst := by rw [List.zipIdx_map_fst]
  refine ⟨nodes, hnodes, ?_, fun node => by rw [hids, hincluded], ?_⟩
  · rw [hids]
    refine nodup_projectedRows ?_
    unfold Store.versionMembers at hkeys ⊢
    rwa [hversions]
  · intro n hn
    obtain ⟨⟨⟨g, r⟩, i⟩, he, hgid, htype, hparent⟩ := hfields n hn
    obtain ⟨row, hrow, m, hm, hsource, hg, hr⟩ := hrows.mp (List.fst_mem_of_mem_zipIdx he)
    obtain ⟨-, -, n', r', -, hr', rfl⟩ := sourceNode?_eq_some.mp hsource
    obtain rfl := Option.some.inj (hr'.symm.trans hr)
    obtain ⟨e, htaken, he'⟩ := exists_taken first hrow
    have hcopy := (included_of_mapped (mapped_of_mem hkeys htaken)).2
    refine ⟨_, (nodeRow?_copy hfresh).mpr ⟨e, htaken, ?_, rfl⟩, ?_, ?_⟩
    · rw [← hcopy, he', hgid, hg]
    · rw [htype, copiedRow, he']
    · -- both keep the parent exactly if it is included
      rw [hparent, copiedRow, he']
      show r'.parentNodeGid.bind (mapped (takenMap t version depth first)) = _
      cases r'.parentNodeGid with
      | none => rfl
      | some p =>
        have hp := hincluded p
        by_cases hleft : Included t version depth p
        · simp [mapped_of_included hleft, Option.filter, hp.mpr hleft]
        · have hout : p ∉ (projectedRows t' version depth).map Prod.fst := fun h => hleft (hp.mp h)
          simp only [Option.bind_some, mapped_of_not_included hleft, Option.filter,
            decide_eq_false hout, Bool.false_eq_true, if_false, Option.map_none]

theorem getProjection_copy (hkeys : ((t.versionMembers version).map Member.key).Nodup)
    (hforest : NodeForest t (t.versionMembers version)) (hfresh : Unissued t first)
    (hsource : (t.versionRepository? version).isSome) {db : Db} {run : ForkRun} {plan : ForkPlan}
    (hdb : db.toStore = copiedStore hash t version repository space headGid depth first)
    (hrun : db.forkRuns.find? (·.gid == run.gid) = some run)
    (hplan : db.forkPlans.find? (·.gid == run.planGid) = some plan)
    (hversion : plan.sourceVersionGid = version) (hdepth : plan.forkDepth = depth) :
    ∃ projection, getProjection str db run.gid plan.tenantGid plan.actorGid = .ok projection ∧
      Describes (copiedStore hash t version repository space headGid depth first)
        (versionCopy t version repository space depth first).members (Included t version depth)
        (copyGid t version depth first) projection.nodes := by
  have hversions : db.versions = t.versions := (congrArg Store.versions hdb).trans rfl
  have hspaces : db.spaces = t.spaces := (congrArg Store.spaces hdb).trans rfl
  obtain ⟨repositoryGid, hrepository⟩ := Option.isSome_iff_exists.mp hsource
  obtain ⟨v, hv, hrepository⟩ := Option.bind_eq_some_iff.mp hrepository
  obtain ⟨s, hs, -⟩ := Option.bind_eq_some_iff.mp hrepository
  rw [← hversions, ← hversion] at hv
  obtain ⟨s', hs'⟩ : ∃ s', db.spaces.find? (·.gid == v.spaceGid) = some s' := by
    rw [hspaces, ← Option.isSome_iff_exists, List.find?_isSome]
    have hfound := List.find?_some hs
    rw [Bool.and_eq_true] at hfound
    exact ⟨s, List.mem_of_find?_eq_some hs, hfound.1⟩
  have hprojected : ∃ nodes, projectedNodes str (projectedRows db.toStore version depth) = .ok nodes ∧
      Describes (copiedStore hash t version repository space headGid depth first)
        (versionCopy t version repository space depth first).members (Included t version depth)
        (copyGid t version depth first) nodes :=
    projectedNodes_copy hkeys hforest hfresh hversions _ (congrArg Store.nodeRevisions hdb)
  obtain ⟨nodes, hnodes, hdescribes⟩ := hprojected
  refine ⟨⟨s'.repositoryGid, plan.sourceVersionGid, v.manifestHash, run.gid, nodes⟩, ?_, hdescribes⟩
  unfold getProjection
  simp only [hrun, hplan, hv, hs', Option.bind_eq_bind, Option.bind_some, and_self, if_true]
  rw [hversion, hdepth, hnodes]
  rfl

end

/-! ## When a copy is faithful -/

section

variable {t : Store} {version headGid first : Gid} {depth : ForkDepth} {head : SpaceHead}

/-- The keys of the copied groups and their members differ exactly if the depth suits the groups. -/
theorem unique_copy {repository space : Gid} :
    (versionCopy t version repository space depth first).Unique ↔
      (((sourceGroups t version).map SourceGroup.boundaryNodeGid).filter
        (fun node => decide (Included t version depth node))).Nodup ∧
      ∀ g ∈ sourceGroups t version, Included t version depth g.boundaryNodeGid →
        (g.version.members.map
          (fun m => (keptScope (Included t version depth) g m, m.orderKey))).Nodup := by
  unfold VersionCopy.Unique
  rw [boundaries_copy]
  refine and_congr_right fun _ => ?_
  constructor
  · intro h g hg hboundary
    have hin : (g, copyGid t version depth first g.boundaryNodeGid) ∈ (sourceGroups t version).filterMap
        (fun row => (mapped (takenMap t version depth first) row.boundaryNodeGid).map (row, ·)) := by
      refine List.mem_filterMap.mpr ⟨g, hg, ?_⟩
      rw [mapped_of_included hboundary, Option.map_some]
    obtain ⟨e, he, heq⟩ := exists_mem_zipIdx hin (first + 2 * (takenNodes t version depth first).length
      + 2 * (takenBindings t version depth first).length)
    have hsiblings := (siblings_copy he _).mp (h _ (List.mem_map.mpr ⟨e, he, rfl⟩))
    rwa [heq] at hsiblings
  · intro h v hv
    obtain ⟨e, he, rfl⟩ := List.mem_map.mp hv
    obtain ⟨hg, hboundary⟩ := mapped_of_group he
    exact (siblings_copy he _).mpr (h _ hg (included_of_mapped hboundary).1)

variable (hash str : Json → Str) in
/-- **A version is copied faithfully** into the empty head of a new space exactly if the depth
suits it. -/
theorem copy_faithful_iff (repository : Gid) (hsource : (t.versionRepository? version).isSome)
    (hkeys : ((t.versionMembers version).map Member.key).Nodup)
    (hforest : NodeForest t (t.versionMembers version)) (hfresh : Unissued t first)
    (hhead : t.heads.find? (·.gid == headGid) = some head) (hempty : head.members = []) :
    (∃ t' copy head',
      copyVersion hash t version repository head.spaceGid headGid depth first = .ok (t', copy) ∧
      t'.heads.find? (·.gid == headGid) = some head' ∧
      FaithfulCopy str t t' version depth head'.members) ↔ Copyable t version depth := by
  let c := versionCopy t version repository head.spaceGid depth first
  let write : SpaceHead → SpaceHead := fun h => { h with
    members := h.members ++ c.members
    contentHash := membersHash hash (c.members.map Member.ref) }
  have hwritten : (copiedStore hash t version repository head.spaceGid headGid depth first).heads.find?
      (·.gid == headGid) = some { head with
        members := c.members
        contentHash := membersHash hash (c.members.map Member.ref) } := by
    have hupdate : (Rows.update (·.gid == headGid) write t.heads).find? (·.gid == headGid)
        = (t.heads.find? (·.gid == headGid)).map (fun h => if h.gid == headGid then write h else h) :=
      Rows.find?_update fun _ _ => rfl
    refine hupdate.trans ?_
    rw [hhead, Option.map_some, if_pos (List.find?_some hhead)]
    simp only [write, hempty, List.nil_append]
  constructor
  · rintro ⟨t', copy, head', hcopy, hhead', original, hnodes, hforest', -⟩
    obtain ⟨-, rfl, hunique, rfl⟩ := CraftWorld.copyVersion_eq_ok.mp hcopy
    obtain rfl := Option.some.inj (hwritten.symm.trans hhead')
    obtain ⟨hboundaries, hsiblings⟩ := unique_copy.mp hunique
    refine ⟨fun node parent ancestor hnode hparent hleft hchain hancestor => ?_, hboundaries,
      hsiblings⟩
    -- the copy has a parent, which is the copy of the only parent
    obtain ⟨x, hx⟩ := hnodes.roots node ancestor hnode hancestor hchain
    obtain ⟨p, hp, rfl⟩ := (hnodes.onto x).mp (hforest'.parents _ _ hx)
    obtain ⟨m, hm, -, hparent'⟩ := (hnodes.parents node p hnode hp).mp hx
    obtain ⟨m', hm', -, hparent⟩ := hparent
    obtain rfl := Option.some.inj (hm.symm.trans hm')
    obtain rfl := Option.some.inj (hparent.symm.trans hparent')
    exact hleft hp
  · rintro ⟨hparents, hboundaries, hsiblings⟩
    refine ⟨_, _, _, CraftWorld.copyVersion_eq_ok.mpr
      ⟨hsource, rfl, unique_copy.mpr ⟨hboundaries, hsiblings⟩, rfl⟩, hwritten, ?_⟩
    refine ⟨copyGid t version depth first, nodeCopy_copy hkeys hforest hfresh hparents,
      nodeForest_copy hkeys hforest hfresh, ?_, ?_, ?_⟩
    · exact fun binding node => source_copy hkeys hforest hfresh
    · exact fun m hm => groupCopy_copy hkeys hforest hfresh hsiblings hm
    · intro db run plan hdb hrun hplan hversion hdepth
      exact getProjection_copy hkeys hforest hfresh hsource hdb hrun hplan hversion hdepth

theorem included_all (hkeys : ((t.versionMembers version).map Member.key).Nodup)
    (hforest : NodeForest t (t.versionMembers version)) {node : Gid}
    (h : Live (t.versionMembers version) node) : Included t version .all node := by
  obtain ⟨row, hrow⟩ := (live_iff_nodeRow hforest.recorded).mp h
  obtain ⟨m, hm, hsource, rfl⟩ := (nodeRow?_eq_some hkeys).mp hrow
  refine List.mem_map.mpr ⟨row, List.mem_filter.mpr ⟨mem_sourceNodes.mpr ⟨m, hm, hsource⟩, ?_⟩, rfl⟩
  exact decide_eq_true (level_le _)

theorem nodeForest_of_rank {members : List Member} (rank : Gid → Nat)
    (hrecorded : ∀ m ∈ members, m.kind = .node → m.isTombstone = false →
      (sourceNode? t m).any (fun row => row.properties == .obj []) = true)
    (hparents : ∀ m ∈ members, m.kind = .node → m.isTombstone = false → ∀ parent ∈ nodeParent t m,
      Live members parent ∧ rank parent < rank m.logicalGid) : NodeForest t members := by
  refine ⟨fun m hm hkind hlive => ?_, fun _ _ h => (parent_of_rank hparents h).1,
    acyclic_of_measure rank fun _ _ h => (parent_of_rank hparents h).2⟩
  obtain ⟨row, hrow, hprops⟩ := (Option.any_eq_true _ _).mp (hrecorded m hm hkind hlive)
  exact ⟨row, hrow, [], eq_of_beq hprops⟩

end

/-! ## Scopes and parents that are left out -/

def roleNode (gid revision parent : Gid) (nodeType : String) : NodeRevision :=
  ⟨revision, gid, if parent = 0 then none else some parent, nodeType.toList, "1".toList, .obj [],
    [], .arr []⟩

def nodeMember (gid revision : Gid) : Member :=
  { kind := .node, logicalGid := gid, nodeRevisionGid := some revision }

/-- Version 30 is a line with a station and two roles, and a group of the line with one member in
the scope of each role. Version 31 is a line with a station under a node of another type. -/
def plantStore : Store where
  spaces := [⟨2, 1, 90, .team, none, none, false⟩, ⟨40, 39, 90, .team, none, none, false⟩]
  heads := [⟨41, 40, 90, 1, [], []⟩]
  versions :=
    [⟨30, 2, 90, "saved".toList, .arr [], .arr [], [], [nodeMember 4 5, nodeMember 6 7,
        nodeMember 8 9, nodeMember 10 11,
        { kind := .vpps, logicalGid := 20, vppsGroupVersionGid := some 21 }]⟩,
      ⟨31, 2, 90, "saved".toList, .arr [], .arr [], "b".toList, [nodeMember 4 5, nodeMember 12 13,
        nodeMember 14 15]⟩]
  nodes := [4, 6, 8, 10, 12, 14].map (fun gid => ⟨gid, 1, gid, none⟩)
  nodeRevisions := [roleNode 4 5 0 "line", roleNode 6 7 4 "station", roleNode 8 9 6 "role",
    roleNode 10 11 6 "role", roleNode 12 13 4 "zone", roleNode 14 15 12 "station"]
  vppsGroups := [⟨20, 2, 4, 20, none, some 21, some 21⟩]
  vppsGroupVersions := [⟨21, 20, "reference".toList, none, 22, [], .arr [],
    [⟨70, 8, "operation".toList, "1".toList, some 8, none⟩,
      ⟨71, 10, "operation".toList, "1".toList, some 10, none⟩]⟩]

theorem plantStore_forest : NodeForest plantStore (plantStore.versionMembers 30) ∧
      NodeForest plantStore (plantStore.versionMembers 31) :=
  ⟨nodeForest_of_rank id (by decide) (by decide), nodeForest_of_rank id (by decide) (by decide)⟩

theorem plantStore_unissued : Unissued plantStore 50 := by
  constructor <;> decide

/-- A fork down to the stations puts the members of both roles' scopes into one scope, where their
order keys clash, and fails. A station under a left-out node becomes a root next to the line that
it descends from. -/
theorem shallow_copy_unfaithful :
    NodeForest plantStore (plantStore.versionMembers 30) ∧
    (∀ v ∈ plantStore.vppsGroupVersions, v.siblings.Nodup) ∧
    (copyVersion (fun _ => []) plantStore 30 39 40 41 .station 50).map Prod.snd
      = .error .duplicateKey ∧
    NodeForest plantStore (plantStore.versionMembers 31) ∧
    ((plantStore.nodeRevision? 15).bind NodeRevision.parentNodeGid = some 12 ∧
      (plantStore.nodeRevision? 13).bind NodeRevision.parentNodeGid = some 4) ∧
    (copyVersion (fun _ => []) plantStore 31 39 40 41 .station 50).map
      (fun r => r.2.nodeRevisions.map (fun r => (r.nodeType, r.parentNodeGid)))
        = .ok [("line".toList, none), ("station".toList, none)] := by
  refine ⟨plantStore_forest.1, by decide, by decide +kernel, plantStore_forest.2, by decide,
    by decide +kernel⟩

theorem copy_faithful_deepest :
    ∃ t' copy head', copyVersion (fun _ => []) plantStore 30 39 40 41 .all 50 = .ok (t', copy) ∧
      t'.heads.find? (·.gid == 41) = some head' ∧
      FaithfulCopy (fun _ => []) plantStore t' 30 .all head'.members := by
  have hkeys : ((plantStore.versionMembers 30).map Member.key).Nodup := by decide
  have hhead : plantStore.heads.find? (·.gid == 41) = some ⟨41, 40, 90, 1, [], []⟩ := by decide
  refine (copy_faithful_iff (fun _ => []) (fun _ => []) 39 (by decide) hkeys plantStore_forest.1
    plantStore_unissued hhead rfl).mpr
    ⟨fun node parent ancestor _ hparent hleft => ?_, by decide +kernel, by decide +kernel⟩
  exact absurd (included_all hkeys plantStore_forest.1
    (plantStore_forest.1.parents node parent hparent)) hleft

end Ai00.Craft
