import Ai00.Craft.Spaces

/-! # Forks of a version

A fork fills the head of a new space from a version, down to a depth. Inside the repository of
the version the space shares its logical gids (`reuseVersion`); into another repository nodes,
bindings and VPPS groups are copied under fresh gids and what refers to a node is remapped
(`copyVersion`). Which nodes are taken is read off a table of node types.
-/

namespace Ai00.Craft

inductive ForkError where
  | forkPreviewExpired
  | forkPlanChanged
  | idempotencyConflict
  | targetRepositoryExists
  | managedPersonalSpaceExists
  | spaceVersionNotFound
  /-- A unique key of a table; the transaction is rolled back. -/
  | duplicateKey
  deriving DecidableEq

/-- `DEPTHS`. -/
inductive ForkDepth where
  | station
  | role
  | process
  | operation
  | all
  deriving DecidableEq

def ForkDepth.maxLevel : ForkDepth → Nat
  | .station => 1
  | .role => 2
  | .process => 3
  | .operation => 4
  | .all => 99

def level (nodeType : Str) : Nat :=
  if nodeType = "line".toList ∨ nodeType = "line_process".toList then 0
  else if nodeType = "station".toList ∨ nodeType = "station_process".toList then 1
  else if nodeType = "role".toList ∨ nodeType = "operator_process".toList then 2
  else if nodeType = "process".toList then 3
  else if nodeType = "operation".toList then 4
  else 99

theorem level_le (nodeType : Str) : level nodeType ≤ 99 := by
  unfold level
  split_ifs <;> decide

/-! ## Rows of a version -/

/-- A live node of a version with its revision. -/
structure SourceNode where
  logicalGid : Gid
  lineageGid : Gid
  parentNodeGid : Option Gid
  nodeType : Str
  orderKey : Str
  properties : Json
  contentHash : Str
  evidenceRefs : Json

/-- `ORDER BY r.node_type,r.order_key,m.logical_gid`. -/
def SourceNode.before (a b : SourceNode) : Bool :=
  decide (a.nodeType < b.nodeType) || (a.nodeType == b.nodeType &&
    (decide (a.orderKey < b.orderKey) ||
      (a.orderKey == b.orderKey && decide (a.logicalGid ≤ b.logicalGid))))

def sourceNode? (t : Store) (m : Member) : Option SourceNode :=
  if m.kind = .node ∧ m.isTombstone = false then do
    let n ← t.node? m.logicalGid
    let r ← m.nodeRevisionGid.bind t.nodeRevision?
    some ⟨m.logicalGid, n.lineageGid, r.parentNodeGid, r.nodeType, r.orderKey, r.properties,
      r.contentHash, r.evidenceRefs⟩
  else none

def sourceNodes (t : Store) (versionGid : Gid) : List SourceNode :=
  ((t.versionMembers versionGid).filterMap (sourceNode? t)).insertionSort
    (fun a b => a.before b = true)

def includedNodes (depth : ForkDepth) (rows : List SourceNode) : List SourceNode :=
  rows.filter (fun row => decide (level row.nodeType ≤ depth.maxLevel))

/-- A live binding of a version with its revision. -/
structure SourceBinding where
  logicalGid : Gid
  lineageGid : Gid
  sourceNodeGid : Gid
  targetRefKind : Str
  targetRefGid : Gid
  bindingRole : Str
  properties : Json
  contentHash : Str
  evidenceRefs : Json

def sourceBinding? (t : Store) (m : Member) : Option SourceBinding :=
  if m.kind = .binding ∧ m.isTombstone = false then do
    let b ← t.binding? m.logicalGid
    let r ← m.bindingRevisionGid.bind t.bindingRevision?
    some ⟨m.logicalGid, b.lineageGid, r.sourceNodeGid, r.targetRefKind, r.targetRefGid,
      r.bindingRole, r.properties, r.contentHash, r.evidenceRefs⟩
  else none

def sourceBindings (t : Store) (versionGid : Gid) : List SourceBinding :=
  ((t.versionMembers versionGid).filterMap (sourceBinding? t)).insertionSort
    (fun a b => a.logicalGid ≤ b.logicalGid)

/-- A live VPPS group of a version with the version of it. -/
structure SourceGroup where
  logicalGid : Gid
  boundaryNodeGid : Gid
  groupLineageGid : Gid
  version : VppsGroupVersion

def sourceGroup? (t : Store) (m : Member) : Option SourceGroup :=
  if m.kind = .vpps ∧ m.isTombstone = false then do
    let g ← t.vppsGroup? m.logicalGid
    let v ← m.vppsGroupVersionGid.bind t.vppsGroupVersion?
    some ⟨m.logicalGid, g.boundaryNodeGid, g.groupLineageGid, v⟩
  else none

def sourceGroups (t : Store) (versionGid : Gid) : List SourceGroup :=
  ((t.versionMembers versionGid).filterMap (sourceGroup? t)).insertionSort
    (fun a b => a.logicalGid ≤ b.logicalGid)

/-! ## Copying -/

/-- `x or y` for a gid. -/
def orGid (x y : Gid) : Gid := if x = 0 then y else x

/-- `node_map`: the included nodes and their new gids. -/
def nodeMap (included : List SourceNode) (first : Gid) : List (Gid × Gid) :=
  (included.zipIdx first).map (fun e => (e.1.logicalGid, e.2))

/-- `node_map.get`. -/
def mapped (map : List (Gid × Gid)) (gid : Gid) : Option Gid :=
  (map.find? (·.1 == gid)).map Prod.snd

/-- The row of `nodes` for a copy. -/
def copiedNode (repositoryGid : Gid) (e : SourceNode × Gid) : Node :=
  ⟨e.2, repositoryGid, orGid e.1.lineageGid e.1.logicalGid, some e.1.logicalGid⟩

/-- The row of `node_revisions` for a copy; `shift` leads from a node's gid to its revision's. -/
def copiedRevision (map : List (Gid × Gid)) (shift : Nat) (e : SourceNode × Gid) : NodeRevision :=
  ⟨e.2 + shift, e.2, e.1.parentNodeGid.bind (mapped map), e.1.nodeType, e.1.orderKey,
    e.1.properties, e.1.contentHash, e.1.evidenceRefs⟩

def copiedMember (shift : Nat) (e : SourceNode × Gid) : Member :=
  { kind := .node, logicalGid := e.2, nodeRevisionGid := some (e.2 + shift) }

/-- A binding whose source node is copied, with its source's copy and its own new gid. -/
def copiedBindings (map : List (Gid × Gid)) (rows : List SourceBinding) (first : Gid) :
    List ((SourceBinding × Gid) × Gid) :=
  (rows.filterMap (fun row => (mapped map row.sourceNodeGid).map (row, ·))).zipIdx first

def copiedBinding (repositoryGid : Gid) (e : (SourceBinding × Gid) × Gid) : Binding :=
  ⟨e.2, repositoryGid, orGid e.1.1.lineageGid e.1.1.logicalGid, some e.1.1.logicalGid⟩

def copiedBindingRevision (shift : Nat) (e : (SourceBinding × Gid) × Gid) : BindingRevision :=
  ⟨e.2 + shift, e.2, e.1.2, e.1.1.targetRefKind, e.1.1.targetRefGid, e.1.1.bindingRole,
    e.1.1.properties, e.1.1.contentHash, e.1.1.evidenceRefs⟩

def copiedBindingMember (shift : Nat) (e : (SourceBinding × Gid) × Gid) : Member :=
  { kind := .binding, logicalGid := e.2, bindingRevisionGid := some (e.2 + shift) }

/-- A group whose boundary is copied, with its boundary's copy and its own new gid. -/
def copiedGroups (map : List (Gid × Gid)) (rows : List SourceGroup) (first : Gid) :
    List ((SourceGroup × Gid) × Gid) :=
  (rows.filterMap (fun row => (mapped map row.boundaryNodeGid).map (row, ·))).zipIdx first

/-- `root`. -/
def copiedRoot (map : List (Gid × Gid)) (row : SourceGroup) (boundary : Gid) : Gid :=
  (mapped map row.version.rootScopeGid).getD boundary

/-- The copy of a member's scope; a scope that is left out becomes the root. -/
def copiedScope (map : List (Gid × Gid)) (root : Gid) (member : VppsGroupMember) : Gid :=
  (mapped map member.parentScopeGid).getD root

def copiedGroupMember (map : List (Gid × Gid)) (root : Gid) (member : VppsGroupMember) :
    VppsGroupMember :=
  { member with
    parentScopeGid := copiedScope map root member
    sourceBopNodeGid := member.sourceBopNodeGid.bind (mapped map) }

def copiedGroup (spaceGid : Gid) (shift : Nat) (e : (SourceGroup × Gid) × Gid) : VppsGroup :=
  ⟨e.2, spaceGid, e.1.2, orGid e.1.1.groupLineageGid e.1.1.logicalGid, some e.1.1.logicalGid,
    some (e.2 + shift), some (e.2 + shift)⟩

def copiedGroupVersion (map : List (Gid × Gid)) (shift : Nat) (e : (SourceGroup × Gid) × Gid) :
    VppsGroupVersion :=
  let root := copiedRoot map e.1.1 e.1.2
  ⟨e.2 + shift, e.2, "reference".toList, some e.1.1.version.gid, root, e.1.1.version.contentHash,
    e.1.1.version.evidenceRefs, e.1.1.version.members.map (copiedGroupMember map root)⟩

def copiedGroupHeadMember (shift : Nat) (e : (SourceGroup × Gid) × Gid) : Member :=
  { kind := .vpps, logicalGid := e.2, vppsGroupVersionGid := some (e.2 + shift) }

/-- `uq_craft_bop_vpps_sibling_order`: the scopes and order keys of the members. -/
def VppsGroupVersion.siblings (v : VppsGroupVersion) : List (Gid × Str) :=
  v.members.map (fun m => (m.parentScopeGid, m.orderKey))

/-- The text that is hashed for the members of a head: kind, logical gid and revision. -/
def memberRef (kind : MemberKind) (logicalGid : Gid) (revision : Option Gid) : Json :=
  .arr [.str kind.text, gidJson logicalGid, .str ((revision.map gidText).getD [])]

def membersHash (hash : Json → Str) (refs : List Json) : Str :=
  hash (.obj [("members".toList, .arr refs)])

/-- `node_revision_gid or binding_revision_gid or vpps_group_version_gid or ""`. -/
def Member.revision (m : Member) : Option Gid :=
  let some? := fun gid : Option Gid => gid.filter (fun g => decide (g ≠ 0))
  (some? m.nodeRevisionGid).or ((some? m.bindingRevisionGid).or (some? m.vppsGroupVersionGid))

def Member.ref (m : Member) : Json := memberRef m.kind m.logicalGid m.revision

/-- What a copy consists of. -/
structure VersionCopy where
  nodes : List Node
  nodeRevisions : List NodeRevision
  bindings : List Binding
  bindingRevisions : List BindingRevision
  groups : List VppsGroup
  groupVersions : List VppsGroupVersion
  members : List Member
  deriving DecidableEq

/-- The rows of a copy; its gids are numbered from `first` on. -/
def versionCopy (t : Store) (sourceVersionGid repositoryGid spaceGid : Gid) (depth : ForkDepth)
    (first : Gid) : VersionCopy :=
  let included := includedNodes depth (sourceNodes t sourceVersionGid)
  let nodes := included.zipIdx first
  let map := nodeMap included first
  let bindings :=
    if depth = .all then copiedBindings map (sourceBindings t sourceVersionGid)
      (first + 2 * nodes.length)
    else []
  let groups := copiedGroups map (sourceGroups t sourceVersionGid)
    (first + 2 * nodes.length + 2 * bindings.length)
  { nodes := nodes.map (copiedNode repositoryGid)
    nodeRevisions := nodes.map (copiedRevision map nodes.length)
    bindings := bindings.map (copiedBinding repositoryGid)
    bindingRevisions := bindings.map (copiedBindingRevision bindings.length)
    groups := groups.map (copiedGroup spaceGid groups.length)
    groupVersions := groups.map (copiedGroupVersion map groups.length)
    members := nodes.map (copiedMember nodes.length) ++
      bindings.map (copiedBindingMember bindings.length) ++
      groups.map (copiedGroupHeadMember groups.length) }

def VersionCopy.gids (c : VersionCopy) : Nat :=
  2 * c.nodes.length + 2 * c.bindings.length + 2 * c.groups.length

/-- The unique keys that a copy can violate: one group for a boundary in a space, and one member
of a group version for a scope and order key. -/
def VersionCopy.Unique (c : VersionCopy) : Prop :=
  (c.groups.map (·.boundaryNodeGid)).Nodup ∧ ∀ v ∈ c.groupVersions, v.siblings.Nodup

instance (c : VersionCopy) : Decidable c.Unique := by
  unfold VersionCopy.Unique
  infer_instance

def Store.insertCopy (hash : Json → Str) (t : Store) (spaceHeadGid : Gid) (c : VersionCopy) :
    Store :=
  { t with
    nodes := t.nodes ++ c.nodes
    nodeRevisions := t.nodeRevisions ++ c.nodeRevisions
    bindings := t.bindings ++ c.bindings
    bindingRevisions := t.bindingRevisions ++ c.bindingRevisions
    vppsGroups := t.vppsGroups ++ c.groups
    vppsGroupVersions := t.vppsGroupVersions ++ c.groupVersions
    heads := Rows.update (·.gid == spaceHeadGid) (fun h => { h with
      members := h.members ++ c.members
      contentHash := membersHash hash (c.members.map Member.ref) }) t.heads }

/-- `_copy_version` into the head of a new space. -/
def copyVersion (hash : Json → Str) (t : Store) (sourceVersionGid repositoryGid spaceGid
    spaceHeadGid : Gid) (depth : ForkDepth) (first : Gid) :
    Except ForkError (Store × VersionCopy) :=
  match t.versionRepository? sourceVersionGid with
  | none => .error .spaceVersionNotFound
  | some _ =>
    let c := versionCopy t sourceVersionGid repositoryGid spaceGid depth first
    if c.Unique then .ok (t.insertCopy hash spaceHeadGid c, c) else .error .duplicateKey

/-! ## Reusing -/

/-- `include`. -/
def reuses (t : Store) (depth : ForkDepth) (m : Member) : Bool :=
  match m.kind with
  | .node => !m.isTombstone && decide (level
      (((m.nodeRevisionGid.bind t.nodeRevision?).map NodeRevision.nodeType).getD "None".toList)
        ≤ depth.maxLevel)
  | .binding => depth == .all
  | .vpps => true

/-- `ORDER BY m.member_kind,m.logical_gid`. -/
def Member.before (a b : Member) : Bool :=
  decide (a.kind.text < b.kind.text) || (a.kind == b.kind && decide (a.logicalGid ≤ b.logicalGid))

/-- The members a fork inside the repository takes. -/
def reusedMembers (t : Store) (sourceVersionGid : Gid) (depth : ForkDepth) : List Member :=
  ((t.versionMembers sourceVersionGid).insertionSort (fun a b => a.before b = true)).filter
    (reuses t depth)

/-- `_reuse_version`; `none` where the version belongs to another repository. -/
def reuseVersion (hash : Json → Str) (t : Store) (sourceVersionGid repositoryGid tenantGid
    spaceHeadGid : Gid) (depth : ForkDepth) : Except ForkError (Option (Store × List Member)) :=
  let inTenant := t.versions.any (fun v => v.gid == sourceVersionGid && v.tenantGid == tenantGid)
  match t.versionRepository? sourceVersionGid with
  | none => .error .spaceVersionNotFound
  | some source =>
    if inTenant = false then .error .spaceVersionNotFound
    else if source ≠ repositoryGid then .ok none
    else
      let members := reusedMembers t sourceVersionGid depth
      .ok (some ({ t with heads := Rows.update (·.gid == spaceHeadGid) (fun h => { h with
        members := h.members ++ members
        contentHash := membersHash hash (members.map Member.ref) }) t.heads }, members))

end Ai00.Craft
