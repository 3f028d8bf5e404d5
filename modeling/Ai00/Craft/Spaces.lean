import Ai00.Basic.KeyedRows
import Ai00.Basic.Rows
import Ai00.Json.Text

/-! # Repositories, spaces and their members

A BOP repository has one team space and managed personal spaces. A space has a moving head and
immutable saved versions; head and version each hold members, at most one for each kind and
logical gid, and a member names an immutable revision of its node, binding or VPPS group, or is a
tombstone. Node revisions name their parent node, binding revisions their source node.

Rows that hang off one row of another table are kept with it: the members of a head or a version
with the head or version, the units of a proposal with the proposal.
-/

namespace Ai00.Craft

/-- The numbers `next_gid` gives out. -/
abbrev Gid := Nat

def gidText (gid : Gid) : Str := Nat.toDigits 10 gid

def gidJson (gid : Gid) : Json := .str (gidText gid)

def optJson {α : Type} (f : α → Json) : Option α → Json
  | none => .null
  | some a => f a

/-! ## Members -/

inductive MemberKind where
  | node
  | binding
  | vpps
  deriving DecidableEq

def MemberKind.text : MemberKind → Str
  | .node => "node".toList
  | .binding => "binding".toList
  | .vpps => "vpps".toList

structure MemberKey where
  kind : MemberKind
  logicalGid : Gid
  deriving DecidableEq

/-- The order of the tuples `(member_kind, str(logical_gid))`. -/
def MemberKey.before (a b : MemberKey) : Bool :=
  decide (a.kind.text < b.kind.text) ||
    (a.kind == b.kind && decide (gidText a.logicalGid ≤ gidText b.logicalGid))

/-- The columns of a row of `space_head_members` or `space_version_members` that are read. -/
structure Member where
  kind : MemberKind
  logicalGid : Gid
  nodeRevisionGid : Option Gid := none
  bindingRevisionGid : Option Gid := none
  vppsGroupVersionGid : Option Gid := none
  isTombstone : Bool := false
  deriving DecidableEq

def Member.key (m : Member) : MemberKey := ⟨m.kind, m.logicalGid⟩

/-- What is written where a member is taken away. -/
def tombstone (key : MemberKey) : Member :=
  { kind := key.kind, logicalGid := key.logicalGid, isTombstone := true }

/-- A row as a dictionary, its keys sorted. -/
def Member.json (m : Member) : Json :=
  let gid := optJson (fun g : Gid => Json.int g)
  .obj [("binding_revision_gid".toList, gid m.bindingRevisionGid),
    ("is_tombstone".toList, .int (if m.isTombstone then 1 else 0)),
    ("logical_gid".toList, .int m.logicalGid),
    ("member_kind".toList, .str m.kind.text),
    ("node_revision_gid".toList, gid m.nodeRevisionGid),
    ("vpps_group_version_gid".toList, gid m.vppsGroupVersionGid)]

def member? (key : MemberKey) (members : List Member) : Option Member :=
  KeyedRows.lookup Member.key key members

/-- `INSERT … ON DUPLICATE KEY UPDATE`. -/
def setMember (m : Member) (members : List Member) : List Member :=
  KeyedRows.upsert Member.key m members

/-- Writes members one after another. -/
def setMembers (more members : List Member) : List Member :=
  KeyedRows.upsertAll Member.key more members

@[simp] theorem tombstone_key (key : MemberKey) : (tombstone key).key = key := rfl

theorem member?_setMember (m : Member) (key : MemberKey) (members : List Member) :
    member? key (setMember m members) = if m.key = key then some m else member? key members :=
  KeyedRows.lookup_upsert

/-- The last value written under a key stays. -/
theorem member?_setMembers (more members : List Member) (key : MemberKey) :
    member? key (setMembers more members) = (member? key more.reverse).or (member? key members) :=
  KeyedRows.lookup_upsertAll

variable {members : List Member} {key : MemberKey}

theorem member?_key {m : Member}
    (h : member? key members = some m) : m.key = key := KeyedRows.key_of_lookup h

theorem mem_of_member? {m : Member}
    (h : member? key members = some m) : m ∈ members := KeyedRows.mem_of_lookup h

/-- `sorted(set(...))` of the keys of some rows. -/
def sortedKeys (members : List Member) : List MemberKey :=
  (members.map Member.key).dedup.insertionSort (fun a b => a.before b = true)

@[simp] theorem mem_sortedKeys :
    key ∈ sortedKeys members ↔ key ∈ members.map Member.key := by
  unfold sortedKeys
  rw [List.mem_insertionSort, List.mem_dedup]

theorem member?_isSome_iff :
    (member? key members).isSome ↔ key ∈ members.map Member.key := by
  constructor
  · intro h
    obtain ⟨m, hm⟩ := Option.isSome_iff_exists.mp h
    exact List.mem_map.mpr ⟨m, mem_of_member? hm, member?_key hm⟩
  · intro h
    rw [← Option.ne_none_iff_isSome]
    intro hnone
    obtain ⟨m, hm, hkey⟩ := List.mem_map.mp h
    exact KeyedRows.lookup_eq_none_iff.mp hnone m hm hkey

/-! ## The tables -/

structure Repository where
  gid : Gid
  tenantGid : Gid
  projectGid : Gid
  deleted : Bool := false

inductive SpaceKind where
  | team
  | managedPersonal
  deriving DecidableEq

structure Space where
  gid : Gid
  repositoryGid : Gid
  tenantGid : Gid
  kind : SpaceKind
  ownerUserGid : Option Gid := none
  forkBaseVersionGid : Option Gid := none
  deleted : Bool := false

structure SpaceHead where
  gid : Gid
  spaceGid : Gid
  tenantGid : Gid
  rowVersion : Nat := 1
  contentHash : Str
  members : List Member := []
  deriving DecidableEq

structure SpaceVersion where
  gid : Gid
  spaceGid : Gid
  tenantGid : Gid
  versionKind : Str
  sourceRefs : Json
  algorithmVersions : Json
  manifestHash : Str
  members : List Member
  deriving DecidableEq

structure Node where
  gid : Gid
  repositoryGid : Gid
  lineageGid : Gid
  derivedFromNodeGid : Option Gid := none
  deriving DecidableEq

structure NodeRevision where
  gid : Gid
  nodeGid : Gid
  parentNodeGid : Option Gid
  nodeType : Str
  orderKey : Str
  properties : Json
  contentHash : Str
  evidenceRefs : Json
  deriving DecidableEq

structure Binding where
  gid : Gid
  repositoryGid : Gid
  lineageGid : Gid
  derivedFromBindingGid : Option Gid := none
  deriving DecidableEq

structure BindingRevision where
  gid : Gid
  bindingGid : Gid
  sourceNodeGid : Gid
  targetRefKind : Str
  targetRefGid : Gid
  bindingRole : Str
  properties : Json
  contentHash : Str
  evidenceRefs : Json
  deriving DecidableEq

structure VppsGroup where
  gid : Gid
  spaceGid : Gid
  boundaryNodeGid : Gid
  groupLineageGid : Gid
  derivedFromGroupGid : Option Gid := none
  referenceGroupVersionGid : Option Gid := none
  currentGroupVersionGid : Option Gid := none
  deriving DecidableEq

structure VppsGroupMember where
  vppsGid : Gid
  parentScopeGid : Gid
  nodeLevel : Str
  orderKey : Str
  sourceBopNodeGid : Option Gid
  sourceNodeLineageGid : Option Gid
  deriving DecidableEq

structure VppsGroupVersion where
  gid : Gid
  targetGroupGid : Gid
  versionKind : Str
  referenceVersionGid : Option Gid
  rootScopeGid : Gid
  contentHash : Str
  evidenceRefs : Json
  members : List VppsGroupMember
  deriving DecidableEq

structure Store where
  repositories : List Repository := []
  spaces : List Space := []
  heads : List SpaceHead := []
  versions : List SpaceVersion := []
  nodes : List Node := []
  nodeRevisions : List NodeRevision := []
  bindings : List Binding := []
  bindingRevisions : List BindingRevision := []
  vppsGroups : List VppsGroup := []
  vppsGroupVersions : List VppsGroupVersion := []

namespace Store

def teamHead? (t : Store) (repositoryGid : Gid) : Option SpaceHead := do
  let space ← t.spaces.find? (fun s =>
    s.repositoryGid == repositoryGid && s.kind == .team && !s.deleted)
  t.heads.find? (·.spaceGid == space.gid)

def versionMembers (t : Store) (versionGid : Gid) : List Member :=
  match t.versions.find? (·.gid == versionGid) with
  | none => []
  | some version => version.members

def nodeRevision? (t : Store) (gid : Gid) : Option NodeRevision :=
  t.nodeRevisions.find? (·.gid == gid)

def bindingRevision? (t : Store) (gid : Gid) : Option BindingRevision :=
  t.bindingRevisions.find? (·.gid == gid)

def node? (t : Store) (gid : Gid) : Option Node := t.nodes.find? (·.gid == gid)

def binding? (t : Store) (gid : Gid) : Option Binding := t.bindings.find? (·.gid == gid)

def vppsGroup? (t : Store) (gid : Gid) : Option VppsGroup := t.vppsGroups.find? (·.gid == gid)

def vppsGroupVersion? (t : Store) (gid : Gid) : Option VppsGroupVersion :=
  t.vppsGroupVersions.find? (·.gid == gid)

def head? (t : Store) (spaceGid : Gid) : Option SpaceHead :=
  t.heads.find? (·.spaceGid == spaceGid)

def versionRepository? (t : Store) (versionGid : Gid) : Option Gid := do
  let version ← t.versions.find? (·.gid == versionGid)
  let space ← t.spaces.find? (fun s => s.gid == version.spaceGid && !s.deleted)
  some space.repositoryGid

/-- `UPDATE` of one head. -/
def updateHead (t : Store) (gid : Gid) (f : SpaceHead → SpaceHead) : Store :=
  { t with heads := Rows.update (·.gid == gid) f t.heads }

end Store

end Ai00.Craft
