import Ai00.Basic.Checks
import Ai00.Basic.OnePass
import Ai00.Craft.ForkCopy

/-! # Private imports

An import takes the selected units of a private export over into the head of a personal space. The
selection has to be closed: with a node its parent, with a binding its node. The nodes are then imported in
one pass in the manifest's own order, and a parent is looked up among the nodes that the pass has seen. So
the imported members are a copy of the selected part exactly where the manifest lists no selected node
before its parent (`private_import_copies_iff`); a child that comes first is imported as a root.
-/

namespace Ai00.Craft

open OnePass (Ordered number place pass_of_ordered number_injOn find?_numbers)

/-! ## Manifests -/

/-- A node of a manifest; the gids there are decimal numbers. -/
structure ManifestNode where
  nodeGid : Gid
  parentGid : Option Gid := none
  nodeType : Str
  position : Str
  name : Str

structure ManifestBinding where
  bindingGid : Gid
  nodeGid : Gid
  occurrenceGid : Gid
  role : Str

structure ExportManifest where
  nodes : List ManifestNode
  bindings : List ManifestBinding := []

def ManifestNode.source (n : ManifestNode) : ImportSource :=
  .node (gidText n.nodeGid) (n.parentGid.map gidText) n.nodeType n.position n.name

def ManifestBinding.source (b : ManifestBinding) : ImportSource :=
  .binding (gidText b.bindingGid) (gidText b.nodeGid) b.occurrenceGid b.role

def ManifestNode.key (n : ManifestNode) : Str := CraftWorld.nodeKey (gidText n.nodeGid)

def ManifestBinding.key (b : ManifestBinding) : Str := "binding:".toList ++ gidText b.bindingGid

namespace ExportManifest

variable (m : ExportManifest) (selected : List Str)

/-- What the export resolves to. -/
def sources : List ImportSource := m.nodes.map ManifestNode.source ++ m.bindings.map ManifestBinding.source

def units : List ImportUnit := m.sources.map CraftWorld.ImportSource.unit

def selectedNodes : List ManifestNode := m.nodes.filter fun n => decide (n.key ∈ selected)

def selectedBindings : List ManifestBinding := m.bindings.filter fun b => decide (b.key ∈ selected)

/-- One node is the parent of another. -/
def Parent (p n : Gid) : Prop := ∃ node ∈ m.nodes, node.nodeGid = n ∧ node.parentGid = some p

/-- The nodes form a forest, and the bindings name listed nodes. -/
structure Forest : Prop where
  nodeGids : (m.nodes.map ManifestNode.nodeGid).Nodup
  parents : ∀ n ∈ m.nodes, ∀ p ∈ n.parentGid, p ∈ m.nodes.map ManifestNode.nodeGid
  acyclic : ∀ n, ¬ Relation.TransGen m.Parent n n
  bindingGids : (m.bindings.map ManifestBinding.bindingGid).Nodup
  bound : ∀ b ∈ m.bindings, b.nodeGid ∈ m.nodes.map ManifestNode.nodeGid

/-- No selected node is listed before its parent. -/
def ParentsFirst : Prop := Ordered ManifestNode.nodeGid ManifestNode.parentGid (m.selectedNodes selected)

end ExportManifest

/-! ## What a copy is -/

/-- What an imported node shows. -/
def SourceNode.shown (row : SourceNode) : Gid × Option Gid × Str × Str × Json :=
  (row.logicalGid, row.parentNodeGid, row.nodeType, row.orderKey, row.properties)

/-- What an imported binding shows. -/
def SourceBinding.shown (row : SourceBinding) : Gid × Gid × Str × Gid × Str :=
  (row.logicalGid, row.sourceNodeGid, row.targetRefKind, row.targetRefGid, row.bindingRole)

/-- The type, the position and the properties. -/
def ManifestNode.content (n : ManifestNode) : Str × Str × Json :=
  (n.nodeType, n.position, .obj [("name".toList, .str n.name)])

def ManifestNode.copied (copy : Gid → Gid) (n : ManifestNode) : Gid × Option Gid × Str × Str × Json :=
  (copy n.nodeGid, n.parentGid.map copy, n.content)

def ManifestBinding.copied (copy bindingCopy : Gid → Gid) (b : ManifestBinding) : Gid × Gid × Str × Gid × Str :=
  (bindingCopy b.bindingGid, copy b.nodeGid, "simulation_occurrence".toList, b.occurrenceGid, b.role)

/-- Members that are a copy of the selected part of a manifest: for each selected node a node of its own,
under the copy of its parent exactly where it has one, and for each selected binding a binding of its own on
the copy of its node. The order of the manifest plays no part in it. -/
def ExportManifest.Copied (m : ExportManifest) (selected : List Str) (t : Store) (members : List Member) : Prop :=
  ∃ copy bindingCopy : Gid → Gid,
    Set.InjOn copy {g | g ∈ (m.selectedNodes selected).map ManifestNode.nodeGid}
    ∧ Set.InjOn bindingCopy {g | g ∈ (m.selectedBindings selected).map ManifestBinding.bindingGid}
    ∧ ((members.filterMap (sourceNode? t)).map SourceNode.shown).Perm
      ((m.selectedNodes selected).map (ManifestNode.copied copy))
    ∧ ((members.filterMap (sourceBinding? t)).map SourceBinding.shown).Perm
      ((m.selectedBindings selected).map (ManifestBinding.copied copy bindingCopy))
    ∧ members.length = (m.selectedNodes selected).length + (m.selectedBindings selected).length

namespace CraftWorld

/-- Members are added to the head of a space: a copy of the selected part, in whatever order the manifest
lists it. -/
def AddsCopy (w w' : CraftWorld) (m : ExportManifest) (space : Gid) (selected : List Str) : Prop :=
  ∃ head members, w.db.head? space = some head
    ∧ w'.db.head? space
      = some { head with members := head.members ++ members, rowVersion := head.rowVersion + 1 }
    ∧ ∀ listed : ExportManifest, listed.nodes.Perm m.nodes → listed.bindings.Perm m.bindings →
      listed.Copied selected w'.db.toStore members

/-- **What an import does**, from the world before it to the one after. -/
structure Imports (hash : Json → Str) (w w' : CraftWorld) (m : ExportManifest) (preview space : Gid)
    (selected : List Str) : Prop where
  copied : AddsCopy w w' m space selected
  /-- A failed call imports nothing. -/
  atomic : ∀ (v : CraftWorld) (caller : Caller) ref claims repository units expected,
    commits hash v caller (.applyPrivateImport preview ref claims space repository units expected) = none →
      spaceStep hash v (caller, .applyPrivateImport preview ref claims space repository units expected) = v
  /-- Whatever calls follow, no further call imports the preview. -/
  once : ∀ (calls : List (Caller × SpaceCall)) (caller : Caller) ref claims target repository units expected,
    commits hash (spaceRun hash w' calls) caller
      (.applyPrivateImport preview ref claims target repository units expected) = none

end CraftWorld

/-! ## Gids as texts -/

theorem gidText_inj {g h : Gid} (heq : gidText g = gidText h) : g = h := by
  have hvalue := congrArg (Nat.ofDigitChars 10 · 0) heq
  simpa [gidText] using hvalue

theorem gidText_ne_none (g : Gid) : gidText g ≠ CraftWorld.orNone none := by
  intro heq
  have hin : 'N' ∈ gidText g := by
    rw [heq]
    decide
  have hdigit : Char.isDigit 'N' = true := Nat.isDigit_of_mem_toDigits (by decide) (by decide) hin
  exact absurd hdigit (by decide)

namespace CraftWorld

/-! ## What an import writes -/

section

variable (hash : Json → Str) (repository : Gid)

/-- The rows of an imported node, of its number and its parent's. -/
def nodeRow (e : ManifestNode × ℕ × Option ℕ) : Node := ⟨e.2.1, repository, e.2.1, none⟩

def nodeRevisionRow (e : ManifestNode × ℕ × Option ℕ) : NodeRevision :=
  let properties : Json := .obj [("name".toList, .str e.1.name)]
  let content := hash (.obj [("order".toList, .str e.1.position),
    ("parent".toList, optJson Json.str (e.1.parentGid.map gidText)), ("properties".toList, properties),
    ("type".toList, .str e.1.nodeType)])
  ⟨e.2.1 + 1, e.2.1, e.2.2, e.1.nodeType, e.1.position, properties, content, .arr []⟩

def nodeMember (e : ManifestNode × ℕ × Option ℕ) : Member :=
  { kind := .node, logicalGid := e.2.1, nodeRevisionGid := some (e.2.1 + 1) }

/-- The rows of an imported binding, of its number and its node's. -/
def bindingRow (e : ManifestBinding × ℕ × Option ℕ) : Binding := ⟨e.2.1, repository, e.2.1, none⟩

def bindingRevisionRow (node : Gid → Gid) (e : ManifestBinding × ℕ × Option ℕ) : BindingRevision :=
  let content := hash (.obj [("binding_gid".toList, .str (gidText e.1.bindingGid)),
    ("node_gid".toList, .str (gidText e.1.nodeGid)), ("occurrence_gid".toList, gidJson e.1.occurrenceGid),
    ("role".toList, .str e.1.role)])
  ⟨e.2.1 + 1, e.2.1, node e.1.nodeGid, "simulation_occurrence".toList, e.1.occurrenceGid, e.1.role, .obj [],
    content, .arr []⟩

def bindingMember (e : ManifestBinding × ℕ × Option ℕ) : Member :=
  { kind := .binding, logicalGid := e.2.1, bindingRevisionGid := some (e.2.1 + 1) }

/-- `node_map` as texts. -/
def textMap (map : List (Gid × ℕ)) : List (Str × Gid) := map.map fun e => (gidText e.1, e.2)

variable {hash repository}

theorem find?_textMap {i : Imported} {map : List (Gid × ℕ)} (hmap : i.map = textMap map) (g : Gid) :
    i.find? (gidText g) = OnePass.find? map g := by
  have hkeys : ((fun e : Str × Gid => e.1 == gidText g) ∘ fun e : Gid × ℕ => (gidText e.1, e.2))
      = fun e => e.1 == g := by
    funext e
    rw [Function.comp_apply, Bool.eq_iff_iff, beq_iff_eq, beq_iff_eq]
    exact ⟨gidText_inj, congrArg gidText⟩
  rw [Imported.find?, hmap, textMap, List.find?_map, hkeys, Option.map_map]
  rfl

theorem find?_parent {i : Imported} {map : List (Gid × ℕ)} (hmap : i.map = textMap map) (parent : Option Gid) :
    i.find? (orNone (parent.map gidText)) = parent.bind (OnePass.find? map) := by
  cases parent with
  | some g => exact find?_textMap hmap g
  | none =>
    have hnone : i.map.find? (·.1 == orNone none) = none := by
      rw [hmap, List.find?_eq_none]
      rintro e he heq
      obtain ⟨e, -, rfl⟩ := List.mem_map.mp he
      exact gidText_ne_none _ (eq_of_beq heq)
    rw [Option.map_none, Imported.find?, hnone]
    rfl

abbrev nodePass (nodes : List ManifestNode) (map : List (Gid × ℕ)) (first : ℕ) :=
  OnePass.pass ManifestNode.nodeGid ManifestNode.parentGid 2 nodes map first

/-- **The nodes are imported in one pass.** -/
theorem importNodes_eq (nodes : List ManifestNode) (i : Imported) (map : List (Gid × ℕ))
    (hmap : i.map = textMap map) :
    (nodes.map ManifestNode.source).foldl (importNode hash repository) i = { i with
          map := ((nodePass nodes map i.next).map fun e => (gidText e.1.nodeGid, e.2.1)).reverse ++ i.map
          nodes := i.nodes ++ (nodePass nodes map i.next).map (nodeRow repository)
          nodeRevisions := i.nodeRevisions ++ (nodePass nodes map i.next).map (nodeRevisionRow hash)
          members := i.members ++ (nodePass nodes map i.next).map nodeMember
          next := i.next + 2 * nodes.length } := by
  induction nodes generalizing i map with
  | nil => simp [OnePass.pass]
  | cons n nodes ih =>
    have hnext : i.next + 2 + 2 * nodes.length = i.next + 2 * (nodes.length + 1) := by
      rw [Nat.mul_succ, Nat.add_assoc, Nat.add_comm 2]
    have hmap' : (importNode hash repository i n.source).map = textMap ((n.nodeGid, i.next) :: map) := by
      rw [textMap, List.map_cons, ← textMap, ← hmap]
      rfl
    have hparent := find?_parent (i := { i with map := (gidText n.nodeGid, i.next) :: i.map }) hmap' n.parentGid
    rw [List.map_cons, List.foldl_cons, ih _ _ hmap']
    simp only [importNode, ManifestNode.source, hparent, OnePass.pass, List.map_cons, List.reverse_cons,
      List.append_assoc, List.singleton_append, List.length_cons, hnext, nodeRow, nodeRevisionRow, nodeMember]

/-- The bindings are numbered in the same way. -/
abbrev bindingPass (bindings : List ManifestBinding) (map : List (Gid × ℕ)) (first : ℕ) :=
  OnePass.pass ManifestBinding.bindingGid (fun _ => none) 2 bindings map first

/-- **Then the bindings**, each on the copy of its node. -/
theorem importBindings_eq {node : Gid → Gid} (bindings : List ManifestBinding) (i : Imported)
    (map : List (Gid × ℕ)) (hnode : ∀ b ∈ bindings, i.find? (gidText b.nodeGid) = some (node b.nodeGid)) :
    (bindings.map ManifestBinding.source).foldlM (importBinding hash repository) i = .ok { i with
          bindings := i.bindings ++ (bindingPass bindings map i.next).map (bindingRow repository)
          bindingRevisions :=
            i.bindingRevisions ++ (bindingPass bindings map i.next).map (bindingRevisionRow hash node)
          members := i.members ++ (bindingPass bindings map i.next).map bindingMember
          next := i.next + 2 * bindings.length } := by
  induction bindings generalizing i map with
  | nil => simp [OnePass.pass, pure, Except.pure]
  | cons b bindings ih =>
    have hnext : i.next + 2 + 2 * bindings.length = i.next + 2 * (bindings.length + 1) := by
      rw [Nat.mul_succ, Nat.add_assoc, Nat.add_comm 2]
    have hfirst := hnode b List.mem_cons_self
    have hrest : ∀ c ∈ bindings, i.find? (gidText c.nodeGid) = some (node c.nodeGid) :=
      fun c hc => hnode c (List.mem_cons_of_mem _ hc)
    rw [List.map_cons, List.foldlM_cons]
    simp only [importBinding, ManifestBinding.source, hfirst]
    rw [ok_bind]
    refine (ih _ ((b.bindingGid, i.next) :: map) ?_).trans ?_
    · exact hrest
    simp only [OnePass.pass, List.map_cons, List.append_assoc, List.singleton_append, List.length_cons, hnext,
      bindingRow, bindingRevisionRow, bindingMember]

end

end CraftWorld

/-! ## The selection -/

namespace ExportManifest

variable {m : ExportManifest} {selected : List Str}

theorem node_unitKey (n : ManifestNode) : (CraftWorld.ImportSource.unit n.source).unitKey = n.key := rfl

theorem binding_unitKey (b : ManifestBinding) : (CraftWorld.ImportSource.unit b.source).unitKey = b.key := rfl

theorem node_dependencies {n : ManifestNode} {p : Gid} (hp : n.parentGid = some p) :
    (CraftWorld.ImportSource.unit n.source).dependencies = [CraftWorld.nodeKey (gidText p)] := by
  have hne : gidText p ≠ [] := Nat.toDigits_ne_nil
  have hkept : Option.filter (fun s : Str => decide (s ≠ [])) (some (gidText p)) = some (gidText p) :=
    Option.filter_some_pos (decide_eq_true hne)
  unfold ManifestNode.source CraftWorld.ImportSource.unit
  rw [hp, Option.map_some]
  dsimp only
  rw [hkept]
  rfl

theorem mem_units {u : ImportUnit} : u ∈ m.units ↔ (∃ n ∈ m.nodes, CraftWorld.ImportSource.unit n.source = u)
    ∨ ∃ b ∈ m.bindings, CraftWorld.ImportSource.unit b.source = u := by
  simp [units, sources]

theorem selectedSources_units : CraftWorld.selectedSources m.units selected
    = (m.selectedNodes selected).map ManifestNode.source
      ++ (m.selectedBindings selected).map ManifestBinding.source := by
  unfold CraftWorld.selectedSources units sources
  rw [List.map_append, List.filter_append, List.map_append, List.map_map, List.map_map, List.filter_map,
    List.filter_map, List.map_map, List.map_map]
  rfl

theorem nodeKey_inj {n o : ManifestNode} (heq : n.key = o.key) : n.nodeGid = o.nodeGid :=
  gidText_inj (List.append_cancel_left heq)

theorem bindingKey_inj {b c : ManifestBinding} (heq : b.key = c.key) : b.bindingGid = c.bindingGid :=
  gidText_inj (List.append_cancel_left heq)

theorem nodeKey_ne_bindingKey {n : ManifestNode} {b : ManifestBinding} : n.key ≠ b.key := by
  intro heq
  have hhead : some 'n' = some 'b' := congrArg List.head? heq
  exact absurd hhead (by decide)

theorem acyclic_of_lt (h : ∀ n ∈ m.nodes, ∀ p ∈ n.parentGid, p < n.nodeGid) (n : Gid) :
    ¬ Relation.TransGen m.Parent n n := by
  have hone : ∀ {p c : Gid}, m.Parent p c → p < c := by
    rintro p c ⟨node, hnode, rfl, hparent⟩
    exact h node hnode p hparent
  suffices hlt : ∀ {p c : Gid}, Relation.TransGen m.Parent p c → p < c from fun hcycle => (hlt hcycle).false
  intro p c hpath
  induction hpath with
  | single hstep => exact hone hstep
  | tail _ hstep ih => exact ih.trans (hone hstep)

theorem mem_selectedNodes_of_key {g : Gid} (hlisted : g ∈ m.nodes.map ManifestNode.nodeGid)
    (hkey : CraftWorld.nodeKey (gidText g) ∈ selected) : g ∈ (m.selectedNodes selected).map ManifestNode.nodeGid := by
  obtain ⟨n, hn, rfl⟩ := List.mem_map.mp hlisted
  exact List.mem_map_of_mem (List.mem_filter.mpr ⟨hn, decide_eq_true hkey⟩)

variable (hforest : m.Forest) (hclosed : ∀ key ∈ selected, (CraftWorld.unit? m.units key).any fun u =>
  u.dependencies.all (· ∈ selected))
include hclosed

theorem exists_unit {key : Str} (hkey : key ∈ selected) :
    ∃ u ∈ m.units, u.unitKey = key ∧ ∀ dep ∈ u.dependencies, dep ∈ selected := by
  obtain ⟨u, hu, hdeps⟩ := Option.any_eq_true _ _ |>.mp (hclosed key hkey)
  refine ⟨u, List.mem_reverse.mp (List.mem_of_find?_eq_some hu), ?_, ?_⟩
  · have hfound := List.find?_some hu
    exact eq_of_beq hfound
  · exact fun dep hdep => by simpa using List.all_eq_true.mp hdeps dep hdep

include hforest

theorem parent_selected : ∀ n ∈ m.selectedNodes selected, ∀ p ∈ n.parentGid,
    p ∈ (m.selectedNodes selected).map ManifestNode.nodeGid := by
  intro n hn p hp
  obtain ⟨hn, hkey⟩ := List.mem_filter.mp hn
  obtain ⟨u, hu, hsame, hdeps⟩ := exists_unit hclosed (of_decide_eq_true hkey)
  have hunit : u = CraftWorld.ImportSource.unit n.source := by
    rcases mem_units.mp hu with ⟨other, hother, rfl⟩ | ⟨b, -, rfl⟩
    · rw [node_unitKey] at hsame
      rw [List.inj_on_of_nodup_map hforest.nodeGids hother hn (nodeKey_inj hsame)]
    · rw [binding_unitKey] at hsame
      exact absurd hsame.symm nodeKey_ne_bindingKey
  refine mem_selectedNodes_of_key (hforest.parents n hn p hp) (hdeps _ ?_)
  rw [hunit, node_dependencies hp]
  exact List.mem_singleton_self _

theorem bound_selected : ∀ b ∈ m.selectedBindings selected,
    b.nodeGid ∈ (m.selectedNodes selected).map ManifestNode.nodeGid := by
  intro b hb
  obtain ⟨hb, hkey⟩ := List.mem_filter.mp hb
  obtain ⟨u, hu, hsame, hdeps⟩ := exists_unit hclosed (of_decide_eq_true hkey)
  have hunit : u = CraftWorld.ImportSource.unit b.source := by
    rcases mem_units.mp hu with ⟨n, -, rfl⟩ | ⟨other, hother, rfl⟩
    · rw [node_unitKey] at hsame
      exact absurd hsame nodeKey_ne_bindingKey
    · rw [binding_unitKey] at hsame
      rw [List.inj_on_of_nodup_map hforest.bindingGids hother hb (bindingKey_inj hsame)]
  refine mem_selectedNodes_of_key (hforest.bound b hb) (hdeps _ ?_)
  rw [hunit]
  exact List.mem_singleton_self _

end ExportManifest

namespace CraftWorld

/-! ## Reading what was imported -/

section

variable {hash : Json → Str} {repository : Gid} {t : Store} {first : ℕ} {node : Gid → Gid}
  {nodes : List ManifestNode} {bindings : List ManifestBinding}

def addedMembers (nodes : List ManifestNode) (bindings : List ManifestBinding) (first : ℕ) : List Member :=
  (nodePass nodes [] first).map nodeMember
    ++ (bindingPass bindings [] (first + 2 * nodes.length)).map bindingMember

variable (hash repository node nodes bindings first) in
/-- The rows that an import adds to the tables. -/
structure HoldsImport (t t' : Store) : Prop where
  nodeRows : t'.nodes = t.nodes ++ (nodePass nodes [] first).map (nodeRow repository)
  revisionRows : t'.nodeRevisions = t.nodeRevisions ++ (nodePass nodes [] first).map (nodeRevisionRow hash)
  bindingRows : t'.bindings
    = t.bindings ++ (bindingPass bindings [] (first + 2 * nodes.length)).map (bindingRow repository)
  bindingRevisionRows : t'.bindingRevisions = t.bindingRevisions
    ++ (bindingPass bindings [] (first + 2 * nodes.length)).map (bindingRevisionRow hash node)

variable {t' : Store} (hholds : HoldsImport hash repository first node nodes bindings t t')
  (hfresh : Unissued t first)

include hholds hfresh

/-- An imported node is read with its number and its parent's. -/
theorem sourceNode?_nodeMember {e : ManifestNode × ℕ × Option ℕ} (he : e ∈ nodePass nodes [] first) :
    ∃ row, sourceNode? t' (nodeMember e) = some row ∧ row.shown = (e.2.1, e.2.2, e.1.content) := by
  have hnumbers : ((nodePass nodes [] first).map fun e => e.2.1).Nodup :=
    OnePass.nodup_pass_numbers Nat.two_pos []
  refine ⟨_, sourceNode?_eq_some.mpr ⟨rfl, rfl, nodeRow repository e, nodeRevisionRow hash e, ?_, ?_, rfl⟩, rfl⟩
  · rw [Store.node?, hholds.nodeRows]
    refine @Rows.find?_append_new Node (nodeRow repository e) _ Node.gid _ _ hfresh.nodes ?_ ?_
      (List.mem_map_of_mem he)
    · exact List.forall_mem_map.mpr fun e he => OnePass.first_le_of_mem he
    · rw [List.map_map]
      exact hnumbers
  · rw [nodeMember, Option.bind_some, Store.nodeRevision?, hholds.revisionRows]
    refine @Rows.find?_append_new NodeRevision (nodeRevisionRow hash e) _ NodeRevision.gid _ _ hfresh.nodeRevisions ?_ ?_ (List.mem_map_of_mem he)
    · exact List.forall_mem_map.mpr fun e he => Nat.le_succ_of_le (OnePass.first_le_of_mem he)
    · rw [List.map_map]
      have hnext := hnumbers.map Nat.succ_injective
      rwa [List.map_map] at hnext

theorem sourceBinding?_bindingMember {e : ManifestBinding × ℕ × Option ℕ}
    (he : e ∈ bindingPass bindings [] (first + 2 * nodes.length)) : ∃ row,
      sourceBinding? t' (bindingMember e) = some row
        ∧ row.shown = (e.2.1, node e.1.nodeGid, "simulation_occurrence".toList, e.1.occurrenceGid, e.1.role) := by
  have hnumbers : ((bindingPass bindings [] (first + 2 * nodes.length)).map fun e => e.2.1).Nodup :=
    OnePass.nodup_pass_numbers Nat.two_pos []
  have hbinding : t'.binding? e.2.1 = some (bindingRow repository e) := by
    rw [Store.binding?, hholds.bindingRows]
    refine @Rows.find?_append_new Binding (bindingRow repository e) _ Binding.gid _ _ hfresh.bindings ?_ ?_ (List.mem_map_of_mem he)
    · exact List.forall_mem_map.mpr fun e he => (Nat.le_add_right _ _).trans (OnePass.first_le_of_mem he)
    · rw [List.map_map]
      exact hnumbers
  have hrevision : t'.bindingRevision? (e.2.1 + 1) = some (bindingRevisionRow hash node e) := by
    rw [Store.bindingRevision?, hholds.bindingRevisionRows]
    refine @Rows.find?_append_new BindingRevision (bindingRevisionRow hash node e) _ BindingRevision.gid _ _ hfresh.bindingRevisions ?_ ?_ (List.mem_map_of_mem he)
    · refine List.forall_mem_map.mpr fun e he => ?_
      exact Nat.le_succ_of_le ((Nat.le_add_right _ _).trans (OnePass.first_le_of_mem he))
    · rw [List.map_map]
      have hnext := hnumbers.map Nat.succ_injective
      rwa [List.map_map] at hnext
  refine ⟨⟨e.2.1, e.2.1, node e.1.nodeGid, "simulation_occurrence".toList, e.1.occurrenceGid, e.1.role, .obj [],
    (bindingRevisionRow hash node e).contentHash, .arr []⟩, ?_, rfl⟩
  unfold sourceBinding?
  rw [if_pos ⟨rfl, rfl⟩]
  show (t'.binding? e.2.1).bind _ = _
  rw [hbinding, Option.bind_some]
  show (t'.bindingRevision? (e.2.1 + 1)).bind _ = _
  rw [hrevision]
  rfl

omit hholds hfresh in
theorem map_filterMap_of {α β γ : Type} {f : α → Option β} {shown : β → γ} {g : α → γ} {l : List α}
    (h : ∀ a ∈ l, ∃ b, f a = some b ∧ shown b = g a) : (l.filterMap f).map shown = l.map g := by
  induction l with
  | nil => rfl
  | cons a l ih =>
    obtain ⟨b, hb, hshown⟩ := h a List.mem_cons_self
    rw [List.filterMap_cons_some hb, List.map_cons, List.map_cons, hshown,
      ih fun a ha => h a (List.mem_cons_of_mem _ ha)]

theorem shown_nodes : ((addedMembers nodes bindings first).filterMap (sourceNode? t')).map SourceNode.shown
    = (nodePass nodes [] first).map fun e => (e.2.1, e.2.2, e.1.content) := by
  have hnone : ((bindingPass bindings [] (first + 2 * nodes.length)).map bindingMember).filterMap (sourceNode? t')
      = [] := by
    refine List.filterMap_eq_nil_iff.mpr fun x hx => ?_
    obtain ⟨e, -, rfl⟩ := List.mem_map.mp hx
    exact if_neg fun h => MemberKind.noConfusion h.1
  rw [addedMembers, List.filterMap_append, hnone, List.append_nil, List.filterMap_map]
  exact map_filterMap_of fun e he => sourceNode?_nodeMember hholds hfresh he

theorem shown_bindings :
    ((addedMembers nodes bindings first).filterMap (sourceBinding? t')).map SourceBinding.shown
      = (bindingPass bindings [] (first + 2 * nodes.length)).map fun e =>
        (e.2.1, node e.1.nodeGid, "simulation_occurrence".toList, e.1.occurrenceGid, e.1.role) := by
  have hnone : ((nodePass nodes [] first).map nodeMember).filterMap (sourceBinding? t') = [] := by
    refine List.filterMap_eq_nil_iff.mpr fun x hx => ?_
    obtain ⟨e, -, rfl⟩ := List.mem_map.mp hx
    exact if_neg fun h => MemberKind.noConfusion h.1
  rw [addedMembers, List.filterMap_append, hnone, List.nil_append, List.filterMap_map]
  exact map_filterMap_of fun e he => sourceBinding?_bindingMember hholds hfresh he

end

/-! ## An import that is accepted -/

section

variable {hash : Json → Str} {repository : Gid} {m : ExportManifest} {selected : List Str} {first : ℕ} {i : Imported}
  (hforest : m.Forest) (hclosed : ∀ key ∈ selected, (unit? m.units key).any fun u =>
    u.dependencies.all (· ∈ selected))

def copyOf (m : ExportManifest) (selected : List Str) (first : ℕ) : Gid → Gid :=
  number ManifestNode.nodeGid 2 (m.selectedNodes selected) first

def bindingCopyOf (m : ExportManifest) (selected : List Str) (first : ℕ) : Gid → Gid :=
  number ManifestBinding.bindingGid 2 (m.selectedBindings selected) (first + 2 * (m.selectedNodes selected).length)

theorem nodup_selectedNodes (hforest : m.Forest) : ((m.selectedNodes selected).map ManifestNode.nodeGid).Nodup :=
  hforest.nodeGids.sublist (List.filter_sublist.map _)

theorem nodup_selectedBindings (hforest : m.Forest) :
    ((m.selectedBindings selected).map ManifestBinding.bindingGid).Nodup :=
  hforest.bindingGids.sublist (List.filter_sublist.map _)

include hforest hclosed

/-- **What an accepted selection writes.** -/
theorem importUnits_eq (himport : importUnits hash repository (selectedSources m.units selected) first = .ok i) :
    i.members = addedMembers (m.selectedNodes selected) (m.selectedBindings selected) first
    ∧ (∀ t t' : Store, t'.nodes = t.nodes ++ i.nodes → t'.nodeRevisions = t.nodeRevisions ++ i.nodeRevisions →
        t'.bindings = t.bindings ++ i.bindings → t'.bindingRevisions = t.bindingRevisions ++ i.bindingRevisions →
        HoldsImport hash repository first (copyOf m selected first) (m.selectedNodes selected)
          (m.selectedBindings selected) t t') := by
  have hnodes := @importNodes_eq hash repository (m.selectedNodes selected) { next := first } [] rfl
  have hskip : ∀ (l : List ManifestBinding) (j : Imported),
      (l.map ManifestBinding.source).foldl (importNode hash repository) j = j := by
    intro l
    induction l with
    | nil => exact fun _ => rfl
    | cons b l ih => exact fun j => ih j
  have hskip' : ∀ (l : List ManifestNode) (j : Imported) (f : Imported → Except ProposalError Imported),
      (l.map ManifestNode.source).foldlM (importBinding hash repository) j >>= f = f j := by
    intro l
    induction l with
    | nil => exact fun _ _ => rfl
    | cons n l ih => exact fun j f => ih j f
  unfold importUnits at himport
  rw [ExportManifest.selectedSources_units, List.foldl_append, hskip, List.foldlM_append, hskip', hnodes] at himport
  have hmap : ((nodePass (m.selectedNodes selected) [] first).map fun e =>
      (gidText e.1.nodeGid, e.2.1)).reverse ++ [] = textMap (OnePass.numbers ManifestNode.nodeGid 2
        (m.selectedNodes selected) first (m.selectedNodes selected)) := by
    rw [List.append_nil, nodePass, OnePass.pass_eq (nodup_selectedNodes hforest), List.map_map, textMap,
      OnePass.numbers, List.map_reverse, List.map_map]
    rfl
  rw [@importBindings_eq _ _ (copyOf m selected first) _ _ []] at himport
  · cases himport
    refine ⟨rfl, fun t t' h₁ h₂ h₃ h₄ => ⟨h₁, h₂, h₃, h₄⟩⟩
  · intro b hb
    rw [find?_textMap hmap, find?_numbers, if_pos (ExportManifest.bound_selected hforest hclosed b hb)]
    rfl

/-- **The copy is one** exactly where no selected node is listed before its parent. -/
theorem copied_iff {t t' : Store} (hfresh : Unissued t first)
    (hholds : HoldsImport hash repository first (copyOf m selected first) (m.selectedNodes selected)
      (m.selectedBindings selected) t t') :
    m.Copied selected t' (addedMembers (m.selectedNodes selected) (m.selectedBindings selected) first)
      ↔ m.ParentsFirst selected := by
  have hnodes : ((m.selectedNodes selected).map ManifestNode.nodeGid).Nodup := nodup_selectedNodes hforest
  have hparents := ExportManifest.parent_selected hforest hclosed
  constructor
  · rintro ⟨copy, bindingCopy, -, -, hperm, -, -⟩
    rw [shown_nodes hholds hfresh] at hperm
    exact OnePass.ordered_of_copy (f := ManifestNode.content) hnodes hparents hperm
  · intro hordered
    refine ⟨copyOf m selected first, bindingCopyOf m selected first, number_injOn Nat.two_pos,
      number_injOn Nat.two_pos, ?_, ?_, ?_⟩
    · rw [shown_nodes hholds hfresh, nodePass, pass_of_ordered hnodes hparents hordered, List.map_map]
      exact List.Perm.of_eq rfl
    · have hunordered : Ordered ManifestBinding.bindingGid (fun _ => none) (m.selectedBindings selected) :=
        List.pairwise_of_forall fun _ b => (Option.some_ne_none b.bindingGid).symm
      rw [shown_bindings hholds hfresh, bindingPass, pass_of_ordered (nodup_selectedBindings hforest)
        (fun _ _ _ h => absurd h (Option.not_mem_none _)) hunordered, List.map_map]
      exact List.Perm.of_eq rfl
    · rw [addedMembers, List.length_append, List.length_map, List.length_map, OnePass.length_pass,
        OnePass.length_pass]

end

end CraftWorld

theorem ExportManifest.Copied.perm {m listed : ExportManifest} {selected : List Str} {t : Store}
    {members : List Member} (h : m.Copied selected t members) (hnodes : listed.nodes.Perm m.nodes)
    (hbindings : listed.bindings.Perm m.bindings) : listed.Copied selected t members := by
  have hnodes : (listed.selectedNodes selected).Perm (m.selectedNodes selected) := hnodes.filter _
  have hbindings : (listed.selectedBindings selected).Perm (m.selectedBindings selected) := hbindings.filter _
  obtain ⟨copy, bindingCopy, hinj, hbindingInj, hshown, hbound, hlength⟩ := h
  refine ⟨copy, bindingCopy, hinj.mono fun g hg => ?_, hbindingInj.mono fun g hg => ?_,
    hshown.trans (hnodes.map _).symm, hbound.trans (hbindings.map _).symm, ?_⟩
  · exact (hnodes.map _).mem_iff.mp hg
  · exact (hbindings.map _).mem_iff.mp hg
  · rw [hlength, hnodes.length_eq, hbindings.length_eq]

namespace CraftWorld

/-! ## An import is made once -/

section

variable {hash : Json → Str} {w w' v : CraftWorld} {caller : Caller} {outcome : Outcome}

theorem commits_imports {call : SpaceCall} (hsafe : w.LedgerSafe) (h : commits hash w caller call = some w') :
    w'.db.imports = w.db.imports
    ∨ (∃ ref claims space repository expected result, previewPrivateImport hash w caller ref claims space
        repository expected = .ok (result, w'))
    ∨ ∃ preview ref claims space repository selected expected result, applyPrivateImport hash w caller preview
        ref claims space repository selected expected = .ok (result, w') := by
  have hcommitted : ∀ {ε α : Type} {x : Except ε (α × CraftWorld)} {u : CraftWorld},
      committed x = some u → ∃ a, x = .ok (a, u) := by
    intro ε α x u h
    cases x with
    | error e => cases h
    | ok r =>
      cases h
      exact ⟨r.1, rfl⟩
  cases call <;> obtain ⟨a, h⟩ := hcommitted h
  case createRepository project _ =>
      rcases write_cases h with rfl | ⟨u, heffect, rfl⟩
      · exact Or.inl rfl
      · obtain ⟨_, -, heffect⟩ := bind_eq_ok.mp heffect
        cases heffect
        exact Or.inl rfl
  case applyRepository request _ =>
      unfold applyRepository at h
      split at h
      · cases h
      · obtain ⟨_, -, h⟩ := bind_eq_ok.mp h
        obtain ⟨_, -, h⟩ := bind_eq_ok.mp h
        split at h
        · obtain ⟨_, -, h⟩ := bind_eq_ok.mp h
          cases h
          exact Or.inl rfl
        · obtain ⟨_, -, h⟩ := bind_eq_ok.mp h
          obtain ⟨_, -, h⟩ := bind_eq_ok.mp h
          obtain ⟨_, -, h⟩ := bind_eq_ok.mp h
          cases h
          exact Or.inl rfl
  case applyPersonal request _ =>
      rcases applyPersonal_new h with ⟨-, rfl⟩ | ⟨p, repository, slot, -, -, hbody⟩
      · exact Or.inl rfl
      · obtain ⟨_, -, hbody⟩ := bind_eq_ok.mp hbody
        obtain ⟨_, -, hbody⟩ := bind_eq_ok.mp hbody
        cases hbody
        exact Or.inl rfl
  case proposal c _ =>
      have hdrawn : (w.drawn c).LedgerSafe := hsafe.same (by rw [drawn_db]) (issued_drawn w c)
      rcases ledgered_cases hdrawn (call_eq_ok.mp h).2 with ⟨_, -, -, -, rfl⟩ | ⟨-, u, hbody, rfl⟩
      · exact Or.inl (by rw [drawn_db])
      · refine Or.inl ((body_tables hbody).1.trans ?_)
        show (w.drawn c).db.imports = _
        rw [drawn_db]
  case saveSpaceVersion space expected kind refs algorithms _ =>
      obtain ⟨_, -, h⟩ := bind_eq_ok.mp h
      rcases write_cases h with rfl | ⟨u, heffect, rfl⟩
      · exact Or.inl rfl
      · unfold saveSpaceVersionEffect at heffect
        dsimp only at heffect
        split at heffect
        · cases heffect
        · obtain ⟨_, -, heffect⟩ := bind_eq_ok.mp heffect
          obtain ⟨_, -, heffect⟩ := bind_eq_ok.mp heffect
          cases heffect
          exact Or.inl rfl
  case startDiff base ours theirs _ =>
      rcases startDiff_cases h with rfl | ⟨items, -, row, -, -, -, -, rfl⟩
      · exact Or.inl rfl
      · exact Or.inl rfl
  case applySync operation space keys expected _ =>
      rcases ledgered_cases hsafe h with ⟨_, -, -, -, rfl⟩ | ⟨-, u, hbody, rfl⟩
      · exact Or.inl rfl
      · unfold applySyncBody at hbody
        split at hbody
        · cases hbody
        · obtain ⟨_, -, hbody⟩ := bind_eq_ok.mp hbody
          split at hbody
          · cases hbody
          · obtain ⟨_, -, hbody⟩ := bind_eq_ok.mp hbody
            cases hbody
            exact Or.inl rfl
  case previewPrivateImport ref claims space repository expected _ =>
      exact Or.inr (Or.inl ⟨ref, claims, space, repository, expected, a, h⟩)
  case applyPrivateImport preview ref claims space repository selected expected _ =>
      exact Or.inr (Or.inr ⟨preview, ref, claims, space, repository, selected, expected, a, h⟩)

def Settled (w : CraftWorld) (preview : Gid) : Prop :=
  preview ≤ w.issued ∧ ∀ r ∈ w.db.imports, r.gid = preview → ∃ version units, r.outcome = .applied version units

theorem Settled.not_commits {preview : Gid} (h : w.Settled preview) {ref : Str} {claims : Option ExportClaims}
    {space repository : Gid} {selected : List Str} {expected : Nat} : commits hash w caller
      (.applyPrivateImport preview ref claims space repository selected expected) = none := by
  show committed _ = none
  cases hresult : applyPrivateImport hash w caller preview ref claims space repository selected expected with
  | error e => rfl
  | ok r =>
    obtain ⟨checked, row, units, -, -, -, hrow, -, hpreviewed, -⟩ := applyPrivateImport_cases hresult
    have hgid := List.find?_some hrow
    simp only [Bool.and_eq_true, beq_iff_eq] at hgid
    obtain ⟨version, count, happlied⟩ := h.2 row (List.mem_of_find?_eq_some hrow) hgid.1
    rw [happlied] at hpreviewed
    cases hpreviewed

theorem Settled.spaceStep {preview : Gid} (h : w.Settled preview) (hkeyed : w.Keyed) (c : Caller × SpaceCall) :
    (w.spaceStep hash c).Settled preview := by
  refine ⟨h.1.trans (spaceStep_stepped hash hkeyed c).issued, fun r hr hgid => ?_⟩
  unfold CraftWorld.spaceStep at hr
  cases hcommits : commits hash w c.1 c.2 with
  | none =>
    rw [hcommits] at hr
    exact h.2 r hr hgid
  | some u =>
    rw [hcommits, Option.getD_some] at hr
    rcases commits_imports hkeyed.ledger hcommits with
      hsame | ⟨ref, claims, space, repository, expected, result, hpreview⟩
        | ⟨other, ref, claims, space, repository, selected, expected, result, happly⟩
    · rw [hsame] at hr
      exact h.2 r hr hgid
    · obtain ⟨_, -, hpreview⟩ := bind_eq_ok.mp hpreview
      dsimp only at hpreview
      split at hpreview
      · obtain ⟨_, -, hpreview⟩ := bind_eq_ok.mp hpreview
        cases hpreview
        exact h.2 r hr hgid
      · cases hpreview
        rcases List.mem_append.mp hr with hr | hr
        · exact h.2 r hr hgid
        · -- the gid of a new preview was not given out before
          rw [List.mem_singleton.mp hr] at hgid
          have hle := h.1
          rw [← hgid] at hle
          exact absurd hle (Nat.not_succ_le_self _)
    · obtain ⟨_, _, _, head, _, -, -, -, -, -, -, -, -, rfl⟩ := applyPrivateImport_cases happly
      obtain ⟨old, hold, rfl⟩ := List.mem_map.mp hr
      split_ifs at hgid ⊢ with hother
      · exact ⟨_, _, rfl⟩
      · exact h.2 old hold hgid

theorem Settled.spaceRun {preview : Gid} (h : w.Settled preview) (hkeyed : w.Keyed)
    (calls : List (Caller × SpaceCall)) : (w.spaceRun hash calls).Settled preview := by
  induction calls generalizing w with
  | nil => exact h
  | cons c calls ih => exact ih (h.spaceStep hkeyed c) (hkeyed.spaceStep c)

end

/-! ## Imports of a preview -/

/-- No number is in use that was not given out. -/
structure Fresh (w : CraftWorld) : Prop where
  rows : Unissued w.db.toStore (w.issued + 1)
  members : ∀ h ∈ w.db.heads, ∀ x ∈ h.members, x.logicalGid ≤ w.issued
  imports : ∀ r ∈ w.db.imports, r.gid ≤ w.issued

section

variable {hash : Json → Str} {w w' : CraftWorld} {caller : Caller} {m : ExportManifest} {preview space repository : Gid}
  {ref : Str} {claims : Option ExportClaims} {selected : List Str} {expected : Nat} {row : PersonalImport}

theorem mem_addedMembers {nodes : List ManifestNode} {bindings : List ManifestBinding} {first : ℕ} {x : Member}
    (h : x ∈ addedMembers nodes bindings first) : first ≤ x.logicalGid := by
  rcases List.mem_append.mp h with h | h
  · obtain ⟨e, he, rfl⟩ := List.mem_map.mp h
    exact OnePass.first_le_of_mem he
  · obtain ⟨e, he, rfl⟩ := List.mem_map.mp h
    exact (Nat.le_add_right _ _).trans (OnePass.first_le_of_mem he)

theorem nodup_addedMembers (nodes : List ManifestNode) (bindings : List ManifestBinding) (first : ℕ) :
    ((addedMembers nodes bindings first).map Member.key).Nodup := by
  have hkeys : ∀ (kind : MemberKind) {numbers : List ℕ}, numbers.Nodup → (numbers.map (MemberKey.mk kind)).Nodup :=
    fun kind _ h => h.map fun _ _ heq => (MemberKey.mk.inj heq).2
  rw [addedMembers, List.map_append, List.map_map, List.map_map]
  refine List.nodup_append.mpr ⟨?_, ?_, ?_⟩
  · have hnumbers : ((nodePass nodes [] first).map fun e => e.2.1).Nodup :=
      OnePass.nodup_pass_numbers Nat.two_pos []
    have hnodes := hkeys .node hnumbers
    rwa [List.map_map] at hnodes
  · have hnumbers : ((bindingPass bindings [] (first + 2 * nodes.length)).map fun e => e.2.1).Nodup :=
      OnePass.nodup_pass_numbers Nat.two_pos []
    have hbindings := hkeys .binding hnumbers
    rwa [List.map_map] at hbindings
  · intro key hkey other hother heq
    obtain ⟨e, -, rfl⟩ := List.mem_map.mp hkey
    obtain ⟨e', -, rfl⟩ := List.mem_map.mp hother
    exact MemberKind.noConfusion (congrArg MemberKey.kind heq)

theorem import_eq (hforest : m.Forest) (hfresh : w.Fresh)
    (hrow : w.db.imports.find? (fun r => r.gid == preview && r.personalSpaceGid == space) = some row)
    (hunits : row.outcome = .previewed expected m.units)
    (h : commits hash w caller (.applyPrivateImport preview ref claims space repository selected expected) = some w') :
    (∀ key ∈ selected, (unit? m.units key).any fun u => u.dependencies.all (· ∈ selected)) ∧
    ∃ head, w.db.head? space = some head ∧ w'.db.head? space = some { head with
          members := head.members ++ addedMembers (m.selectedNodes selected) (m.selectedBindings selected) (w.issued + 1)
          rowVersion := head.rowVersion + 1 }
      ∧ HoldsImport hash repository (w.issued + 1) (copyOf m selected (w.issued + 1)) (m.selectedNodes selected)
        (m.selectedBindings selected) w.db.toStore w'.db.toStore
      ∧ w'.Settled preview := by
  obtain ⟨result, h⟩ : ∃ result, applyPrivateImport hash w caller preview ref claims space repository selected expected
      = .ok (result, w') := by
    change committed _ = some w' at h
    cases hresult : applyPrivateImport hash w caller preview ref claims space repository selected expected with
    | error e =>
      rw [hresult] at h
      cases h
    | ok r =>
      rw [hresult] at h
      cases h
      exact ⟨r.1, rfl⟩
  obtain ⟨_, row', units, head, i, -, hrow', -, hunits', hclosed, htarget, -, himport, rfl⟩ := applyPrivateImport_cases h
  obtain rfl : row = row' := Option.some.inj (hrow.symm.trans hrow')
  obtain rfl : m.units = units := (ImportOutcome.previewed.inj (hunits.symm.trans hunits')).2
  obtain ⟨hmembers, hrows⟩ := importUnits_eq hforest hclosed himport
  obtain ⟨s, hs, hmap⟩ := Option.bind_eq_some_iff.mp htarget
  obtain ⟨head', hhead, heq⟩ := Option.map_eq_some_iff.mp hmap
  have hspace := List.find?_some hs
  simp only [Bool.and_eq_true, beq_iff_eq] at hspace
  obtain rfl : head' = head := congrArg Prod.snd heq
  rw [hspace.1.1.1] at hhead
  have hin : head' ∈ w.db.heads := List.mem_of_find?_eq_some hhead
  have hset : setMembers i.members head'.members = head'.members ++ i.members := by
    rw [hmembers]
    refine KeyedRows.upsertAll_of_new (nodup_addedMembers _ _ _) fun x hx y hy heq => ?_
    have hle := hfresh.members head' hin x hx
    have hlt := mem_addedMembers hy
    rw [show x.logicalGid = y.logicalGid from congrArg MemberKey.logicalGid heq] at hle
    exact absurd hlt (Nat.not_le_of_lt (Nat.lt_succ_of_le hle))
  refine ⟨hclosed, head', hhead, ?_, hrows _ _ rfl rfl rfl rfl, ?_, ?_⟩
  · show (Rows.update (·.gid == head'.gid) (SpaceHead.edited i.members) w.db.heads).find? _ = _
    rw [Rows.find?_update (f := SpaceHead.edited i.members) fun _ _ => rfl]
    show (w.db.head? space).map _ = _
    rw [hhead, Option.map_some, if_pos (beq_self_eq_true _), SpaceHead.edited, hset, hmembers]
  · have hgid := List.find?_some hrow
    simp only [Bool.and_eq_true, beq_iff_eq] at hgid
    have hissued : w.issued + 1 ≤ i.next := importUnits_next himport
    have hle := hfresh.imports row (List.mem_of_find?_eq_some hrow)
    rw [hgid.1] at hle
    exact hle.trans ((Nat.le_succ _).trans hissued)
  · intro r hr hgid
    obtain ⟨old, hold, rfl⟩ := List.mem_map.mp hr
    split_ifs at hgid ⊢ with hthis
    · exact ⟨_, _, rfl⟩
    · exact absurd (beq_iff_eq.mpr hgid) hthis

theorem addsCopy_iff (hforest : m.Forest) (hfresh : w.Fresh)
    (hrow : w.db.imports.find? (fun r => r.gid == preview && r.personalSpaceGid == space) = some row)
    (hunits : row.outcome = .previewed expected m.units)
    (h : commits hash w caller (.applyPrivateImport preview ref claims space repository selected expected) = some w') :
    AddsCopy w w' m space selected ↔ m.ParentsFirst selected := by
  obtain ⟨hclosed, head, hhead, hhead', hholds, -⟩ := import_eq hforest hfresh hrow hunits h
  have hcopied := copied_iff hforest hclosed hfresh.rows hholds
  constructor
  · rintro ⟨old, members, hold, hnew, hcopy⟩
    obtain rfl : head = old := Option.some.inj (hhead.symm.trans hold)
    have hsame := congrArg SpaceHead.members (Option.some.inj (hnew.symm.trans hhead'))
    rw [List.append_cancel_left hsame] at hcopy
    exact hcopied.mp (hcopy m (List.Perm.refl _) (List.Perm.refl _))
  · intro hordered
    exact ⟨head, _, hhead, hhead', fun listed hnodes hbindings => (hcopied.mpr hordered).perm hnodes hbindings⟩

/-- **An accepted import** adds a copy of the selected part to the head, whatever the order of the manifest, and
is made once, exactly where the manifest lists no selected node before its parent. A node that comes before
its parent is imported without one. -/
theorem private_import_copies_iff (hforest : m.Forest) (hkeyed : w.Keyed) (hfresh : w.Fresh)
    (hrow : w.db.imports.find? (fun r => r.gid == preview && r.personalSpaceGid == space) = some row)
    (hunits : row.outcome = .previewed expected m.units)
    (h : commits hash w caller (.applyPrivateImport preview ref claims space repository selected expected) = some w') :
    Imports hash w w' m preview space selected ↔ m.ParentsFirst selected := by
  have hcopied := addsCopy_iff hforest hfresh hrow hunits h
  refine ⟨fun himports => hcopied.mp himports.copied, fun hordered => ⟨hcopied.mpr hordered, ?_, ?_⟩⟩
  · intro v caller ref claims repository units expected hnone
    unfold spaceStep
    rw [hnone, Option.getD_none]
  · intro calls _ _ _ _ _ _ _
    have hsettled : w'.Settled preview := (import_eq hforest hfresh hrow hunits h).2.choose_spec.2.2.2
    have hkeyed' : w'.Keyed := by
      have hstep : (w.spaceStep hash
          (caller, .applyPrivateImport preview ref claims space repository selected expected)).Keyed :=
        hkeyed.spaceStep _
      rwa [spaceStep, h, Option.getD_some] at hstep
    exact (hsettled.spaceRun hkeyed' calls).not_commits

end

/-! ## A station on a line -/

/-- A line, a station on it, and an occurrence that the station operates. -/
def stationManifest : ExportManifest where
  nodes := [⟨1, none, ['l'], ['0'], ['L']⟩, ⟨2, some 1, ['s'], ['1'], ['S']⟩]
  bindings := [⟨3, 2, 7, ['o']⟩]

/-- The same manifest with its nodes the other way round. -/
def reversedManifest : ExportManifest := { stationManifest with nodes := stationManifest.nodes.reverse }

def previewedWorld (m : ExportManifest) : CraftWorld where
  db :=
    { spaces := [⟨20, 10, 60, .managedPersonal, some 50, none, false⟩]
      heads := [⟨21, 20, 60, 1, [], []⟩]
      imports := [⟨30, 20, [], [], ['k'], .previewed 1 m.units⟩] }
  issued := 30

def importAll (m : ExportManifest) : SpaceCall :=
  .applyPrivateImport 30 [] (some ⟨50, 60, 20, 10, importConsumer, [], []⟩) 20 10 (m.units.map ImportUnit.unitKey) 1

def personalCaller : Caller := ⟨60, 50, ['k']⟩

theorem previewedWorld_row (m : ExportManifest) :
    (previewedWorld m).db.imports.find? (fun r => r.gid == 30 && r.personalSpaceGid == 20)
      = some ⟨30, 20, [], [], ['k'], .previewed 1 m.units⟩ := rfl

theorem previewedWorld_keyed (m : ExportManifest) : (previewedWorld m).Keyed := by
  constructor
  case ledger => exact ⟨fun r hr => (nomatch hr), fun r hr => (nomatch hr)⟩
  all_goals simp [previewedWorld]

theorem previewedWorld_fresh (m : ExportManifest) : (previewedWorld m).Fresh := by
  refine ⟨?_, ?_, ?_⟩
  · constructor <;> exact fun r hr => nomatch hr
  · simp [previewedWorld]
  · simp [previewedWorld]

theorem stationManifest_forest : stationManifest.Forest :=
  ⟨by decide, by decide, ExportManifest.acyclic_of_lt (by decide), by decide, by decide⟩

theorem reversedManifest_forest : reversedManifest.Forest :=
  ⟨by decide, by decide, ExportManifest.acyclic_of_lt (by decide), by decide, by decide⟩

theorem private_import_copies_iff_station : ∃ w', commits (fun _ => []) (previewedWorld stationManifest) personalCaller
      (importAll stationManifest) = some w'
    ∧ Imports (fun _ => []) (previewedWorld stationManifest) w' stationManifest 30 20
      (stationManifest.units.map ImportUnit.unitKey) := by
  obtain ⟨w', hw'⟩ := Option.isSome_iff_exists.mp (show (commits (fun _ => []) (previewedWorld stationManifest)
    personalCaller (importAll stationManifest)).isSome = true by decide)
  refine ⟨w', hw', (private_import_copies_iff stationManifest_forest (previewedWorld_keyed _) (previewedWorld_fresh _)
    (previewedWorld_row _) rfl hw').mpr ?_⟩
  unfold ExportManifest.ParentsFirst Ordered
  decide

/-- With its nodes the other way round the station becomes a root. -/
theorem reversed_station_not_copied : ∃ w', commits (fun _ => []) (previewedWorld reversedManifest) personalCaller
      (importAll reversedManifest) = some w'
    ∧ ¬ Imports (fun _ => []) (previewedWorld reversedManifest) w' reversedManifest 30 20
      (reversedManifest.units.map ImportUnit.unitKey) := by
  obtain ⟨w', hw'⟩ := Option.isSome_iff_exists.mp (show (commits (fun _ => []) (previewedWorld reversedManifest)
    personalCaller (importAll reversedManifest)).isSome = true by decide)
  refine ⟨w', hw', fun himports => ?_⟩
  have hordered := (addsCopy_iff reversedManifest_forest (previewedWorld_fresh _)
    (previewedWorld_row _) rfl hw').mp himports.copied
  unfold ExportManifest.ParentsFirst Ordered at hordered
  exact absurd hordered (by decide)

end CraftWorld

end Ai00.Craft
