import Ai00.Simulation.PlmxmlParents

/-! # When projected instances form a forest

`Forest` says what a tree view relies on: ids that are distinct, parents that are projected, a root
above every instance, and a `parentPath` that is the chain of ids down to the parent. Parents come
from the references of instances, but paths from occurrences, and the instances of the viewer's
current state hang under a root that is found by its name; nothing compares them. An accepted
document projects to a forest exactly where it is `Consistent`.
-/

namespace Ai00.Simulation

open KeyedRows Lineage Relation

/-! ## Forests -/

/-- The parent of an item with an id. -/
def Below (items : List PlmxmlInstance) (a : Str) (p : Option Str) : Prop :=
  ∃ item ∈ items, item.instanceId = a ∧ item.parentInstanceId = p

structure Forest (items : List PlmxmlInstance) : Prop where
  distinct : (items.map PlmxmlInstance.instanceId).Nodup
  parents : ∀ item ∈ items, ∀ p, item.parentInstanceId = some p →
    p ∈ items.map PlmxmlInstance.instanceId
  /-- The parents of an item lead up to a root and repeat no item. -/
  rooted : ∀ item ∈ items, ∃ path, LeadsTo (Below items) path item.instanceId
    ∧ (path ++ [item.instanceId]).Nodup
  paths : ∀ item ∈ items, ∀ path, LeadsTo (Below items) path item.instanceId →
    item.parentPath = path

/-- An instance is above itself. -/
def PlmxmlDocument.Cyclic (document : PlmxmlDocument) : Prop :=
  ∃ a, TransGen (fun a p => document.Lists p a) a a

/-! ## Consistent documents -/

/-- The occurrences that the viewer places below a root. -/
def nested (document : PlmxmlDocument) : List (List Str × Occurrence) :=
  (currentState document).filter fun placed => 2 ≤ placed.1.length

/-- The root that the viewer's path names: of the instances among the document's roots the last one
with the BOM line of the first label. -/
def viewerRoot (document : PlmxmlDocument) (path : List Str) : Option ProductInstance :=
  lookup (fun i => bomLine i.name) (bomLine (path.headD []))
    (document.instances.filter fun i => i.id ∈ refs document.rootRefs).reverse

def viewerId (placed : List Str × Occurrence) : Str := "occ:".toList ++ placed.2.id

structure Consistent (document : PlmxmlDocument) : Prop where
  /-- A path from an occurrence goes down from a root, each instance listing the next one. -/
  paths : ∀ id path, document.suppliedPath id = some path → LeadsTo document.Up path id
  /-- What the viewer hangs its occurrences under is listed by no instance. -/
  roots : ∀ placed ∈ nested document, ∀ root, viewerRoot document placed.1 = some root →
    document.Up root.id none
  fresh : ∀ placed ∈ nested document, viewerId placed ∉ document.ids
  distinct : ((nested document).map viewerId).Nodup

variable {document : PlmxmlDocument} {limits : PlmxmlLimits} {parents : List (Str × Str)}
  {table : OccurrenceTable} {items projected roots : List PlmxmlInstance} {a : Str}
  {path : List Str}

theorem functional_below (h : (items.map PlmxmlInstance.instanceId).Nodup) : Functional (Below items) := by
  rintro a p q ⟨item, hitem, rfl, rfl⟩ ⟨item', hitem', hid, rfl⟩
  rw [List.inj_on_of_nodup_map h hitem hitem' hid.symm]

variable {more : List PlmxmlInstance}

theorem Below.append {p : Option Str} (h : Below items a p) : Below (items ++ more) a p := by
  obtain ⟨item, hitem, hid, hparent⟩ := h
  exact ⟨item, List.mem_append_left _ hitem, hid, hparent⟩

theorem forest_of_lineages (h : (items.map PlmxmlInstance.instanceId).Nodup)
    (hpaths : ∀ item ∈ items, LeadsTo (Below items) item.parentPath item.instanceId) :
    Forest items where
  distinct := h
  parents item hitem p hp := by
    have hpath := hpaths item hitem
    generalize item.parentPath = path at hpath
    cases hpath with
    | root hroot => cases functional_below h _ _ _ hroot ⟨item, hitem, rfl, hp⟩
    | child hparent habove =>
      obtain rfl := Option.some.inj (functional_below h _ _ _ hparent ⟨item, hitem, rfl, hp⟩)
      cases habove with
      | root hroot =>
        obtain ⟨above, habove, hid, -⟩ := hroot
        exact hid ▸ List.mem_map_of_mem habove
      | child hparent =>
        obtain ⟨above, habove, hid, -⟩ := hparent
        exact hid ▸ List.mem_map_of_mem habove
  rooted item hitem := ⟨_, hpaths item hitem, (hpaths item hitem).nodup (functional_below h)⟩
  paths item hitem path hpath := (hpaths item hitem).unique (functional_below h) hpath

theorem Forest.leadsTo (h : Forest items) {item : PlmxmlInstance} (hitem : item ∈ items) :
    LeadsTo (Below items) item.parentPath item.instanceId := by
  obtain ⟨path, hpath, -⟩ := h.rooted item hitem
  rwa [h.paths item hitem path hpath]

/-! ## The instances that were read -/

theorem projectInstance_ok {i : ProductInstance} {item : PlmxmlInstance}
    (h : projectInstance document parents table i = .ok item) :
    item.instanceId = i.id ∧ item.bomLine = bomLine i.name ∧ item.parentInstanceId = entry i.id parents
      ∧ parentPath parents table i.id = .ok item.parentPath := by
  obtain ⟨r, -, h⟩ := bind_eq_ok.mp h
  obtain ⟨path, hpath, h⟩ := bind_eq_ok.mp h
  obtain ⟨normalized, -, h⟩ := bind_eq_ok.mp h
  obtain rfl := Except.ok.inj h
  exact ⟨rfl, rfl, rfl, hpath⟩

/-- What an accepted document gives its instances. -/
structure ProjectedForest (document : PlmxmlDocument) (projected : List PlmxmlInstance) : Prop where
  functional : Functional document.Up
  listed : ∀ a p, document.Lists p a → a ∈ document.ids
  /-- Ids and BOM lines are those of the document. -/
  names : projected.map (fun item => (item.instanceId, item.bomLine))
    = document.instances.map fun i => (i.id, bomLine i.name)
  up : ∀ item ∈ projected, ∀ p, item.parentInstanceId = p ↔ document.Up item.instanceId p
  leaves : ∀ id path, document.suppliedPath id = some path → id ∈ document.ids
  supplied : ∀ item ∈ projected, ∀ path, document.suppliedPath item.instanceId = some path →
    item.parentPath = path
  walked : ∀ item ∈ projected, document.suppliedPath item.instanceId = none →
    LeadsTo document.Up item.parentPath item.instanceId

theorem projected_of_mapM (hparents : resolveParents document = .ok parents)
    (htable : collectOccurrences document = .ok table)
    (h : document.instances.mapM (projectInstance document parents table) = .ok projected) :
    ProjectedForest document projected := by
  have hall := forall₂_of_mapM h
  have hpath : ∀ item ∈ projected, parentPath parents table item.instanceId = .ok item.parentPath := by
    intro item hitem
    obtain ⟨i, -, hi⟩ := exists_of_forall₂ hall hitem
    obtain ⟨hid, -, -, hpath⟩ := projectInstance_ok hi
    exact hid ▸ hpath
  refine ⟨functional_up hparents, (resolveParents_ok hparents).2, ?_, ?_,
    fun id => (collectOccurrences_ok htable id).2, ?_, ?_⟩
  · have hsame : List.Forall₂ (· = ·) (document.instances.map fun i => (i.id, bomLine i.name))
        (projected.map fun item => (item.instanceId, item.bomLine)) := by
      rw [List.forall₂_map_left_iff, List.forall₂_map_right_iff]
      refine hall.imp fun i item hi => ?_
      obtain ⟨hid, hline, -⟩ := projectInstance_ok hi
      rw [hid, hline]
    rw [List.forall₂_eq_eq_eq] at hsame
    exact hsame.symm
  · intro item hitem p
    obtain ⟨i, -, hi⟩ := exists_of_forall₂ hall hitem
    obtain ⟨hid, -, hparent, -⟩ := projectInstance_ok hi
    rw [resolveParents_up hparents, hparent, hid]
  · intro item hitem path hsupplied
    have hpath := hpath item hitem
    rw [parentPath, (collectOccurrences_ok htable _).1, hsupplied] at hpath
    exact (Except.ok.inj hpath).symm
  · intro item hitem hsupplied
    have hpath := hpath item hitem
    rw [parentPath, (collectOccurrences_ok htable _).1, hsupplied] at hpath
    exact ((climb_eq_ok_iff le_rfl).mp hpath).mono fun a p => (resolveParents_up hparents a p).mpr

namespace ProjectedForest

variable (h : ProjectedForest document projected)
include h

theorem map_id : projected.map PlmxmlInstance.instanceId = document.ids := by
  have hfst := congrArg (List.map Prod.fst) h.names
  rwa [List.map_map, List.map_map] at hfst

theorem below {p : Option Str} (ha : a ∈ document.ids) (hup : document.Up a p) :
    Below projected a p := by
  rw [← h.map_id] at ha
  obtain ⟨item, hitem, rfl⟩ := List.mem_map.mp ha
  exact ⟨item, hitem, rfl, (h.up item hitem p).mpr hup⟩

theorem leadsTo_below (ha : a ∈ document.ids) (hpath : LeadsTo document.Up path a) :
    LeadsTo (Below projected) path a :=
  hpath.mono_on (· ∈ document.ids) ha (fun _ _ _ hlists => hlists.mem_ids) fun _ _ hmet hup => h.below hmet hup

/-- Among more items the parents of the instances that were read are still those of the document. -/
theorem up_of_below {p : Option Str}
    (hdistinct : ((projected ++ more).map PlmxmlInstance.instanceId).Nodup) (ha : a ∈ document.ids)
    (hbelow : Below (projected ++ more) a p) : document.Up a p := by
  rw [← h.map_id] at ha
  obtain ⟨item, hitem, rfl⟩ := List.mem_map.mp ha
  have hself : Below (projected ++ more) item.instanceId item.parentInstanceId :=
    ⟨item, List.mem_append_left _ hitem, rfl, rfl⟩
  exact (h.up item hitem p).mp (functional_below hdistinct _ _ _ hself hbelow)

theorem leadsTo_up
    (hdistinct : ((projected ++ more).map PlmxmlInstance.instanceId).Nodup) (ha : a ∈ document.ids)
    (hpath : LeadsTo (Below (projected ++ more)) path a) : LeadsTo document.Up path a :=
  hpath.mono_on (· ∈ document.ids) ha
    (fun _ _ hmet hbelow => (show document.Lists _ _ from h.up_of_below hdistinct hmet hbelow).mem_ids)
    fun _ _ hmet hbelow => h.up_of_below hdistinct hmet hbelow

theorem root_id (path : List Str) :
    (lookup PlmxmlInstance.bomLine (bomLine (path.headD [])) (rootByBomLine document projected)).map
      PlmxmlInstance.instanceId = (viewerRoot document path).map ProductInstance.id := by
  let named (pairs : List (Str × Str)) : Option (Str × Str) :=
    lookup Prod.snd (bomLine (path.headD []))
      (pairs.filter fun pair => pair.1 ∈ refs document.rootRefs).reverse
  have hleft : (lookup PlmxmlInstance.bomLine (bomLine (path.headD []))
      (rootByBomLine document projected)).map (fun item => (item.instanceId, item.bomLine))
      = named (projected.map fun item => (item.instanceId, item.bomLine)) := by
    have hmap : ∀ rows : List PlmxmlInstance,
        (lookup PlmxmlInstance.bomLine (bomLine (path.headD [])) rows).map
          (fun item => (item.instanceId, item.bomLine)) = lookup Prod.snd (bomLine (path.headD []))
          (rows.map fun item => (item.instanceId, item.bomLine)) := fun _ => map_lookup fun _ => rfl
    rw [rootByBomLine, lookup_upsertAll, lookup_nil, Option.or_none, hmap, List.map_reverse]
    simp only [named, List.filter_map, Function.comp_def]
  have hright : (viewerRoot document path).map (fun i => (i.id, bomLine i.name))
      = named (document.instances.map fun i => (i.id, bomLine i.name)) := by
    have hmap : ∀ rows : List ProductInstance,
        (lookup (fun i => bomLine i.name) (bomLine (path.headD [])) rows).map
          (fun i => (i.id, bomLine i.name)) = lookup Prod.snd (bomLine (path.headD []))
          (rows.map fun i => (i.id, bomLine i.name)) := fun _ => map_lookup fun _ => rfl
    rw [viewerRoot, hmap, List.map_reverse]
    simp only [named, List.filter_map, Function.comp_def]
  have hsame := congrArg (Option.map Prod.fst) (hleft.trans ((congrArg named h.names).trans hright.symm))
  rwa [Option.map_map, Option.map_map] at hsame

end ProjectedForest

/-! ## The instances of the current state -/

/-- What a path of two labels or more adds. -/
structure Hung (s s' : Placement) (root : PlmxmlInstance) (placed : List Str × Occurrence)
    (item : PlmxmlInstance) (above : List Str) : Prop where
  projected : s'.projected = s.projected ++ [item]
  pathToInstance : s'.pathToInstance = s.pathToInstance ++ [(placed.1, item.instanceId)]
  id : item.instanceId = viewerId placed
  parent : item.parentInstanceId =
    if placed.1.length = 2 then some root.instanceId else s.at placed.1.dropLast
  isChild : item.parentInstanceId ≠ none
  path : item.parentPath = root.instanceId :: above
  above : List.Forall₂ (fun depth id => s.at (placed.1.take depth) = some id)
    (List.range' 2 (placed.1.length - 2)) above

variable {s s' : Placement} {placed : List Str × Occurrence}

theorem placeBelow_ok {root : PlmxmlInstance} {occurrence : Occurrence}
    (h : placeBelow limits root path occurrence s = .ok s') :
    ∃ item above, Hung s s' root (path, occurrence) item above := by
  obtain ⟨parentId, hparent, h⟩ := bind_eq_ok.mp h
  obtain ⟨above, habove, h⟩ := bind_eq_ok.mp h
  obtain ⟨-, -, h⟩ := bind_eq_ok.mp h
  obtain rfl := Except.ok.inj h
  refine ⟨_, above, rfl, rfl, rfl, (found_eq_ok.mp hparent).symm, Option.some_ne_none _, rfl, ?_⟩
  exact (forall₂_of_mapM habove).imp fun depth id hid => found_eq_ok.mp hid

theorem place_ok (h : place limits roots s placed = .ok s') : s.at placed.1 = none ∧ ∃ root,
      lookup PlmxmlInstance.bomLine (bomLine (placed.1.headD [])) roots = some root
      ∧ (placed.1.length = 1 ∧ s'.projected = s.projected
          ∧ s'.pathToInstance = s.pathToInstance ++ [(placed.1, root.instanceId)]
        ∨ placed.1.length ≠ 1 ∧ ∃ item above, Hung s s' root placed item above) := by
  obtain ⟨path, occurrence⟩ := placed
  obtain ⟨_, hnew, h⟩ := bind_eq_ok.mp h
  obtain ⟨-, -, h⟩ := bind_eq_ok.mp h
  obtain ⟨root, hroot, h⟩ := bind_eq_ok.mp h
  refine ⟨require_eq_ok.mp hnew, root, found_eq_ok.mp hroot, ?_⟩
  -- the ids of the product data change nothing else
  generalize ht : (if userValue "__PLM_OCC_PDM_UID" occurrence.userValues = [] then s
    else { s with pdmUids := userValue "__PLM_OCC_PDM_UID" occurrence.userValues :: s.pdmUids }) = t at h
  have hprojected : t.projected = s.projected := by
    rw [← ht]
    split_ifs <;> rfl
  have hpaths : t.pathToInstance = s.pathToInstance := by
    rw [← ht]
    split_ifs <;> rfl
  have hat : t.at = s.at := by
    funext path
    rw [Placement.at, Placement.at, hpaths]
  by_cases hlength : path.length = 1
  · left
    rw [if_pos hlength] at h
    obtain rfl := Except.ok.inj h
    exact ⟨hlength, hprojected, by rw [← hpaths]⟩
  · right
    rw [if_neg hlength] at h
    obtain ⟨item, above, hung⟩ := placeBelow_ok h
    exact ⟨hlength, item, above, hprojected ▸ hung.projected, hpaths ▸ hung.pathToInstance, hung.id,
      hat ▸ hung.parent, hung.isChild, hung.path, hat ▸ hung.above⟩

theorem Placement.at_concat {id : Str} (h : s'.pathToInstance = s.pathToInstance ++ [(path, id)])
    (q : List Str) : s'.at q = (s.at q).or (if path = q then some id else none) := by
  rw [Placement.at, h, lookup_append, Placement.at]
  cases lookup Prod.fst q s.pathToInstance with
  | some row => rfl
  | none =>
    rw [lookup_cons]
    by_cases hq : path = q <;> simp [hq]

theorem Placement.at_mono {id id' : Str} {q : List Str}
    (h : s'.pathToInstance = s.pathToInstance ++ [(path, id)]) (hq : s.at q = some id') :
    s'.at q = some id' := by
  rw [Placement.at_concat h, hq]
  rfl

/-- What the paths placed so far added. -/
structure Placed (roots start : List PlmxmlInstance) (done : List (List Str × Occurrence))
    (s : Placement) : Prop where
  grown : ∃ new, s.projected = start ++ new ∧ new.map PlmxmlInstance.instanceId
    = (done.filter fun placed => 2 ≤ placed.1.length).map viewerId
  hung : ∀ placed ∈ done, 2 ≤ placed.1.length → ∃ root, ∃ item ∈ s.projected, ∃ above,
    lookup PlmxmlInstance.bomLine (bomLine (placed.1.headD [])) roots = some root
      ∧ item.parentPath = root.instanceId :: above

variable {start : List PlmxmlInstance}

theorem Placed.step {done : List (List Str × Occurrence)}
    (hs : Placed roots start done s) (hne : placed.1 ≠ []) (h : place limits roots s placed = .ok s') :
    Placed roots start (done ++ [placed]) s' := by
  obtain ⟨-, root, hroot, hcases⟩ := place_ok h
  obtain ⟨new, hnew, hids⟩ := hs.grown
  have hpos := List.length_pos_iff.mpr hne
  rcases hcases with ⟨hlength, hprojected, -⟩ | ⟨hlength, item, above, hung⟩
  · have hshort : ¬ 2 ≤ placed.1.length := by omega
    refine ⟨⟨new, hprojected.trans hnew, ?_⟩, ?_⟩
    · rw [hids, List.filter_append, List.filter_singleton]
      simp [hshort]
    · intro other hother hlong
      rcases List.mem_append.mp hother with hother | hother
      · rw [hprojected]
        exact hs.hung other hother hlong
      · exact absurd (List.mem_singleton.mp hother ▸ hlong) hshort
  · have hlong : 2 ≤ placed.1.length := by omega
    refine ⟨⟨new ++ [item], ?_, ?_⟩, ?_⟩
    · rw [hung.projected, hnew, List.append_assoc]
    · rw [List.map_append, hids, List.filter_append, List.filter_singleton]
      simp [hlong, hung.id]
    · intro other hother hother'
      rw [hung.projected]
      rcases List.mem_append.mp hother with hother | hother
      · obtain ⟨root', item', hitem', rest⟩ := hs.hung other hother hother'
        exact ⟨root', item', List.mem_append_left _ hitem', rest⟩
      · obtain rfl := List.mem_singleton.mp hother
        exact ⟨root, item, by simp, above, hroot, hung.path⟩

/-- The paths placed so far lead up to roots, by the items placed for what is above them. -/
structure Chained (roots start : List PlmxmlInstance) (s : Placement) : Prop where
  chains : ∀ path id, s.at path = some id → 2 ≤ path.length → ∃ root above,
    lookup PlmxmlInstance.bomLine (bomLine (path.headD [])) roots = some root
      ∧ List.Forall₂ (fun depth id => s.at (path.take depth) = some id)
          (List.range' 2 (path.length - 2)) above
      ∧ LeadsTo (Below s.projected) (root.instanceId :: above) id
  items : ∀ item ∈ s.projected, item ∈ start ∨
    LeadsTo (Below s.projected) item.parentPath item.instanceId

/-- The ids above a path are the ids above its parent's path and the parent's. -/
theorem above_eq_concat {above higher : List Str} {id : Str} (hlength : 3 ≤ path.length)
    (habove : List.Forall₂ (fun depth id => s.at (path.take depth) = some id)
      (List.range' 2 (path.length - 2)) above)
    (hhigher : List.Forall₂ (fun depth id => s.at (path.dropLast.take depth) = some id)
      (List.range' 2 (path.dropLast.length - 2)) higher)
    (hid : s.at path.dropLast = some id) : above = higher ++ [id] := by
  have hunique : Relator.RightUnique fun depth id => s.at (path.take depth) = some id :=
    fun depth x y hx hy => Option.some.inj (hx.symm.trans hy)
  have hrange : List.range' 2 (path.length - 2) = List.range' 2 (path.length - 3) ++ [path.length - 1] := by
    rw [show path.length - 2 = path.length - 3 + 1 by omega, List.range'_concat]
    congr 2
    omega
  refine hunique.forall₂ habove ?_
  rw [hrange]
  refine List.rel_append ?_ (.cons ?_ .nil)
  · rw [List.length_dropLast, show path.length - 1 - 2 = path.length - 3 by omega] at hhigher
    refine List.forall₂_iff_get.mpr ⟨hhigher.length_eq, fun n hn hn' => ?_⟩
    have hget := hhigher.get hn hn'
    have hbound : n < path.length - 3 := by simpa using hn
    rw [List.dropLast_eq_take, List.take_take] at hget
    rwa [min_eq_left] at hget
    simp only [List.get_eq_getElem, List.getElem_range']
    omega
  · rwa [← List.dropLast_eq_take]

theorem Chained.leadsTo_hung {root item : PlmxmlInstance} {above : List Str} (hs : Chained roots start s)
    (hroot : lookup PlmxmlInstance.bomLine (bomLine (placed.1.headD [])) roots = some root)
    (hlong : 2 ≤ placed.1.length) (hbelow : Below s.projected root.instanceId none)
    (hung : Hung s s' root placed item above) :
    LeadsTo (Below s'.projected) (root.instanceId :: above) item.instanceId := by
  have hgrows : ∀ a p, Below s.projected a p → Below s'.projected a p := by
    rw [hung.projected]
    exact fun a p h => h.append
  have hitem : Below s'.projected item.instanceId item.parentInstanceId :=
    ⟨item, by simp [hung.projected], rfl, rfl⟩
  have hparent := hung.parent
  by_cases hlength : placed.1.length = 2
  · have hnil : above = [] := by
      have habove := hung.above
      rw [hlength] at habove
      exact List.forall₂_nil_left_iff.mp habove
    rw [if_pos hlength] at hparent
    rw [hnil, ← List.nil_append [root.instanceId]]
    exact .child (hparent ▸ hitem) (.root (hgrows _ _ hbelow))
  · rw [if_neg hlength] at hparent
    obtain ⟨id, hid⟩ := Option.ne_none_iff_exists'.mp hung.isChild
    rw [hid] at hparent hitem
    have hthree : 3 ≤ placed.1.length := by omega
    obtain ⟨root', higher, hroot', hhigher, hpath⟩ :=
      hs.chains _ id hparent.symm (by rw [List.length_dropLast]; omega)
    have hhead : placed.1.dropLast.headD [] = placed.1.headD [] := by
      match placed.1, hthree with
      | _ :: _ :: _, _ => rfl
    obtain rfl := Option.some.inj (hroot.symm.trans (hhead ▸ hroot'))
    rw [above_eq_concat hthree hung.above hhigher hparent.symm, ← List.cons_append]
    exact .child hitem (hpath.mono hgrows)

theorem Chained.step (hs : Chained roots start s)
    (hne : placed.1 ≠ []) (hroots : 2 ≤ placed.1.length → ∀ root,
      lookup PlmxmlInstance.bomLine (bomLine (placed.1.headD [])) roots = some root →
      Below s.projected root.instanceId none)
    (h : place limits roots s placed = .ok s') : Chained roots start s' := by
  obtain ⟨-, root, hroot, hcases⟩ := place_ok h
  have hpos := List.length_pos_iff.mpr hne
  rcases hcases with ⟨hlength, hprojected, hpaths⟩ | ⟨hlength, item, above, hung⟩
  · refine ⟨fun path id hid hlong => ?_, ?_⟩
    · have hother : placed.1 ≠ path := by
        rintro rfl
        omega
      rw [Placement.at_concat hpaths, if_neg hother, Option.or_none] at hid
      obtain ⟨root', higher, hroot', hhigher, hpath⟩ := hs.chains path id hid hlong
      exact ⟨root', higher, hroot', hhigher.imp fun _ _ hat => Placement.at_mono hpaths hat, hprojected ▸ hpath⟩
    · rw [hprojected]
      exact hs.items
  · have hlong : 2 ≤ placed.1.length := by omega
    have hpath := hs.leadsTo_hung hroot hlong (hroots hlong root hroot) hung
    have hgrows : ∀ a p, Below s.projected a p → Below s'.projected a p := by
      rw [hung.projected]
      exact fun a p h => h.append
    refine ⟨fun path id hid _ => ?_, fun other hother => ?_⟩
    · rw [Placement.at_concat hung.pathToInstance] at hid
      cases hold : s.at path with
      | some old =>
        rw [hold] at hid
        obtain rfl := Option.some.inj hid
        obtain ⟨root', higher, hroot', hhigher, hlead⟩ := hs.chains path old hold ‹_›
        exact ⟨root', higher, hroot',
          hhigher.imp fun _ _ hat => Placement.at_mono hung.pathToInstance hat, hlead.mono hgrows⟩
      | none =>
        rw [hold, Option.none_or] at hid
        split_ifs at hid with heq
        obtain rfl := Option.some.inj hid
        subst heq
        exact ⟨root, above, hroot, hung.above.imp fun _ _ hat => Placement.at_mono hung.pathToInstance hat, hpath⟩
    · rw [hung.projected] at hother
      rcases List.mem_append.mp hother with hother | hother
      · exact (hs.items other hother).imp_right fun hlead => hlead.mono hgrows
      · obtain rfl := List.mem_singleton.mp hother
        exact .inr (hung.path ▸ hpath)

/-- What holds of all the paths once they are placed. -/
theorem placed_run {rows done : List (List Str × Occurrence)}
    (hrows : ∀ placed ∈ rows, placed.1 ≠ []) (hs : Placed roots start done s)
    (h : rows.foldlM (place limits roots) s = .ok s') : Placed roots start (done ++ rows) s' := by
  induction rows generalizing done s with
  | nil =>
    obtain rfl := Except.ok.inj h
    rwa [List.append_nil]
  | cons placed rows ih =>
    rw [List.foldlM_cons] at h
    obtain ⟨t, ht, h⟩ := bind_eq_ok.mp h
    have hnext := hs.step (hrows placed List.mem_cons_self) ht
    have hrest := ih (fun p hp => hrows p (List.mem_cons_of_mem _ hp)) hnext h
    rwa [List.append_assoc] at hrest

theorem chained_run {rows : List (List Str × Occurrence)}
    (hrows : ∀ placed ∈ rows, placed.1 ≠ []) (hroots : ∀ placed ∈ rows, 2 ≤ placed.1.length →
      ∀ root, lookup PlmxmlInstance.bomLine (bomLine (placed.1.headD [])) roots = some root →
      Below start root.instanceId none)
    (hstart : ∀ a p, Below start a p → Below s.projected a p) (hs : Chained roots start s)
    (h : rows.foldlM (place limits roots) s = .ok s') : Chained roots start s' := by
  induction rows generalizing s with
  | nil => exact Except.ok.inj h ▸ hs
  | cons placed rows ih =>
    rw [List.foldlM_cons] at h
    obtain ⟨t, ht, h⟩ := bind_eq_ok.mp h
    have hgrows : ∀ a p, Below s.projected a p → Below t.projected a p := by
      obtain ⟨-, root, -, ⟨-, hprojected, -⟩ | ⟨-, item, above, hung⟩⟩ := place_ok ht
      · rw [hprojected]
        exact fun _ _ hbelow => hbelow
      · rw [hung.projected]
        exact fun _ _ hbelow => hbelow.append
    have hnext := hs.step (hrows placed List.mem_cons_self) (fun hlong root hroot =>
      hstart _ _ (hroots placed List.mem_cons_self hlong root hroot)) ht
    exact ih (fun p hp => hrows p (List.mem_cons_of_mem _ hp))
      (fun p hp => hroots p (List.mem_cons_of_mem _ hp))
      (fun a p hbelow => hgrows a p (hstart a p hbelow)) hnext h

/-! ## Accepted documents -/

/-- What an accepted document projects to. -/
structure Accepted (document : PlmxmlDocument) (projected items : List PlmxmlInstance) : Prop where
  read : ProjectedForest document projected
  grown : ∃ new, items = projected ++ new
    ∧ (new.map PlmxmlInstance.instanceId).Perm ((nested document).map viewerId)
  hung : ∀ placed ∈ nested document, ∃ root, ∃ item ∈ items, ∃ above,
    lookup PlmxmlInstance.bomLine (bomLine (placed.1.headD [])) (rootByBomLine document projected)
      = some root ∧ item.parentPath = root.instanceId :: above
  chained : (∀ placed ∈ nested document, ∀ root,
      lookup PlmxmlInstance.bomLine (bomLine (placed.1.headD [])) (rootByBomLine document projected)
        = some root → Below projected root.instanceId none) →
    ∀ item ∈ items, item ∈ projected ∨ LeadsTo (Below items) item.parentPath item.instanceId

theorem accepted_of_projectDocument (h : projectDocument limits document = .ok items) :
    ∃ projected, Accepted document projected items := by
  obtain ⟨parents, hparents, h⟩ := bind_eq_ok.mp h
  obtain ⟨-, -, h⟩ := bind_eq_ok.mp h
  obtain ⟨table, htable, h⟩ := bind_eq_ok.mp h
  obtain ⟨projected, hprojected, h⟩ := bind_eq_ok.mp h
  obtain ⟨s, hs, h⟩ := bind_eq_ok.mp h
  obtain rfl := Except.ok.inj h
  have hsorted := List.perm_insertionSort comesBefore (currentState document)
  have hne : ∀ placed ∈ (currentState document).insertionSort comesBefore, placed.1 ≠ [] := by
    intro placed hplaced
    have hin := hsorted.mem_iff.mp hplaced
    rw [currentState, List.mem_filter] at hin
    simpa using hin.2
  have hstart : Placed (rootByBomLine document projected) projected [] { projected } :=
    ⟨⟨[], by simp, by simp⟩, by simp⟩
  have hplaced := placed_run hne hstart hs
  rw [List.nil_append] at hplaced
  obtain ⟨new, hnew, hids⟩ := hplaced.grown
  refine ⟨projected, projected_of_mapM hparents htable hprojected, ⟨new, hnew, ?_⟩, ?_, ?_⟩
  · rw [hids]
    exact (hsorted.filter _).map _
  · intro placed hin
    obtain ⟨hstate, hlong⟩ := List.mem_filter.mp hin
    exact hplaced.hung placed (hsorted.mem_iff.mpr hstate) (by simpa using hlong)
  · intro hroots
    refine (chained_run hne (fun placed hin hlong => ?_) (fun _ _ hbelow => hbelow) ⟨?_, ?_⟩ hs).items
    · exact hroots placed (List.mem_filter.mpr ⟨hsorted.mem_iff.mp hin, by simpa using hlong⟩)
    · intro path id hid
      simp [Placement.at] at hid
    · exact fun item hitem => .inl hitem

section

variable (hnodup : document.ids.Nodup) (h : Accepted document projected items)
include hnodup h

theorem Accepted.distinct_iff : (items.map PlmxmlInstance.instanceId).Nodup ↔
    (∀ placed ∈ nested document, viewerId placed ∉ document.ids) ∧ ((nested document).map viewerId).Nodup := by
  obtain ⟨new, rfl, hperm⟩ := h.grown
  rw [List.map_append, h.read.map_id, (hperm.append_left _).nodup_iff, List.nodup_append]
  constructor
  · rintro ⟨-, hnested, hapart⟩
    exact ⟨fun placed hplaced hin =>
      hapart _ hin _ (List.mem_map_of_mem hplaced) rfl, hnested⟩
  · rintro ⟨hfresh, hnested⟩
    refine ⟨hnodup, hnested, fun a ha b hb heq => ?_⟩
    obtain ⟨placed, hplaced, rfl⟩ := List.mem_map.mp hb
    exact hfresh placed hplaced (heq ▸ ha)

theorem Accepted.forest (hconsistent : Consistent document) : Forest items := by
  have hdistinct := (h.distinct_iff hnodup).mpr ⟨hconsistent.fresh, hconsistent.distinct⟩
  have hmem : ∀ item ∈ projected, item.instanceId ∈ document.ids := by
    intro item hitem
    rw [← h.read.map_id]
    exact List.mem_map_of_mem hitem
  have hgrows : ∀ a p, Below projected a p → Below items a p := by
    obtain ⟨new, rfl, -⟩ := h.grown
    exact fun _ _ hbelow => hbelow.append
  have hroots : ∀ placed ∈ nested document, ∀ root,
      lookup PlmxmlInstance.bomLine (bomLine (placed.1.headD [])) (rootByBomLine document projected)
        = some root → Below projected root.instanceId none := by
    intro placed hplaced root hroot
    have hid := h.read.root_id placed.1
    rw [hroot] at hid
    obtain ⟨i, hi, hsame⟩ := Option.map_eq_some_iff.mp hid.symm
    have hin : i ∈ document.instances :=
      (List.mem_filter.mp (List.mem_reverse.mp (mem_of_lookup hi))).1
    rw [← hsame]
    exact h.read.below (List.mem_map_of_mem hin) (hconsistent.roots placed hplaced i hi)
  refine forest_of_lineages hdistinct fun item hitem => ?_
  rcases h.chained hroots item hitem with hread | hpath
  · have hpath : LeadsTo document.Up item.parentPath item.instanceId := by
      cases hsupplied : document.suppliedPath item.instanceId with
      | none => exact h.read.walked item hread hsupplied
      | some path =>
        rw [h.read.supplied item hread path hsupplied]
        exact hconsistent.paths _ _ hsupplied
    exact (h.read.leadsTo_below (hmem item hread) hpath).mono hgrows
  · exact hpath

theorem Accepted.consistent (hforest : Forest items) : Consistent document := by
  have hdistinct := hforest.distinct
  obtain ⟨hfresh, hnested⟩ := (h.distinct_iff hnodup).mp hdistinct
  obtain ⟨new, hitems, -⟩ := h.grown
  have hread : ∀ item ∈ projected, item ∈ items := by
    rw [hitems]
    exact fun item => List.mem_append_left _
  refine ⟨fun id path hsupplied => ?_, fun placed hplaced root hroot => ?_, hfresh, hnested⟩
  · have hid := h.read.leaves id path hsupplied
    obtain ⟨item, hitem, rfl⟩ := List.mem_map.mp (h.read.map_id.symm ▸ hid)
    rw [← h.read.supplied item hitem path hsupplied]
    subst hitems
    exact h.read.leadsTo_up hdistinct hid (hforest.leadsTo (hread item hitem))
  · obtain ⟨root', item, hitem, above, hroot', hpath⟩ := h.hung placed hplaced
    have hsame := h.read.root_id placed.1
    rw [hroot, hroot'] at hsame
    have hsame : root'.instanceId = root.id := Option.some.inj hsame
    have hin : root ∈ document.instances :=
      (List.mem_filter.mp (List.mem_reverse.mp (mem_of_lookup hroot))).1
    have hlead := hforest.leadsTo hitem
    rw [hpath, hsame] at hlead
    subst hitems
    exact h.read.up_of_below hdistinct (List.mem_map_of_mem hin) hlead.head_root

omit hnodup in
/-- No instance is above itself where items form a forest. -/
theorem Accepted.not_cyclic (hforest : Forest items) : ¬ document.Cyclic := by
  rintro ⟨a, hcycle⟩
  obtain ⟨p, hlists, -⟩ := TransGen.head'_iff.mp hcycle
  have ha := h.read.listed a p hlists
  obtain ⟨item, hitem, rfl⟩ := List.mem_map.mp (h.read.map_id.symm ▸ ha)
  obtain ⟨new, rfl, -⟩ := h.grown
  have hpath := hforest.leadsTo (List.mem_append_left _ hitem)
  exact (h.read.leadsTo_up hforest.distinct ha hpath).not_transGen h.read.functional hcycle

end

/-- **An accepted document projects to a forest** and has no cycle exactly where it is consistent:
every path from an occurrence goes down from a root along references, and the viewer's occurrences
have new ids and hang under instances that nothing lists. -/
theorem projects_forest_iff {algorithmVersion : Str} {events : List PlmxmlEvent} {s : ParseState}
    {projection : PlmxmlProjection} (hread : readEvents limits events = .ok s)
    (haccepted : parsePlmxml limits algorithmVersion events = .ok projection) :
    Forest projection.instances ∧ ¬ s.document.Cyclic ↔ Consistent s.document := by
  obtain ⟨t, ht, h⟩ := bind_eq_ok.mp haccepted
  obtain rfl := Except.ok.inj (hread.symm.trans ht)
  obtain ⟨items, hitems, h⟩ := bind_eq_ok.mp h
  obtain rfl := Except.ok.inj h
  have hnodup := readEvents_nodup hread
  obtain ⟨projected, haccepted⟩ := accepted_of_projectDocument hitems
  constructor
  · exact fun hforest => haccepted.consistent hnodup hforest.1
  · intro hconsistent
    have hforest := haccepted.forest hnodup hconsistent
    exact ⟨hforest, haccepted.not_cyclic hforest⟩

/-! ## A document with a cycle -/

def element (name : String) (attrs : List (String × String)) : List PlmxmlEvent :=
  [.startElement name.toList (attrs.map fun a => (a.1.toList, a.2.toList)) 0,
    .endElement name.toList]

def eventsOf (elements : List (List PlmxmlEvent)) : List PlmxmlEvent :=
  [.chunk 400 0, .startElement "PLMXML".toList [] 0] ++ elements.flatten
    ++ [.endElement "PLMXML".toList]

theorem exists_of_isOk {ε α : Type} {x : Except ε α} (h : x.isOk = true) : ∃ a, x = .ok a := by
  cases x with
  | error e => cases h
  | ok a => exact ⟨a, rfl⟩

/-- A root with one child, whose occurrence says so. -/
def treeEvents : List PlmxmlEvent :=
  eventsOf [
    element "ProductInstance" [("id", "a"), ("partRef", "#va")],
    element "ProductInstance" [("id", "b"), ("partRef", "#vb")],
    element "ProductRevisionView" [("id", "va"), ("instanceRefs", "b")],
    element "ProductRevisionView" [("id", "vb")],
    element "Occurrence" [("id", "ob"), ("instanceRefs", "#a #b")]]

theorem projects_forest_iff_tree : ∃ s projection, readEvents {} treeEvents = .ok s
    ∧ parsePlmxml {} [] treeEvents = .ok projection
    ∧ (Forest projection.instances ∧ ¬ s.document.Cyclic ↔ Consistent s.document) := by
  have hread : (readEvents {} treeEvents).isOk = true := by decide +kernel
  have haccepted : (parsePlmxml {} [] treeEvents).isOk = true := by decide +kernel
  obtain ⟨s, hs⟩ := exists_of_isOk hread
  obtain ⟨projection, hprojection⟩ := exists_of_isOk haccepted
  exact ⟨s, projection, hs, hprojection, projects_forest_iff hs hprojection⟩

/-- Two instances that list each other, each with an occurrence of its own. -/
def cycleEvents : List PlmxmlEvent :=
  eventsOf [
    element "ProductInstance" [("id", "a"), ("partRef", "#va")],
    element "ProductInstance" [("id", "b"), ("partRef", "#vb")],
    element "ProductRevisionView" [("id", "va"), ("instanceRefs", "b")],
    element "ProductRevisionView" [("id", "vb"), ("instanceRefs", "a")],
    element "Occurrence" [("id", "oa"), ("instanceRefs", "#a")],
    element "Occurrence" [("id", "ob"), ("instanceRefs", "#b")]]

def cycleDocument : PlmxmlDocument where
  instances := [⟨['a'], [], "va".toList, [], []⟩, ⟨['b'], [], "vb".toList, [], []⟩]
  revisions := [⟨"va".toList, [['b']], [], []⟩, ⟨"vb".toList, [['a']], [], []⟩]
  occurrences := [⟨"oa".toList, [['a']], [], []⟩, ⟨"ob".toList, [['b']], [], []⟩]

theorem cycleDocument_cyclic : cycleDocument.Cyclic := by
  have hup : cycleDocument.Lists ['b'] ['a'] :=
    ⟨_, List.mem_cons_of_mem _ List.mem_cons_self, rfl, ⟨"vb".toList, [['a']], [], []⟩,
      by decide +kernel, List.mem_cons_self⟩
  have hdown : cycleDocument.Lists ['a'] ['b'] :=
    ⟨_, List.mem_cons_self, rfl, ⟨"va".toList, [['b']], [], []⟩, by decide +kernel, List.mem_cons_self⟩
  exact ⟨['a'], .tail (.single hup) hdown⟩

/-- Both instances are roots by their paths, and each is the parent of the other. -/
theorem cycle_projected : ∃ s projection, readEvents {} cycleEvents = .ok s
    ∧ parsePlmxml {} [] cycleEvents = .ok projection
    ∧ s.document.Cyclic ∧ ¬ Forest projection.instances := by
  have hread : (readEvents {} cycleEvents).map ParseState.document = .ok cycleDocument := by
    decide +kernel
  have haccepted : (parsePlmxml {} [] cycleEvents).map (fun projection => projection.instances.map
      fun item => (item.instanceId, item.parentInstanceId, item.parentPath))
      = .ok [(['a'], some ['b'], []), (['b'], some ['a'], [])] := by
    decide +kernel
  obtain ⟨s, hs, hdocument⟩ := map_eq_ok.mp hread
  obtain ⟨projection, hprojection, hitems⟩ := map_eq_ok.mp haccepted
  refine ⟨s, projection, hs, hprojection, hdocument ▸ cycleDocument_cyclic, fun hforest => ?_⟩
  have hin : (['a'], some ['b'], []) ∈ projection.instances.map fun item =>
      (item.instanceId, item.parentInstanceId, item.parentPath) := by simp [hitems]
  obtain ⟨item, hitem, hfields⟩ := List.mem_map.mp hin
  obtain ⟨hid, hparent, hpath⟩ : item.instanceId = ['a'] ∧ item.parentInstanceId = some ['b']
      ∧ item.parentPath = [] := by simpa using hfields
  -- its path makes it a root, but it has a parent
  have hlead := hforest.leadsTo hitem
  rw [hpath] at hlead
  have hsame := functional_below hforest.distinct _ _ _ (leadsTo_nil_iff.mp hlead)
    ⟨item, hitem, rfl, hparent⟩
  cases hsame

end Ai00.Simulation
