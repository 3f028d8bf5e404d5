import Ai00.Basic.Checks
import Ai00.Basic.KeyedRows
import Ai00.Basic.StackWalk
import Ai00.Json.Value

/-! # Pages of an observed product structure

`domain/product_structure_observation.py` of the simulation plugin. A product structure is observed
page by page, and `validate_observation_pages` puts the pages together: it checks that the pages
follow one another, that the fields of every node are within their limits, and that the nodes are a
forest, a parent being on whatever page.

Pages whose fields are within their limits are accepted exactly if they are `Consecutive` and their
nodes a `DepthForest`, and then what is returned are the nodes in the order of the pages
(`validate_iff`).
-/

namespace Ai00.Simulation

open KeyedRows

/-! ## Data -/

structure GeometryReference where
  datasetUid : Str
  fileUid : Str
  fileName : Str
  relationType : Str
deriving DecidableEq

structure OccurrenceRecord where
  occurrenceId : Str
  parentOccurrenceId : Option Str
  depth : ℤ
  childOrder : ℤ
  transform : Option (List PyFloat)
  absoluteTransform : Option (List PyFloat)
  bbox : Option (List PyFloat)
  geometryRefs : List GeometryReference
deriving DecidableEq

structure ObservationPage where
  cursor : ℤ
  nextCursor : Option ℤ
  nodes : List OccurrenceRecord

inductive ProductStructureError where
  | validation (code : String)
  /-- The call does not return. -/
  | hangs
deriving DecidableEq

/-! ## Fields -/

/-- `_text`. -/
def checkText (value : Str) (code : String) (maximum : ℕ) : Except ProductStructureError Unit :=
  require (value ≠ [] ∧ value.length ≤ maximum) (.validation code)

def checkReference (ref : GeometryReference) : Except ProductStructureError Unit := do
  checkText ref.datasetUid "geometry_reference_invalid" 4096
  checkText ref.fileUid "geometry_reference_invalid" 4096
  checkText ref.fileName "geometry_reference_invalid" 4096
  checkText ref.relationType "geometry_reference_invalid" 128

def checkParent : Option Str → Except ProductStructureError Unit
  | some parent => checkText parent "occurrence_parent_invalid" 4096
  | none => .ok ()

/-- One round of the loop over the nodes, after the check of the id. -/
def checkFields (maxDepth : ℤ) (node : OccurrenceRecord) : Except ProductStructureError Unit := do
  checkParent node.parentOccurrenceId
  require ((0 ≤ node.depth ∧ node.depth ≤ maxDepth) ∧ 0 ≤ node.childOrder)
    (.validation "occurrence_position_invalid")
  require (∀ t ∈ node.transform, t.length = 16) (.validation "occurrence_transform_invalid")
  require (∀ t ∈ node.absoluteTransform, t.length = 16) (.validation "occurrence_transform_invalid")
  require (∀ b ∈ node.bbox, b.length = 6) (.validation "occurrence_bbox_invalid")
  node.geometryRefs.forM checkReference

/-- The loop over the nodes, with those that are in `by_id`. -/
def checkNodes (maxDepth : ℤ) (byId : List OccurrenceRecord) :
    List OccurrenceRecord → Except ProductStructureError Unit
  | [] => .ok ()
  | node :: nodes => do
    checkText node.occurrenceId "occurrence_identity_invalid" 4096
    require (lookup OccurrenceRecord.occurrenceId node.occurrenceId byId = none)
      (.validation "occurrence_identity_duplicate")
    checkFields maxDepth node
    checkNodes maxDepth (byId ++ [node]) nodes

/-! ## Pages -/

/-- The loop over the pages: the nodes of the pages, each of which has the cursor that is expected and
no more than a thousand nodes. -/
def joinPages (expectedCursor : ℤ) : List ObservationPage → Except ProductStructureError (List OccurrenceRecord)
  | [] => .ok []
  | page :: pages => do
    require (page.cursor = expectedCursor ∧ page.nodes.length ≤ 1000) (.validation "observation_cursor_invalid")
    let expectedCursor := expectedCursor + page.nodes.length
    require (page.nextCursor = if pages = [] then none else some expectedCursor)
      (.validation "observation_cursor_invalid")
    let nodes ← joinPages expectedCursor pages
    return page.nodes ++ nodes

/-- `children`. -/
def childrenOf (nodes : List OccurrenceRecord) (parent : Str) : List Str :=
  (nodes.filter fun node => node.parentOccurrenceId = some parent).map OccurrenceRecord.occurrenceId

def rootsOf (nodes : List OccurrenceRecord) : List OccurrenceRecord :=
  nodes.filter fun node => node.parentOccurrenceId = none

def HasParent (nodes : List OccurrenceRecord) (node : OccurrenceRecord) : Prop :=
  ∀ p ∈ node.parentOccurrenceId, ∃ parent ∈ lookup OccurrenceRecord.occurrenceId p nodes,
    node.depth = parent.depth + 1

instance (nodes : List OccurrenceRecord) (node : OccurrenceRecord) : Decidable (HasParent nodes node) := by
  unfold HasParent
  infer_instance

def checkGraph (nodes : List OccurrenceRecord) : Except ProductStructureError Unit := do
  let roots := rootsOf nodes
  require (roots ≠ [] ∧ ∀ root ∈ roots, root.depth = 0) (.validation "occurrence_graph_invalid")
  require (∀ node ∈ nodes, HasParent nodes node) (.validation "occurrence_graph_invalid")
  let visited ← StackWalk.walk (childrenOf nodes) (.validation "occurrence_graph_invalid") .hangs
    (nodes.length + 1) (roots.map OccurrenceRecord.occurrenceId).reverse []
  require (∀ node ∈ nodes, node.occurrenceId ∈ visited) (.validation "occurrence_graph_invalid")

def validateObservationPages (pages : List ObservationPage) (expectedNodes maxNodes maxDepth : ℤ) :
    Except ProductStructureError (List OccurrenceRecord) := do
  require (pages ≠ [] ∧ 1 ≤ expectedNodes ∧ expectedNodes ≤ maxNodes) (.validation "observation_pages_invalid")
  let nodes ← joinPages 0 pages
  require (nodes.length = expectedNodes) (.validation "observation_node_count_mismatch")
  checkNodes maxDepth [] nodes
  checkGraph nodes
  return nodes

/-! ## What the pages are to be -/

def nodesOf (pages : List ObservationPage) : List OccurrenceRecord := pages.flatMap ObservationPage.nodes

/-- A text is there and not too long. -/
def TextWithin (value : Str) (maximum : ℕ) : Prop := value ≠ [] ∧ value.length ≤ maximum

/-- The fields of a node are within their limits. -/
structure FieldsWithin (maxDepth : ℤ) (node : OccurrenceRecord) : Prop where
  identity : TextWithin node.occurrenceId 4096
  parent : ∀ p ∈ node.parentOccurrenceId, TextWithin p 4096
  depth : 0 ≤ node.depth ∧ node.depth ≤ maxDepth
  childOrder : 0 ≤ node.childOrder
  transform : ∀ t ∈ node.transform, t.length = 16
  absoluteTransform : ∀ t ∈ node.absoluteTransform, t.length = 16
  bbox : ∀ b ∈ node.bbox, b.length = 6
  geometryRefs : ∀ ref ∈ node.geometryRefs, TextWithin ref.datasetUid 4096 ∧ TextWithin ref.fileUid 4096
    ∧ TextWithin ref.fileName 4096 ∧ TextWithin ref.relationType 128

/-- The pages and what is expected of them are within their limits. -/
structure PagesWithin (pages : List ObservationPage) (expectedNodes maxNodes maxDepth : ℤ) : Prop where
  expected : 1 ≤ expectedNodes ∧ expectedNodes ≤ maxNodes
  sizes : ∀ page ∈ pages, page.nodes.length ≤ 1000
  nodes : ∀ node ∈ nodesOf pages, FieldsWithin maxDepth node

/-- Each page begins behind the nodes of those before it and names where the next one begins; the last
one names none. -/
structure Consecutive (pages : List ObservationPage) : Prop where
  cursor : ∀ (i : ℕ) (page : ObservationPage), pages[i]? = some page → page.cursor = (nodesOf (pages.take i)).length
  last : ∀ i page, pages[i]? = some page → (page.nextCursor = none ↔ i + 1 = pages.length)
  next : ∀ i page following, pages[i]? = some page → pages[i + 1]? = some following →
    page.nextCursor = some following.cursor

/-- How far a node is from its root. -/
inductive DistanceFromRoot (nodes : List OccurrenceRecord) : OccurrenceRecord → ℕ → Prop
  | root {node : OccurrenceRecord} (hnode : node ∈ nodes) (hroot : node.parentOccurrenceId = none) :
      DistanceFromRoot nodes node 0
  | child {node parent : OccurrenceRecord} {n : ℕ} (hnode : node ∈ nodes)
      (hparent : node.parentOccurrenceId = some parent.occurrenceId)
      (hdistance : DistanceFromRoot nodes parent n) : DistanceFromRoot nodes node (n + 1)

/-- Nodes with ids of their own, each of which has a root above it, at the distance of its depth. -/
structure DepthForest (nodes : List OccurrenceRecord) : Prop where
  ids : (nodes.map OccurrenceRecord.occurrenceId).Nodup
  parents : ∀ node ∈ nodes, ∀ p ∈ node.parentOccurrenceId, ∃ parent ∈ nodes, parent.occurrenceId = p
  depths : ∀ node ∈ nodes, ∃ n : ℕ, DistanceFromRoot nodes node n ∧ node.depth = n

/-! ## Pages that follow one another -/

def Follow (expectedCursor : ℤ) : List ObservationPage → Prop
  | [] => True
  | page :: pages => page.cursor = expectedCursor
      ∧ page.nextCursor = (if pages = [] then none else some (expectedCursor + page.nodes.length))
      ∧ Follow (expectedCursor + page.nodes.length) pages

/-- `Consecutive`, with the first page at some cursor. -/
structure ConsecutiveFrom (start : ℤ) (pages : List ObservationPage) : Prop where
  cursor : ∀ (i : ℕ) (page : ObservationPage), pages[i]? = some page → page.cursor = start + (nodesOf (pages.take i)).length
  last : ∀ i page, pages[i]? = some page → (page.nextCursor = none ↔ i + 1 = pages.length)
  next : ∀ i page following, pages[i]? = some page → pages[i + 1]? = some following →
    page.nextCursor = some following.cursor

variable {pages : List ObservationPage}

theorem consecutiveFrom_iff {start : ℤ} :
    ConsecutiveFrom start pages ↔ Follow start pages := by
  induction pages generalizing start with
  | nil => exact iff_of_true ⟨by simp, by simp, by simp⟩ trivial
  | cons page pages ih =>
    show _ ↔ _ ∧ _ ∧ Follow (start + page.nodes.length) pages
    rw [← ih]
    constructor
    · intro h
      have hfirst : page.cursor = start := by simpa [nodesOf] using h.cursor 0 page rfl
      refine ⟨hfirst, ?_, fun i other hother => ?_, fun i other hother => ?_, fun i other following hother hnext => ?_⟩
      · cases pages with
        | nil => exact (h.last 0 page rfl).mpr rfl
        | cons following pages =>
          have hsecond := h.cursor 1 following rfl
          rw [h.next 0 page following rfl rfl, if_neg (List.cons_ne_nil _ _), hsecond]
          simp [nodesOf]
      · have hcursor := h.cursor (i + 1) other hother
        rw [hcursor, List.take_succ_cons]
        simp [nodesOf, add_assoc]
      · have hlast := h.last (i + 1) other hother
        rw [hlast, List.length_cons]
        omega
      · exact h.next (i + 1) other following hother hnext
    · rintro ⟨hfirst, hnext, h⟩
      refine ⟨fun i other hother => ?_, fun i other hother => ?_, fun i other following hother hfollowing => ?_⟩
      · cases i with
        | zero =>
          cases hother
          simpa [nodesOf] using hfirst
        | succ i =>
          rw [h.cursor i other hother, List.take_succ_cons]
          simp [nodesOf, add_assoc]
      · cases i with
        | zero =>
          cases hother
          rw [hnext]
          cases pages <;> simp
        | succ i =>
          rw [h.last i other hother, List.length_cons]
          omega
      · cases i with
        | zero =>
          cases hother
          have hne : pages ≠ [] := by
            rintro rfl
            cases hfollowing
          rw [hnext, if_neg hne, h.cursor 0 following hfollowing]
          simp [nodesOf]
        | succ i => exact h.next i other following hother hfollowing

theorem consecutive_iff : Consecutive pages ↔ Follow 0 pages := by
  rw [← consecutiveFrom_iff]
  constructor
  · exact fun h => ⟨fun i page hpage => by rw [h.cursor i page hpage, zero_add], h.last, h.next⟩
  · exact fun h => ⟨fun i page hpage => by rw [h.cursor i page hpage, zero_add], h.last, h.next⟩

theorem joinPages_eq_ok {start : ℤ} {nodes : List OccurrenceRecord}
    (hpages : ∀ page ∈ pages, page.nodes.length ≤ 1000) :
    joinPages start pages = .ok nodes ↔ Follow start pages ∧ nodes = nodesOf pages := by
  induction pages generalizing start nodes with
  | nil =>
    constructor
    · intro h
      cases h
      exact ⟨trivial, rfl⟩
    · rintro ⟨-, rfl⟩
      rfl
  | cons page pages ih =>
    obtain ⟨hpage, hpages⟩ := List.forall_mem_cons.mp hpages
    constructor
    · intro h
      obtain ⟨_, hcursor, h⟩ := bind_eq_ok.mp h
      obtain ⟨_, hnext, h⟩ := bind_eq_ok.mp h
      obtain ⟨rest, hrest, h⟩ := bind_eq_ok.mp h
      cases h
      obtain ⟨hfollow, rfl⟩ := (ih hpages).mp hrest
      exact ⟨⟨(require_eq_ok.mp hcursor).1, require_eq_ok.mp hnext, hfollow⟩, rfl⟩
    · rintro ⟨⟨hcursor, hnext, hfollow⟩, rfl⟩
      rw [joinPages, require_bind ⟨hcursor, hpage⟩, require_bind hnext, (ih hpages).mpr ⟨hfollow, rfl⟩]
      rfl

/-! ## Nodes -/

variable {maxDepth : ℤ} {nodes byId : List OccurrenceRecord} {node parent : OccurrenceRecord}

theorem checkText_ok {value : Str} {maximum : ℕ} {code : String} (h : TextWithin value maximum) :
    checkText value code maximum = .ok () := if_pos h

theorem checkFields_ok (h : FieldsWithin maxDepth node) : checkFields maxDepth node = .ok () := by
  have hrefs : node.geometryRefs.forM checkReference = .ok () := by
    have hrefs := h.geometryRefs
    generalize node.geometryRefs = refs at hrefs
    induction refs with
    | nil => rfl
    | cons ref refs ih =>
      obtain ⟨⟨hdataset, hfile, hname, hrelation⟩, hrest⟩ := List.forall_mem_cons.mp hrefs
      have href : checkReference ref = .ok () := by
        rw [checkReference, checkText_ok hdataset, ok_bind, checkText_ok hfile, ok_bind, checkText_ok hname, ok_bind,
          checkText_ok hrelation]
      show (do checkReference ref; refs.forM checkReference) = _
      rw [href, ok_bind]
      exact ih hrest
  have hparent_ok : checkParent node.parentOccurrenceId = .ok () := by
    cases hparent : node.parentOccurrenceId with
    | none => rfl
    | some parent => exact checkText_ok (h.parent parent hparent)
  rw [checkFields, hparent_ok, ok_bind, require_bind ⟨h.depth, h.childOrder⟩, require_bind h.transform,
    require_bind h.absoluteTransform, require_bind h.bbox, hrefs]

/-- With fields within their limits, the loop over the nodes only refuses an id that comes twice. -/
theorem checkNodes_eq_ok (hfields : ∀ node ∈ nodes, FieldsWithin maxDepth node)
    (hbyId : (byId.map OccurrenceRecord.occurrenceId).Nodup) :
    checkNodes maxDepth byId nodes = .ok () ↔ ((byId ++ nodes).map OccurrenceRecord.occurrenceId).Nodup := by
  induction nodes generalizing byId with
  | nil =>
    rw [List.append_nil]
    exact iff_of_true rfl hbyId
  | cons node nodes ih =>
    obtain ⟨hnode, hnodes⟩ := List.forall_mem_cons.mp hfields
    rw [checkNodes, checkText_ok hnode.identity, ok_bind]
    by_cases hnew : lookup OccurrenceRecord.occurrenceId node.occurrenceId byId = none
    · have hnotIn : node.occurrenceId ∉ byId.map OccurrenceRecord.occurrenceId := by
        rintro hin
        obtain ⟨other, hother, heq⟩ := List.mem_map.mp hin
        exact lookup_eq_none_iff.mp hnew other hother heq
      have hnext : ((byId ++ [node]).map OccurrenceRecord.occurrenceId).Nodup := by
        rw [List.map_append, List.map_singleton, ← List.concat_eq_append, List.nodup_concat]
        exact ⟨hnotIn, hbyId⟩
      rw [require_bind hnew, checkFields_ok hnode, ok_bind, ih hnodes hnext, List.append_assoc,
        List.singleton_append]
    · have hrefuse : require (lookup OccurrenceRecord.occurrenceId node.occurrenceId byId = none)
          (ProductStructureError.validation "occurrence_identity_duplicate")
            = .error (.validation "occurrence_identity_duplicate") := if_neg hnew
      rw [hrefuse]
      refine iff_of_false (fun h => nomatch h) fun hnodup => hnew (lookup_eq_none_iff.mpr fun other hother heq => ?_)
      rw [List.map_append, List.nodup_append'] at hnodup
      exact hnodup.2.2 (List.mem_map_of_mem hother) (heq ▸ List.mem_map_of_mem List.mem_cons_self)

/-! ## The graph -/

theorem DistanceFromRoot.mem {n : ℕ} (h : DistanceFromRoot nodes node n) : node ∈ nodes := by
  cases h with
  | root hnode _ => exact hnode
  | child hnode _ _ => exact hnode

theorem DistanceFromRoot.exists_root {n : ℕ} (h : DistanceFromRoot nodes node n) :
    ∃ root ∈ nodes, root.parentOccurrenceId = none := by
  induction h with
  | root hnode hroot => exact ⟨_, hnode, hroot⟩
  | child _ _ _ ih => exact ih

theorem DistanceFromRoot.unique (hids : (nodes.map OccurrenceRecord.occurrenceId).Nodup) {m n : ℕ}
    (hm : DistanceFromRoot nodes node m) (hn : DistanceFromRoot nodes node n) : m = n := by
  induction hm generalizing n with
  | root _ hroot =>
    cases hn with
    | root _ _ => rfl
    | child _ hparent _ =>
      rw [hroot] at hparent
      cases hparent
  | @child node parent m _ hparent hdistance ih =>
    cases hn with
    | root _ hroot =>
      rw [hroot] at hparent
      cases hparent
    | @child _ other n _ hother hdistance' =>
      have hid := Option.some.inj (hparent.symm.trans hother)
      have hsame : parent = other := by
        have hfound := lookup_of_mem hids hdistance.mem
        rw [hid, lookup_of_mem hids hdistance'.mem] at hfound
        exact (Option.some.inj hfound).symm
      rw [ih (hsame ▸ hdistance')]

/-- **Depths that count from the parents are distances.** -/
theorem depthForest_of_parents (hids : (nodes.map OccurrenceRecord.occurrenceId).Nodup)
    (hdepths : ∀ node ∈ nodes, 0 ≤ node.depth)
    (hroots : ∀ node ∈ nodes, node.parentOccurrenceId = none → node.depth = 0)
    (hparents : ∀ node ∈ nodes, HasParent nodes node) : DepthForest nodes where
  ids := hids
  parents node hnode p hp := by
    obtain ⟨parent, hparent, -⟩ := hparents node hnode p hp
    exact ⟨parent, mem_of_lookup hparent, key_of_lookup hparent⟩
  depths node hnode := by
    induction hdepth : node.depth.toNat using Nat.strong_induction_on generalizing node with
    | _ n hlower =>
      cases hparentId : node.parentOccurrenceId with
      | none => exact ⟨0, .root hnode hparentId, hroots node hnode hparentId⟩
      | some p =>
        obtain ⟨parent, hparent, hstep⟩ := hparents node hnode p hparentId
        have hmem := mem_of_lookup hparent
        have hpos := hdepths parent hmem
        obtain ⟨m, hdistance, hm⟩ := hlower parent.depth.toNat (by omega) parent hmem rfl
        refine ⟨m + 1, .child hnode ?_ hdistance, by omega⟩
        rw [hparentId, key_of_lookup hparent]

theorem DepthForest.hasParent (h : DepthForest nodes) : ∀ node ∈ nodes, HasParent nodes node := by
  intro node hnode p hp
  obtain ⟨n, hdistance, hdepth⟩ := h.depths node hnode
  cases hdistance with
  | root _ hroot =>
    rw [Option.mem_def, hroot] at hp
    cases hp
  | @child _ parent n _ hparent hdistance =>
    have hid : parent.occurrenceId = p := Option.some.inj (hparent.symm.trans hp)
    obtain ⟨m, hm, hparentDepth⟩ := h.depths parent hdistance.mem
    refine ⟨parent, hid ▸ lookup_of_mem h.ids hdistance.mem, ?_⟩
    rw [hdepth, hparentDepth, hm.unique h.ids hdistance]
    push_cast
    rfl

theorem forest_of_hasParent (hids : (nodes.map OccurrenceRecord.occurrenceId).Nodup)
    (hdepths : ∀ node ∈ nodes, 0 ≤ node.depth) (hparents : ∀ node ∈ nodes, HasParent nodes node) :
    StackWalk.Forest (nodes.map OccurrenceRecord.occurrenceId)
      (fun id => (lookup OccurrenceRecord.occurrenceId id nodes).bind OccurrenceRecord.parentOccurrenceId)
      (childrenOf nodes)
      (fun id => ((lookup OccurrenceRecord.occurrenceId id nodes).map fun node => node.depth.toNat).getD 0) where
  mem_children a b := by
    rw [childrenOf, List.mem_map]
    constructor
    · rintro ⟨node, hnode, rfl⟩
      obtain ⟨hnode, hparent⟩ := List.mem_filter.mp hnode
      refine ⟨List.mem_map_of_mem hnode, ?_⟩
      rw [lookup_of_mem hids hnode]
      exact of_decide_eq_true hparent
    · rintro ⟨hin, hparent⟩
      obtain ⟨node, hnode, rfl⟩ := List.mem_map.mp hin
      rw [lookup_of_mem hids hnode] at hparent
      exact ⟨node, List.mem_filter.mpr ⟨hnode, decide_eq_true hparent⟩, rfl⟩
  nodup a := (List.filter_sublist.map _).nodup hids
  parents a ha b hb := by
    obtain ⟨node, hnode, rfl⟩ := List.mem_map.mp ha
    rw [lookup_of_mem hids hnode] at hb ⊢
    obtain ⟨parent, hparent, hdepth⟩ := hparents node hnode b hb
    have hmem := mem_of_lookup hparent
    have hpos := hdepths parent hmem
    refine ⟨List.mem_map.mpr ⟨parent, hmem, key_of_lookup hparent⟩, ?_⟩
    rw [Option.mem_def.mp hparent]
    show parent.depth.toNat < node.depth.toNat
    omega

theorem checkGraph_eq_ok (hids : (nodes.map OccurrenceRecord.occurrenceId).Nodup) (hne : nodes ≠ [])
    (hdepths : ∀ node ∈ nodes, 0 ≤ node.depth) : checkGraph nodes = .ok () ↔ DepthForest nodes := by
  have hmemRoots : ∀ node, node ∈ rootsOf nodes ↔ node ∈ nodes ∧ node.parentOccurrenceId = none := fun node => by
    rw [rootsOf, List.mem_filter, decide_eq_true_eq]
  constructor
  · intro h
    obtain ⟨_, hroots, h⟩ := bind_eq_ok.mp h
    obtain ⟨_, hparents, -⟩ := bind_eq_ok.mp h
    refine depthForest_of_parents hids hdepths (fun node hnode hroot => ?_) (require_eq_ok.mp hparents)
    exact (require_eq_ok.mp hroots).2 node ((hmemRoots node).mpr ⟨hnode, hroot⟩)
  · intro h
    have hroots : rootsOf nodes ≠ [] ∧ ∀ root ∈ rootsOf nodes, root.depth = 0 := by
      constructor
      · obtain ⟨node, hnode⟩ := List.exists_mem_of_ne_nil nodes hne
        obtain ⟨n, hdistance, -⟩ := h.depths node hnode
        obtain ⟨root, hroot⟩ := hdistance.exists_root
        exact List.ne_nil_of_mem ((hmemRoots root).mpr hroot)
      · intro root hroot
        obtain ⟨hin, hparent⟩ := (hmemRoots root).mp hroot
        obtain ⟨n, hdistance, hdepth⟩ := h.depths root hin
        rw [hdepth, hdistance.unique hids (.root hin hparent)]
        rfl
    have hstack : ∀ a, a ∈ ((rootsOf nodes).map OccurrenceRecord.occurrenceId).reverse
        ↔ a ∈ nodes.map OccurrenceRecord.occurrenceId
          ∧ (lookup OccurrenceRecord.occurrenceId a nodes).bind OccurrenceRecord.parentOccurrenceId = none := by
      intro a
      rw [List.mem_reverse, List.mem_map]
      constructor
      · rintro ⟨root, hroot, rfl⟩
        obtain ⟨hin, hparent⟩ := (hmemRoots root).mp hroot
        exact ⟨List.mem_map_of_mem hin, by rw [lookup_of_mem hids hin]; exact hparent⟩
      · rintro ⟨hin, hparent⟩
        obtain ⟨root, hroot, rfl⟩ := List.mem_map.mp hin
        rw [lookup_of_mem hids hroot] at hparent
        exact ⟨root, (hmemRoots root).mpr ⟨hroot, hparent⟩, rfl⟩
    have hnodup : ((rootsOf nodes).map OccurrenceRecord.occurrenceId).reverse.Nodup :=
      List.nodup_reverse.mpr ((List.filter_sublist.map _).nodup hids)
    have hfuel : (nodes.map OccurrenceRecord.occurrenceId).length < nodes.length + 1 := by
      rw [List.length_map]
      omega
    have hwalks : ∃ visited, StackWalk.walk (childrenOf nodes)
        (ProductStructureError.validation "occurrence_graph_invalid") .hangs (nodes.length + 1)
        ((rootsOf nodes).map OccurrenceRecord.occurrenceId).reverse [] = .ok visited
          ∧ ∀ a ∈ nodes.map OccurrenceRecord.occurrenceId, a ∈ visited :=
      StackWalk.walk_forest (forest_of_hasParent hids hdepths h.hasParent) hstack hnodup hfuel
    obtain ⟨visited, hwalk, hall⟩ := hwalks
    rw [checkGraph, require_bind hroots, require_bind h.hasParent, hwalk]
    exact require_eq_ok.mpr fun node hnode => hall _ (List.mem_map_of_mem hnode)

/-! ## Accepted pages -/

/-- **What `validate_observation_pages` accepts and returns.** -/
theorem validate_iff {expectedNodes maxNodes maxDepth : ℤ}
    (hwithin : PagesWithin pages expectedNodes maxNodes maxDepth) (result : List OccurrenceRecord) :
    validateObservationPages pages expectedNodes maxNodes maxDepth = .ok result
      ↔ (Consecutive pages ∧ (nodesOf pages).length = expectedNodes ∧ DepthForest (nodesOf pages))
        ∧ result = nodesOf pages := by
  have hdepths : ∀ node ∈ nodesOf pages, 0 ≤ node.depth := fun node hnode => (hwithin.nodes node hnode).depth.1
  have hne : ((nodesOf pages).length : ℤ) = expectedNodes → nodesOf pages ≠ [] := by
    intro hcount hnil
    have := hwithin.expected.1
    rw [hnil] at hcount
    simp at hcount
    omega
  have hunique := @checkNodes_eq_ok _ (nodesOf pages) [] hwithin.nodes List.nodup_nil
  rw [List.nil_append] at hunique
  rw [consecutive_iff]
  constructor
  · intro h
    obtain ⟨_, -, h⟩ := bind_eq_ok.mp h
    obtain ⟨nodes, hjoin, h⟩ := bind_eq_ok.mp h
    obtain ⟨_, hcount, h⟩ := bind_eq_ok.mp h
    obtain ⟨_, hnodes, h⟩ := bind_eq_ok.mp h
    obtain ⟨_, hgraph, h⟩ := bind_eq_ok.mp h
    cases h
    obtain ⟨hfollow, rfl⟩ := (joinPages_eq_ok hwithin.sizes).mp hjoin
    have hcount := require_eq_ok.mp hcount
    exact ⟨⟨hfollow, hcount, (checkGraph_eq_ok (hunique.mp hnodes) (hne hcount) hdepths).mp hgraph⟩, rfl⟩
  · rintro ⟨⟨hfollow, hcount, hforest⟩, rfl⟩
    have hpages : pages ≠ [] := by
      rintro rfl
      exact hne hcount rfl
    rw [validateObservationPages, require_bind ⟨hpages, hwithin.expected⟩,
      (joinPages_eq_ok hwithin.sizes).mpr ⟨hfollow, rfl⟩, ok_bind, require_bind hcount, hunique.mpr hforest.ids, ok_bind,
      (checkGraph_eq_ok hforest.ids (hne hcount) hdepths).mpr hforest]
    rfl

def OccurrenceRecord.plain (id : Str) (parent : Option Str) (depth : ℤ) : OccurrenceRecord :=
  ⟨id, parent, depth, 0, none, none, none, []⟩

def childFirst : List ObservationPage :=
  [⟨0, some 1, [.plain ['b'] (some ['a']) 1]⟩, ⟨1, none, [.plain ['a'] none 0]⟩]

theorem validate_iff_childFirst :
    DepthForest (nodesOf childFirst) ∧ nodesOf childFirst = [.plain ['b'] (some ['a']) 1, .plain ['a'] none 0] := by
  have hwithin : PagesWithin childFirst 2 250000 128 := by
    refine ⟨by decide, by decide, fun node hnode => ?_⟩
    have hplain : node = .plain ['b'] (some ['a']) 1 ∨ node = .plain ['a'] none 0 := by
      simpa [nodesOf, childFirst] using hnode
    rcases hplain with rfl | rfl <;> refine ⟨?_, ?_, ?_, ?_, ?_, ?_, ?_, ?_⟩ <;>
      simp [OccurrenceRecord.plain, TextWithin]
  have hok : validateObservationPages childFirst 2 250000 128
      = .ok [.plain ['b'] (some ['a']) 1, .plain ['a'] none 0] := by decide +kernel
  obtain ⟨⟨-, -, hforest⟩, heq⟩ := (validate_iff hwithin _).mp hok
  exact ⟨hforest, heq.symm⟩

end Ai00.Simulation
