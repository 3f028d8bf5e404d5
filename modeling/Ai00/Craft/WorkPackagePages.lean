import Ai00.Basic.KeyedRows
import Ai00.Basic.Keyset
import Ai00.Basic.LevelSearch
import Ai00.Craft.NavigationCursor

/-! # Pages of a work package

`BopNavigationRepository.get_work_package_page`. The rows under a line or a station are collected level
by level, put in the order of `(sort_order, gid)`, and cut where the cursor points. A reader that starts
without a cursor and follows `next_cursor` sees every row once and in order, exactly where no page but the
last ends with a row without a sort order (`visitsScope_iff`): such a row is sorted as if it had the
order 0, but a cursor cannot be made of it.

Database texts are compared by code points. Of an entry the model keeps the columns that decide about
pages; cards and links of a page are left out.
-/

namespace Ai00.Craft

open KeyedRows

/-! ## Rows -/

/-- A row of `workmanship_bop_bop_entries`. -/
structure BopEntry where
  gid : Str
  versionGid : Str
  parentGid : Option Str
  nodeType : Str
  sortOrder : Option Binary64
  isDeleted : Bool
deriving DecidableEq

/-- A row of `workmanship_bop_bop_versions`. -/
structure BopVersion where
  gid : Str
  revision : ℕ
  isDeleted : Bool

structure BopDatabase where
  versions : List BopVersion
  entries : List BopEntry

namespace BopDatabase

variable (db : BopDatabase)

def revisionOf (versionGid : Str) : Option ℕ :=
  (db.versions.find? fun row => row.gid = versionGid ∧ row.isDeleted = false).map BopVersion.revision

/-- The entries of a version that are not deleted. -/
def live (versionGid : Str) : List BopEntry :=
  db.entries.filter fun row => row.versionGid = versionGid ∧ row.isDeleted = false

end BopDatabase

/-- The place of a row in the order of pages: `(float(row.get("sort_order") or 0), str(row["gid"]))`. -/
def sortKey (row : BopEntry) : ℚ ×ₗ Points :=
  toLex ((row.sortOrder.map Binary64.toRat).getD 0, Connector.points row.gid)

/-! ## Collecting a scope -/

/-- The query for children, `gid>%s ORDER BY gid LIMIT 201`. -/
def selectChildren (db : BopDatabase) (versionGid : Str) (parents : List Str) (afterGid : Str) : List BopEntry :=
  (Keyset.after BopEntry.gid afterGid (Keyset.arrange BopEntry.gid
    ((db.live versionGid).filter fun row => ∃ parent ∈ parents, row.parentGid = some parent))).take 201

/-- The `while True` loop that reads the children of a batch; the fuel is for the queries. -/
def readBatch (db : BopDatabase) (versionGid : Str) (parents : List Str) : ℕ → Str → List BopEntry
  | 0, _ => []
  | fuel + 1, afterGid =>
    let children := selectChildren db versionGid parents afterGid
    children.take 200 ++
      if children.length ≤ 200 then []
      else (children[199]?.map fun last => readBatch db versionGid parents fuel last.gid).getD []

/-- `pending[offset:offset + 200] for offset in range(0, len(pending), 200)`. -/
def batches (pending : List Str) : List (List Str) :=
  (List.range ((pending.length + 199) / 200)).map fun i => (pending.drop (200 * i)).take 200

/-- The children of a level. Each query but the last of a batch gives 200 rows, so that there are no more
queries than rows. -/
def readLevel (db : BopDatabase) (versionGid : Str) (pending : List BopEntry) : List BopEntry :=
  (batches (pending.map BopEntry.gid)).flatMap fun parents =>
    readBatch db versionGid parents (db.entries.length + 1) []

/-- `rows_by_gid`: the scope and what is under it. Each level but the last has a new row. -/
def collectScope (db : BopDatabase) (versionGid : Str) (scope : BopEntry) : List BopEntry :=
  LevelSearch.search BopEntry.gid (readLevel db versionGid) db.entries.length [scope] [scope]

/-! ## Pages -/

/-- The smallest float. -/
def minSort : Binary64 := ⟨true, 2 ^ 53 - 1, 971, by decide⟩

/-- Whether a row comes after a place; no float comes after a `nan`. -/
def comesAfter (place : PyFloat × Points) (row : BopEntry) : Prop :=
  match place.1 with
  | .finite x => toLex (x.toRat, place.2) < sortKey row
  | .inf negative => negative = true
  | .nan => False

instance (place : PyFloat × Points) : DecidablePred (comesAfter place) := fun row => by
  unfold comesAfter
  split <;> infer_instance

structure WorkPackagePage where
  nodes : List BopEntry
  totalCount : ℕ
  nextCursor : Option Str
deriving DecidableEq

def assertRevision (db : BopDatabase) (versionGid : Str) (revision : ℕ) : Except NavigationError Unit := do
  let current ← found (db.revisionOf versionGid) .versionNotFound
  require (current = revision) .revisionConflict

/-- The query for the full rows of a page, compared with the rows that were read before. -/
def hydratePage (db : BopDatabase) (versionGid : Str) (page : List BopEntry) :
    Except NavigationError (List BopEntry) := do
  if page = [] then return []
  let hydrated := (db.live versionGid).filter fun row => row.gid ∈ page.map BopEntry.gid
  require ((∀ row ∈ hydrated, row.gid ∈ page.map BopEntry.gid)
    ∧ ∀ row ∈ page, row.gid ∈ hydrated.map BopEntry.gid) .revisionConflict
  page.mapM fun row => do
    let full ← found (lookup BopEntry.gid row.gid hydrated) .keyError
    require (full.parentGid = row.parentGid ∧ full.nodeType = row.nodeType ∧ full.sortOrder = row.sortOrder)
      .revisionConflict
    return full

/-- What a scope of a kind is called among the node types. -/
def scopeType (scopeKind : Str) : Option Str :=
  if scopeKind = ['l', 'i', 'n', 'e'] then some "line_process".toList
  else if scopeKind = ['s', 't', 'a', 't', 'i', 'o', 'n'] then some "station_process".toList
  else none

/-- Where a page begins: after the place of the cursor, or before all rows. -/
def cursorPlace (floats : PythonFloats) : Option Str → Except NavigationError (PyFloat × Points)
  | none | some [] => .ok (.finite minSort, [])
  | some (c :: text) => decodeCursor floats (c :: text)

/-- The cursor of the last row of a page, if rows are left. -/
def nextCursor (format : DecimalFormat) (page : List BopEntry) (more : Bool) :
    Except NavigationError (Option Str) :=
  match if more then page.getLast? else none with
  | some last => (encodeCursor format last.sortOrder last.gid).map some
  | none => .ok none

def getWorkPackagePage (floats : PythonFloats) (db : BopDatabase) (versionGid : Str) (revision : ℕ)
    (scopeKind scopeGid : Str) (cursor : Option Str) (pageSize : ℤ) : Except NavigationError WorkPackagePage := do
  let expectedType ← found (scopeType scopeKind) .invalidScopeKind
  require (1 ≤ pageSize ∧ pageSize ≤ 200) .invalidPageSize
  let size := pageSize.toNat
  let place ← cursorPlace floats cursor
  assertRevision db versionGid revision
  let scope ← found (lookup BopEntry.gid scopeGid (db.live versionGid)) .scopeNotFound
  require (scope.nodeType = expectedType) .scopeNotFound
  let scopedRows := Keyset.arrange sortKey (collectScope db versionGid scope)
  let rawNodes := (scopedRows.filter fun row => comesAfter place row).take (size + 1)
  let page ← hydratePage db versionGid (rawNodes.take size)
  assertRevision db versionGid revision
  let nextCursor ← nextCursor floats.toDecimalFormat page (size < rawNodes.length)
  return { nodes := page, totalCount := scopedRows.length, nextCursor }

/-! ## What a scope has -/

def Child (db : BopDatabase) (versionGid : Str) (parent row : BopEntry) : Prop :=
  row ∈ db.live versionGid ∧ row.parentGid = some parent.gid

def InScope (db : BopDatabase) (versionGid : Str) (scope : BopEntry) : BopEntry → Prop :=
  Relation.ReflTransGen (Child db versionGid) scope

/-- The primary key of the entries. -/
def BopDatabase.Keyed (db : BopDatabase) : Prop := (db.entries.map BopEntry.gid).Nodup

variable {db : BopDatabase} {versionGid : Str} {scope row : BopEntry}

theorem BopDatabase.Keyed.eq (h : db.Keyed) {a b : BopEntry} (ha : a ∈ db.entries) (hb : b ∈ db.entries)
    (heq : a.gid = b.gid) : a = b := List.inj_on_of_nodup_map h ha hb heq

theorem mem_of_live (h : row ∈ db.live versionGid) : row ∈ db.entries := (List.mem_filter.mp h).1

/-! ## Reading children -/

theorem nil_lt_iff {gid : Str} : [] < gid ↔ gid ≠ [] := by
  cases gid with
  | nil => simp
  | cons c gid => simp

theorem mem_batches {gid : Str} {pending : List Str} :
    (∃ parents ∈ batches pending, gid ∈ parents) ↔ gid ∈ pending := by
  constructor
  · rintro ⟨parents, hparents, hgid⟩
    obtain ⟨i, -, rfl⟩ := List.mem_map.mp hparents
    exact List.mem_of_mem_drop (List.mem_of_mem_take hgid)
  · intro hgid
    obtain ⟨n, hn, rfl⟩ := List.getElem_of_mem hgid
    refine ⟨_, List.mem_map_of_mem (List.mem_range.mpr (show n / 200 < _ by omega)), ?_⟩
    have hplace : ((pending.drop (200 * (n / 200))).take 200)[n % 200]? = some pending[n] := by
      rw [List.getElem?_take_of_lt (Nat.mod_lt _ (by decide)), List.getElem?_drop,
        show 200 * (n / 200) + n % 200 = n by omega, List.getElem?_eq_getElem hn]
    exact List.mem_of_getElem? hplace

theorem readBatch_eq (hkeyed : db.Keyed) {parents : List Str} {fuel : ℕ} {afterGid : Str}
    (hfuel : (Keyset.after BopEntry.gid afterGid (Keyset.arrange BopEntry.gid
      ((db.live versionGid).filter fun row => ∃ parent ∈ parents, row.parentGid = some parent))).length < fuel) :
    readBatch db versionGid parents fuel afterGid = Keyset.after BopEntry.gid afterGid
      (Keyset.arrange BopEntry.gid
        ((db.live versionGid).filter fun row => ∃ parent ∈ parents, row.parentGid = some parent)) := by
  have hordered : Keyset.Ordered BopEntry.gid (Keyset.arrange BopEntry.gid
      ((db.live versionGid).filter fun row => ∃ parent ∈ parents, row.parentGid = some parent)) := by
    refine Keyset.arrange_ordered (hkeyed.sublist (List.Sublist.map _ ?_))
    exact List.filter_sublist.trans List.filter_sublist
  induction fuel generalizing afterGid with
  | zero => exact absurd hfuel (Nat.not_lt_zero _)
  | succ fuel ih =>
    generalize hrest : Keyset.after BopEntry.gid afterGid (Keyset.arrange BopEntry.gid
      ((db.live versionGid).filter fun row => ∃ parent ∈ parents, row.parentGid = some parent)) = rest
      at hfuel
    have hselect : selectChildren db versionGid parents afterGid = rest.take 201 := by
      rw [selectChildren, hrest]
    rw [readBatch]
    simp only [hselect, List.take_take, List.length_take]
    by_cases hshort : rest.length ≤ 200
    · rw [if_pos (by omega), List.append_nil, List.take_of_length_le (by omega)]
    · have hlength : 199 < rest.length := by omega
      have hlast : rest[199]? = some rest[199] := List.getElem?_eq_getElem hlength
      have hrow : (Keyset.after BopEntry.gid afterGid (Keyset.arrange BopEntry.gid ((db.live versionGid).filter
          fun row => ∃ parent ∈ parents, row.parentGid = some parent)))[199]? = some rest[199] := by
        rw [hrest]
        exact hlast
      have hnext := hordered.after_last hrow
      rw [hrest] at hnext
      rw [if_neg (by omega), List.getElem?_take_of_lt (by decide), hlast, Option.map_some, Option.getD_some,
        ih (by rw [hnext, List.length_drop]; omega), hnext]
      exact List.take_append_drop 200 rest

theorem mem_readLevel (hkeyed : db.Keyed) {pending : List BopEntry} : row ∈ readLevel db versionGid pending
    ↔ ∃ parent ∈ pending, Child db versionGid parent row ∧ row.gid ≠ [] := by
  have hbatch : ∀ parents : List Str, row ∈ readBatch db versionGid parents (db.entries.length + 1) []
      ↔ row ∈ db.live versionGid ∧ (∃ parent ∈ parents, row.parentGid = some parent) ∧ row.gid ≠ [] := by
    intro parents
    rw [readBatch_eq hkeyed, Keyset.mem_after, Keyset.mem_arrange, List.mem_filter, decide_eq_true_eq, nil_lt_iff,
      and_assoc]
    refine Nat.lt_succ_of_le ((List.length_filter_le _ _).trans ?_)
    rw [Keyset.arrange, List.length_insertionSort]
    exact (List.length_filter_le _ _).trans (List.length_filter_le _ _)
  rw [readLevel, List.mem_flatMap]
  constructor
  · rintro ⟨parents, hparents, hrow⟩
    obtain ⟨hlive, ⟨parent, hparent, hof⟩, hne⟩ := (hbatch parents).mp hrow
    obtain ⟨entry, hentry, rfl⟩ := List.mem_map.mp (mem_batches.mp ⟨parents, hparents, hparent⟩)
    exact ⟨entry, hentry, ⟨hlive, hof⟩, hne⟩
  · rintro ⟨parent, hparent, ⟨hlive, hof⟩, hne⟩
    obtain ⟨parents, hparents, hgid⟩ := mem_batches.mpr (List.mem_map_of_mem (f := BopEntry.gid) hparent)
    exact ⟨parents, hparents, (hbatch parents).mpr ⟨hlive, ⟨parent.gid, hgid, hof⟩, hne⟩⟩

/-! ## What is collected -/

def ReadChild (db : BopDatabase) (versionGid : Str) (parent row : BopEntry) : Prop :=
  Child db versionGid parent row ∧ row.gid ≠ []

theorem live_of_read (hscope : scope ∈ db.live versionGid)
    (h : Relation.ReflTransGen (ReadChild db versionGid) scope row) : row ∈ db.live versionGid := by
  induction h with
  | refl => exact hscope
  | tail _ hchild _ => exact hchild.1.1

/-- **What is collected** are the rows that the scope leads to, each once. -/
theorem mem_collectScope (hkeyed : db.Keyed) (hscope : scope ∈ db.live versionGid) :
    (∀ row, row ∈ collectScope db versionGid scope ↔ Relation.ReflTransGen (ReadChild db versionGid) scope row)
    ∧ ((collectScope db versionGid scope).map BopEntry.gid).Nodup := by
  have hlive : ∀ row, Relation.ReflTransGen (ReadChild db versionGid) scope row → row ∈ db.entries :=
    fun row hread => mem_of_live (live_of_read hscope hread)
  refine LevelSearch.search_complete ?_ (fun pending row => mem_readLevel hkeyed) hlive le_rfl
  exact fun a b ha hb => hkeyed.eq (hlive a ha) (hlive b hb)

theorem sortKey_nodup {rows : List BopEntry} (h : (rows.map BopEntry.gid).Nodup) : (rows.map sortKey).Nodup := by
  have hgid : ∀ a b : BopEntry, sortKey a = sortKey b → a.gid = b.gid := by
    intro a b heq
    have hpoints := congrArg (fun key => (ofLex key).2) heq
    exact List.map_injective_iff.mpr (fun c d hcd => Char.toNat_inj.mp hcd) hpoints
  rw [List.Nodup, List.pairwise_map] at h ⊢
  exact h.imp fun hne heq => hne (hgid _ _ heq)

def scopedRows (db : BopDatabase) (versionGid : Str) (scope : BopEntry) : List BopEntry :=
  Keyset.arrange sortKey (collectScope db versionGid scope)

theorem scopedRows_ordered (hkeyed : db.Keyed) (hscope : scope ∈ db.live versionGid) :
    Keyset.Ordered sortKey (scopedRows db versionGid scope) :=
  Keyset.arrange_ordered (sortKey_nodup (mem_collectScope hkeyed hscope).2)

theorem mem_scopedRows (hkeyed : db.Keyed) (hscope : scope ∈ db.live versionGid) :
    row ∈ scopedRows db versionGid scope ↔ Relation.ReflTransGen (ReadChild db versionGid) scope row :=
  Keyset.mem_arrange.trans ((mem_collectScope hkeyed hscope).1 row)

/-! ## One page -/

theorem minSort_le (x : Binary64) : minSort.toRat ≤ x.toRat := by
  have hmant : (x.mant : ℚ) ≤ 2 ^ 53 - 1 := by
    have hlt : x.mant + 1 ≤ 2 ^ 53 := x.canonical.1
    have hcast : ((x.mant + 1 : ℕ) : ℚ) ≤ ((2 ^ 53 : ℕ) : ℚ) := Nat.cast_le.mpr hlt
    push_cast at hcast
    linarith
  have hexp : (2 : ℚ) ^ x.exp ≤ 2 ^ (971 : ℤ) := zpow_le_zpow_right₀ one_le_two x.canonical.2.2.1
  have hpos : (0 : ℚ) < 2 ^ x.exp := zpow_pos two_pos _
  have hbound : (x.mant : ℚ) * 2 ^ x.exp ≤ (2 ^ 53 - 1) * 2 ^ (971 : ℤ) :=
    mul_le_mul hmant hexp hpos.le (by norm_num)
  have hmin : minSort.toRat = -((2 ^ 53 - 1) * 2 ^ (971 : ℤ)) := by
    simp only [minSort, Binary64.toRat, if_true]
    ring
  have habs : -(x.mant * 2 ^ x.exp) ≤ x.toRat := by
    have hnonneg : (0 : ℚ) ≤ x.mant * 2 ^ x.exp := mul_nonneg (Nat.cast_nonneg _) hpos.le
    rw [Binary64.toRat]
    split_ifs <;> linarith
  rw [hmin]
  linarith

theorem minSort_lt (h : row.gid ≠ []) : toLex (minSort.toRat, []) < sortKey row := by
  have hpoints : ([] : Points) < Connector.points row.gid := by
    cases hgid : row.gid with
    | nil => exact absurd hgid h
    | cons c gid => exact List.nil_lt_cons _ _
  have hle : minSort.toRat ≤ (row.sortOrder.map Binary64.toRat).getD 0 := by
    cases row.sortOrder with
    | none =>
      have hzero := minSort_le .zero
      simpa [Binary64.toRat, Binary64.zero] using hzero
    | some x => exact minSort_le x
  rw [sortKey, Prod.Lex.toLex_lt_toLex]
  rcases hle.lt_or_eq with hlt | heq
  · exact .inl hlt
  · exact .inr ⟨heq, hpoints⟩

theorem hydratePage_eq (hkeyed : db.Keyed) {page : List BopEntry} (h : ∀ row ∈ page, row ∈ db.live versionGid) :
    hydratePage db versionGid page = .ok page := by
  rw [hydratePage]
  split_ifs with hnil
  · rw [hnil]
    rfl
  · have hin : ∀ row ∈ page, row ∈ (db.live versionGid).filter fun row => row.gid ∈ page.map BopEntry.gid :=
      fun row hrow => List.mem_filter.mpr ⟨h row hrow, decide_eq_true (List.mem_map_of_mem hrow)⟩
    have hnodup : (((db.live versionGid).filter fun row => row.gid ∈ page.map BopEntry.gid).map BopEntry.gid).Nodup :=
      hkeyed.sublist (List.Sublist.map _ (List.filter_sublist.trans List.filter_sublist))
    rw [require_bind ⟨fun row hrow => of_decide_eq_true (List.mem_filter.mp hrow).2,
      fun row hrow => List.mem_map_of_mem (hin row hrow)⟩]
    have hrows := mapM_eq_map (ε := NavigationError) (g := fun row => row) (l := page) (f := fun row => do
      let full ← found (lookup BopEntry.gid row.gid ((db.live versionGid).filter fun row =>
        row.gid ∈ page.map BopEntry.gid)) NavigationError.keyError
      require (full.parentGid = row.parentGid ∧ full.nodeType = row.nodeType ∧ full.sortOrder = row.sortOrder)
        .revisionConflict
      return full) fun row hrow => by
        rw [found_bind (lookup_of_mem hnodup (hin row hrow)), require_bind ⟨rfl, rfl, rfl⟩]
        rfl
    rw [List.map_id'] at hrows
    exact hrows

/-- A request for the pages of a scope that the revision has. -/
structure Request (db : BopDatabase) (versionGid : Str) (revision : ℕ) (scopeKind scopeGid : Str)
    (scope : BopEntry) (size : ℕ) : Prop where
  keyed : db.Keyed
  current : db.revisionOf versionGid = some revision
  row : lookup BopEntry.gid scopeGid (db.live versionGid) = some scope
  kind : scopeType scopeKind = some scope.nodeType
  given : scopeGid ≠ []
  size : 1 ≤ size ∧ size ≤ 200

variable {floats : PythonFloats} {revision size : ℕ} {scopeKind scopeGid : Str} {cursor : Option Str}

theorem Request.live (h : Request db versionGid revision scopeKind scopeGid scope size) :
    scope ∈ db.live versionGid := mem_of_lookup h.row

/-- **A page** holds the first rows after the place that its cursor points at. -/
theorem getWorkPackagePage_eq (h : Request db versionGid revision scopeKind scopeGid scope size)
    {x : Binary64} {gid : Points} (hplace : cursorPlace floats cursor = .ok (.finite x, gid))
    {rest : List BopEntry}
    (hrest : Keyset.after sortKey (toLex (x.toRat, gid)) (scopedRows db versionGid scope) = rest) :
    getWorkPackagePage floats db versionGid revision scopeKind scopeGid cursor size
      = (nextCursor floats.toDecimalFormat (rest.take size) (size < rest.length)).map fun next =>
          ⟨rest.take size, (scopedRows db versionGid scope).length, next⟩ := by
  have hrevision : assertRevision db versionGid revision = .ok () := by
    rw [assertRevision, found_bind h.current]
    exact require_eq_ok.mpr rfl
  have hfilter : ((scopedRows db versionGid scope).filter fun row => comesAfter (.finite x, gid) row) = rest := by
    rw [← hrest]
    rfl
  have htake : (rest.take (size + 1)).take size = rest.take size := by
    rw [List.take_take, Nat.min_eq_left (Nat.le_succ size)]
  have hmore : (size < (rest.take (size + 1)).length) ↔ (size < rest.length) := by
    rw [List.length_take]
    omega
  have hlive : ∀ row ∈ rest.take size, row ∈ db.live versionGid := by
    intro row hrow
    have hin := List.mem_of_mem_take hrow
    rw [← hrest] at hin
    exact live_of_read h.live ((mem_scopedRows h.keyed h.live).mp (Keyset.mem_after.mp hin).1)
  have hsize : 1 ≤ (size : ℤ) ∧ (size : ℤ) ≤ 200 := by
    have := h.size
    omega
  rw [getWorkPackagePage, found_bind h.kind, require_bind hsize, hplace]
  simp only [ok_bind, hrevision, Int.toNat_natCast]
  rw [found_bind h.row, require_bind rfl]
  simp only [← scopedRows.eq_1, hfilter, htake, hydratePage_eq h.keyed hlive, ok_bind, hmore]
  cases nextCursor floats.toDecimalFormat (rest.take size) (size < rest.length) with
  | ok next => rfl
  | error e => rfl

/-! ## Following the cursors -/

/-- A reader that starts with a cursor and follows `next_cursor` until there is none sees some rows. -/
inductive Followed (floats : PythonFloats) (db : BopDatabase) (versionGid : Str) (revision : ℕ)
    (scopeKind scopeGid : Str) (size : ℕ) : Option Str → List BopEntry → Prop
  | last {cursor : Option Str} {page : WorkPackagePage}
      (h : getWorkPackagePage floats db versionGid revision scopeKind scopeGid cursor size = .ok page)
      (hlast : page.nextCursor = none) :
      Followed floats db versionGid revision scopeKind scopeGid size cursor page.nodes
  | next {cursor : Option Str} {page : WorkPackagePage} {more : Str} {rows : List BopEntry}
      (h : getWorkPackagePage floats db versionGid revision scopeKind scopeGid cursor size = .ok page)
      (hnext : page.nextCursor = some more)
      (hrows : Followed floats db versionGid revision scopeKind scopeGid size (some more) rows) :
      Followed floats db versionGid revision scopeKind scopeGid size cursor (page.nodes ++ rows)

/-- No page but the last ends with a row without a sort order. -/
def CutsOrdered (size : ℕ) (rows : List BopEntry) : Prop :=
  ∀ n row, size ∣ n + 1 → n + 1 < rows.length → rows[n]? = some row → row.sortOrder ≠ none

theorem cutsOrdered_of_short {rows : List BopEntry} (h : rows.length ≤ size) : CutsOrdered size rows := by
  intro n row hdvd hn
  have := Nat.le_of_dvd (Nat.succ_pos n) hdvd
  omega

theorem cutsOrdered_drop {rows : List BopEntry} {last : BopEntry} (hsize : 1 ≤ size)
    (hlast : rows[size - 1]? = some last) (hmore : size < rows.length) :
    CutsOrdered size rows ↔ last.sortOrder ≠ none ∧ CutsOrdered size (rows.drop size) := by
  constructor
  · intro h
    refine ⟨h (size - 1) last (by rw [Nat.sub_add_cancel hsize]) (by omega) hlast, fun n row hdvd hn hrow => ?_⟩
    rw [List.length_drop] at hn
    rw [List.getElem?_drop] at hrow
    have hcut : size ∣ size + n + 1 := by
      rw [Nat.add_assoc]
      exact Nat.dvd_add (Nat.dvd_refl size) hdvd
    exact h (size + n) row hcut (by omega) hrow
  · rintro ⟨hfirst, hrest⟩ n row ⟨k, hk⟩ hn hrow
    cases k with
    | zero => omega
    | succ k =>
      rw [Nat.mul_succ] at hk
      cases k with
      | zero =>
        have hn : n = size - 1 := by omega
        rw [hn, hlast] at hrow
        rwa [← Option.some.inj hrow]
      | succ k =>
        rw [Nat.mul_succ] at hk
        refine hrest (n - size) row ⟨k + 1, by rw [Nat.mul_succ]; omega⟩ (by rw [List.length_drop]; omega) ?_
        rw [List.getElem?_drop, show size + (n - size) = n by omega]
        exact hrow

variable {x : Binary64} {gid : Points} {rest rows : List BopEntry}

theorem getWorkPackagePage_last (h : Request db versionGid revision scopeKind scopeGid scope size)
    (hplace : cursorPlace floats cursor = .ok (.finite x, gid))
    (hrest : Keyset.after sortKey (toLex (x.toRat, gid)) (scopedRows db versionGid scope) = rest)
    (hshort : rest.length ≤ size) :
    getWorkPackagePage floats db versionGid revision scopeKind scopeGid cursor size
      = .ok ⟨rest, (scopedRows db versionGid scope).length, none⟩ := by
  rw [getWorkPackagePage_eq h hplace hrest, List.take_of_length_le hshort, decide_eq_false (Nat.not_lt.mpr hshort)]
  rfl

/-- A page that leaves rows fails if it ends with a row without a sort order; else its cursor points at its
last row. -/
theorem getWorkPackagePage_more (h : Request db versionGid revision scopeKind scopeGid scope size)
    (hplace : cursorPlace floats cursor = .ok (.finite x, gid))
    (hrest : Keyset.after sortKey (toLex (x.toRat, gid)) (scopedRows db versionGid scope) = rest)
    {last : BopEntry} (hlast : rest[size - 1]? = some last) (hmore : size < rest.length) :
    getWorkPackagePage floats db versionGid revision scopeKind scopeGid cursor size
      = (encodeCursor floats.toDecimalFormat last.sortOrder last.gid).map fun more =>
          ⟨rest.take size, (scopedRows db versionGid scope).length, some more⟩ := by
  have hsize := h.size
  have hend : (rest.take size).getLast? = some last := by
    rw [List.getLast?_eq_getElem?, List.length_take, Nat.min_eq_left hmore.le,
      List.getElem?_take_of_lt (by omega)]
    exact hlast
  rw [getWorkPackagePage_eq h hplace hrest, decide_eq_true hmore, nextCursor, if_pos rfl, hend]
  show Except.map _ (Except.map some (encodeCursor floats.toDecimalFormat last.sortOrder last.gid)) = _
  cases encodeCursor floats.toDecimalFormat last.sortOrder last.gid with
  | ok more => rfl
  | error e => rfl

theorem place_of_last (h : Request db versionGid revision scopeKind scopeGid scope size)
    (hrest : Keyset.after sortKey (toLex (x.toRat, gid)) (scopedRows db versionGid scope) = rest)
    {last : BopEntry} (hlast : rest[size - 1]? = some last) {y : Binary64} (hy : last.sortOrder = some y)
    {more : Str} (hmore : encodeCursor floats.toDecimalFormat (some y) last.gid = .ok more) :
    ∃ z : Binary64, cursorPlace floats (some more) = .ok (.finite z, Connector.points last.gid)
      ∧ Keyset.after sortKey (toLex (z.toRat, Connector.points last.gid)) (scopedRows db versionGid scope)
        = rest.drop size := by
  have hsize := h.size
  have hordered := scopedRows_ordered h.keyed h.live
  have hin : last ∈ scopedRows db versionGid scope := by
    have hlastIn := List.mem_of_getElem? hlast
    rw [← hrest] at hlastIn
    exact (Keyset.mem_after.mp hlastIn).1
  have hgid : last.gid ≠ [] := by
    rcases Relation.ReflTransGen.cases_tail ((mem_scopedRows h.keyed h.live).mp hin) with heq | ⟨parent, -, hread⟩
    · rw [heq, key_of_lookup h.row]
      exact h.given
    · exact hread.2
  obtain ⟨z, hdecode, hz⟩ := decodeCursor_encodeCursor hgid hmore
  refine ⟨z, ?_, ?_⟩
  · rw [← hdecode]
    cases more with
    | nil => exact nomatch (hdecode : Except.error _ = Except.ok _)
    | cons c text => rfl
  · have hkey : toLex (z.toRat, Connector.points last.gid) = sortKey last := by
      rw [sortKey, hy, hz]
      rfl
    rw [← hrest] at hlast
    rw [hkey, hordered.after_last hlast, hrest, Nat.sub_add_cancel hsize.1]

/-- **From a place on**, the reader sees the rows after it, if their cuts can be encoded. -/
theorem followed_iff (h : Request db versionGid revision scopeKind scopeGid scope size)
    (hplace : cursorPlace floats cursor = .ok (.finite x, gid))
    (hrest : Keyset.after sortKey (toLex (x.toRat, gid)) (scopedRows db versionGid scope) = rest) :
    Followed floats db versionGid revision scopeKind scopeGid size cursor rows
      ↔ rows = rest ∧ CutsOrdered size rest := by
  have hsize := h.size
  generalize hn : rest.length = n
  induction n using Nat.strong_induction_on generalizing cursor x gid rest rows with
  | _ n ih =>
    subst hn
    by_cases hshort : rest.length ≤ size
    · have hpage := getWorkPackagePage_last h hplace hrest hshort
      constructor
      · rintro (⟨hok, hlast⟩ | ⟨hok, hnext, -⟩)
        · rw [hpage] at hok
          cases hok
          exact ⟨rfl, cutsOrdered_of_short hshort⟩
        · rw [hpage] at hok
          cases hok
          exact nomatch hnext
      · rintro ⟨rfl, -⟩
        exact .last hpage rfl
    · have hmore : size < rest.length := Nat.lt_of_not_le hshort
      have hlast : rest[size - 1]? = some rest[size - 1] := List.getElem?_eq_getElem (by omega)
      have hpage := getWorkPackagePage_more h hplace hrest hlast hmore
      rw [cutsOrdered_drop hsize.1 hlast hmore]
      cases horder : rest[size - 1].sortOrder with
      | none =>
        rw [horder] at hpage
        refine iff_of_false ?_ fun hcuts => hcuts.2.1 rfl
        rintro (⟨hok, -⟩ | ⟨hok, -, -⟩) <;> exact nomatch hpage.symm.trans hok
      | some y =>
        rw [horder] at hpage
        obtain ⟨z, hz, hdrop⟩ := @place_of_last _ _ _ floats _ _ _ _ _ _ _ h hrest _ hlast _ horder _ rfl
        have hshorter : (rest.drop size).length < rest.length := by
          rw [List.length_drop]
          omega
        have hrec := fun rows => @ih (rest.drop size).length hshorter _ _ _ _ rows hz hdrop rfl
        constructor
        · rintro (⟨hok, hnone⟩ | ⟨hok, hnext, hrows⟩)
          · rw [hpage] at hok
            cases hok
            exact nomatch hnone
          · rw [hpage] at hok
            cases hok
            cases hnext
            obtain ⟨rfl, hcuts⟩ := (hrec _).mp hrows
            exact ⟨List.take_append_drop size rest, Option.some_ne_none y, hcuts⟩
        · rintro ⟨rfl, -, hcuts⟩
          have hrows := (hrec _).mpr ⟨rfl, hcuts⟩
          have hfollowed := Followed.next hpage rfl hrows
          rwa [List.take_append_drop] at hfollowed

/-! ## Every row once -/

/-- A reader sees the scope and every row under it, in the order of `(sort_order, gid)`; two rows are at
different places of this order, so that none is seen twice. -/
def VisitsScope (floats : PythonFloats) (db : BopDatabase) (versionGid : Str) (revision : ℕ)
    (scopeKind scopeGid : Str) (size : ℕ) (scope : BopEntry) : Prop :=
  ∃ rows, Followed floats db versionGid revision scopeKind scopeGid size none rows
    ∧ (∀ row, row ∈ rows ↔ InScope db versionGid scope row) ∧ Keyset.Ordered sortKey rows

/-- No row under a scope has an empty gid, and in the order of the rows no page but the last ends with one
that has no sort order. -/
def Pageable (db : BopDatabase) (versionGid : Str) (scope : BopEntry) (size : ℕ) : Prop :=
  (∀ row, InScope db versionGid scope row → row.gid ≠ [])
    ∧ ∀ rows, (∀ row, row ∈ rows ↔ InScope db versionGid scope row) → Keyset.Ordered sortKey rows →
        CutsOrdered size rows

/-- **A scope is paged** to its end, every row once and in order, exactly where it is pageable. -/
theorem visitsScope_iff (h : Request db versionGid revision scopeKind scopeGid scope size) :
    VisitsScope floats db versionGid revision scopeKind scopeGid size scope ↔ Pageable db versionGid scope size := by
  have hgiven : ∀ row, Relation.ReflTransGen (ReadChild db versionGid) scope row → row.gid ≠ [] := by
    intro row hread
    rcases Relation.ReflTransGen.cases_tail hread with heq | ⟨parent, -, hchild⟩
    · rw [heq, key_of_lookup h.row]
      exact h.given
    · exact hchild.2
  have hbegin : Keyset.after sortKey (toLex (minSort.toRat, [])) (scopedRows db versionGid scope)
      = scopedRows db versionGid scope :=
    Keyset.after_eq_self fun row hrow => minSort_lt (hgiven row ((mem_scopedRows h.keyed h.live).mp hrow))
  have hordered := scopedRows_ordered h.keyed h.live
  have hfollowed := fun rows => @followed_iff _ _ _ floats _ _ _ _ none _ _ _ rows h rfl hbegin
  constructor
  · rintro ⟨rows, hrows, hmem, horder⟩
    obtain ⟨rfl, hcuts⟩ := (hfollowed rows).mp hrows
    refine ⟨fun row hrow => hgiven row ((mem_scopedRows h.keyed h.live).mp ((hmem row).mpr hrow)), ?_⟩
    intro others hothers horder'
    rwa [horder'.ext horder fun row => (hothers row).trans (hmem row).symm]
  · rintro ⟨hgids, hcuts⟩
    have hmem : ∀ row, row ∈ scopedRows db versionGid scope ↔ InScope db versionGid scope row := by
      intro row
      rw [mem_scopedRows h.keyed h.live]
      have hle : ReadChild db versionGid ≤ Child db versionGid := fun _ _ hchild => hchild.1
      refine ⟨Relation.ReflTransGen.mono hle scope row, fun hrow => ?_⟩
      induction hrow with
      | refl => exact .refl
      | @tail b c hreach hchild ih => exact ih.tail ⟨hchild, hgids c (hreach.tail hchild)⟩
    exact ⟨_, (hfollowed _).mpr ⟨rfl, hcuts _ hmem hordered⟩, hmem, hordered⟩

def navigationRows (lineOrder : Option Binary64) : BopDatabase where
  versions := [⟨['v'], 7, false⟩]
  entries := [⟨['l'], ['v'], none, "line_process".toList, lineOrder, false⟩,
    ⟨['a'], ['v'], some ['l'], ['p'], some .one, false⟩,
    ⟨['b'], ['v'], some ['a'], ['p'], some ⟨false, 2 ^ 52, -51, by decide⟩, false⟩]

def navigationLine (lineOrder : Option Binary64) : BopEntry :=
  ⟨['l'], ['v'], none, "line_process".toList, lineOrder, false⟩

theorem navigationRows_request (lineOrder : Option Binary64) :
    Request (navigationRows lineOrder) ['v'] 7 ['l', 'i', 'n', 'e'] ['l'] (navigationLine lineOrder) 1 where
  keyed := show List.Nodup [['l'], ['a'], ['b']] by decide
  current := rfl
  row := rfl
  kind := rfl
  given := by decide
  size := by decide

/-- Floats as the standard says. -/
noncomputable def standardFloats : PythonFloats :=
  { Classical.choice (inferInstance : Nonempty DecimalFormat) with
    nearest := fun d => open Classical in if h : ∃ x, Reads d x then .finite h.choose else .inf (d < 0)
    nearest_reads := by
      intro d x hx
      have hex : ∃ x, Reads d x := ⟨x, hx⟩
      exact ⟨hex.choose, dif_pos hex, hex.choose_spec.unique hx⟩
    ofText := fun _ => none }

theorem visitsScope_iff_line : VisitsScope standardFloats (navigationRows (some minSort)) ['v'] 7
    ['l', 'i', 'n', 'e'] ['l'] 1 (navigationLine (some minSort)) := by
  refine (visitsScope_iff (navigationRows_request _)).mpr ?_
  have hrow : ∀ row ∈ (navigationRows (some minSort)).entries, row.gid ≠ [] ∧ row.sortOrder ≠ none := by
    intro row hrow
    simp only [navigationRows, List.mem_cons, List.not_mem_nil, or_false] at hrow
    rcases hrow with rfl | rfl | rfl <;> exact ⟨List.cons_ne_nil _ _, Option.some_ne_none _⟩
  have hin : ∀ row, InScope (navigationRows (some minSort)) ['v'] (navigationLine (some minSort)) row →
      row ∈ (navigationRows (some minSort)).entries := by
    intro row hscope
    rcases Relation.ReflTransGen.cases_tail hscope with rfl | ⟨parent, -, hchild⟩
    · exact List.mem_cons_self
    · exact mem_of_live hchild.1
  refine ⟨fun row hscope => (hrow row (hin row hscope)).1, fun rows hmem _ n row _ _ hplace => ?_⟩
  exact (hrow row (hin row ((hmem row).mp (List.mem_of_getElem? hplace)))).2

/-- A line without a sort order, and one row on a page: the first page raises a `TypeError`. -/
theorem unsortedLine_not_visited :
    Request (navigationRows none) ['v'] 7 ['l', 'i', 'n', 'e'] ['l'] (navigationLine none) 1
      ∧ getWorkPackagePage standardFloats (navigationRows none) ['v'] 7 ['l', 'i', 'n', 'e'] ['l'] none 1
        = .error .typeError
      ∧ ¬ VisitsScope standardFloats (navigationRows none) ['v'] 7 ['l', 'i', 'n', 'e'] ['l'] 1
        (navigationLine none) := by
  have herror : getWorkPackagePage standardFloats (navigationRows none) ['v'] 7 ['l', 'i', 'n', 'e'] ['l'] none 1
      = .error .typeError := by
    decide +kernel
  refine ⟨navigationRows_request none, herror, ?_⟩
  rintro ⟨rows, ⟨hok, -⟩ | ⟨hok, -, -⟩, -, -⟩ <;> exact nomatch herror.symm.trans hok

end Ai00.Craft
