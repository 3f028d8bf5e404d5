import Ai00.Basic.MemoWalk
import Ai00.Craft.WorkPackagePages

/-! # Pages of the outline

`BopNavigationRepository.get_outline_page`. A page shows some of the lines of a version, each with the
numbers of the rows that are counted under it: a row is counted under the first line of the page that
its chain of parents comes to. The chains are followed with a memo; nothing keeps the table free of
orphans and loops.

What is counted is what walks without a memo would count, and where no line lies below another one the
numbers of a line do not depend on the page that shows it (`outline_counts`).
-/

namespace Ai00.Craft

open KeyedRows MemoWalk

/-! ## Groups -/

/-- `_COUNT_NAMES`. -/
inductive CountName where
  | stations | roles | processes | operations | parts | resources
deriving DecidableEq

/-- `_COUNT_GROUP`. -/
def countGroups : List (Str × CountName) :=
  [("station_process".toList, .stations), ("operator_process".toList, .roles), ("process".toList, .processes),
    ("bop_process".toList, .processes), ("operation".toList, .operations), ("bop_steps".toList, .operations),
    ("part".toList, .parts), ("non_standard_part".toList, .parts), ("standard_part".toList, .parts),
    ("support_material".toList, .parts), ("equipment_factory".toList, .resources),
    ("tool_factory".toList, .resources), ("fixture_factory".toList, .resources),
    ("equipment_need".toList, .resources), ("tool_need".toList, .resources), ("fixture_need".toList, .resources)]

def countGroup (nodeType : Str) : Option CountName := countGroups.lookup nodeType

def lineType : Str := "line_process".toList

theorem countGroup_lineType : countGroup lineType = none := by decide

/-! ## Counting -/

/-- The numbers of each line. -/
abbrev Counts : Type := Str → CountName → ℕ

/-- `parents[gid]`, where a row without a parent points to the empty gid; none for a gid without a row. -/
def linkOf (rows : List BopEntry) (gid : Str) : Option Str :=
  (lookup BopEntry.gid gid rows.reverse).map fun row => row.parentGid.getD []

/-- `roots` in the beginning. -/
def lineRoots (lines : List Str) (gid : Str) : Option (Option Str) := if gid ∈ lines then some (some gid) else none

/-- One round of `for row in rows`, with the memo and the numbers. -/
def countRow (table : List BopEntry) (lines : List Str) (state : (Str → Option (Option Str)) × Counts)
    (row : BopEntry) : (Str → Option (Option Str)) × Counts :=
  let (root, roots) := resolve (linkOf table) state.1 (table.length + 1) row.gid
  match countGroup row.nodeType, root with
  | some group, some rootGid =>
    if row.gid ∉ lines ∧ rootGid ∈ lines then
      (roots, fun line name => if line = rootGid ∧ name = group then state.2 line name + 1 else state.2 line name)
    else (roots, state.2)
  | _, _ => (roots, state.2)

/-- The numbers under the lines of a page. -/
def countRows (rows : List BopEntry) (lines : List Str) : Counts :=
  (rows.foldl (countRow rows lines) (lineRoots lines, fun _ _ => 0)).2

/-! ## A page -/

/-- `sort_order > %s OR (sort_order = %s AND gid > %s)`, which no row without a sort order passes. -/
def lineAfter (place : PyFloat × Points) (row : BopEntry) : Prop :=
  row.sortOrder ≠ none ∧ comesAfter place row

instance (place : PyFloat × Points) : DecidablePred (lineAfter place) := fun _ =>
  inferInstanceAs (Decidable (_ ∧ _))

structure OutlineLine where
  row : BopEntry
  counts : CountName → ℕ

structure OutlinePage where
  versionGid : Str
  revision : ℕ
  root : Option BopEntry
  lines : List OutlineLine
  totalLines : ℕ
  nextCursor : Option Str

/-- The order of rows in which one without a sort order comes first. -/
def rootKey (row : BopEntry) : WithBot ℚ ×ₗ Points :=
  toLex ((row.sortOrder.map Binary64.toRat : Option ℚ), Connector.points row.gid)

def getOutlinePage (floats : PythonFloats) (db : BopDatabase) (versionGid : Str) (revision : ℕ)
    (cursor : Option Str) (pageSize : ℤ) : Except NavigationError OutlinePage := do
  require (1 ≤ pageSize ∧ pageSize ≤ 100) .invalidPageSize
  let size := pageSize.toNat
  let place ← cursorPlace floats cursor
  assertRevision db versionGid revision
  let rows := db.live versionGid
  let root := (Keyset.arrange rootKey (rows.filter fun row => row.parentGid = none)).head?
  let rawLines := ((Keyset.arrange sortKey (rows.filter fun row => row.nodeType = lineType)).filter
    fun row => lineAfter place row).take (size + 1)
  let page := rawLines.take size
  let counts := countRows rows (page.map BopEntry.gid)
  assertRevision db versionGid revision
  let nextCursor ← nextCursor floats.toDecimalFormat page (size < rawLines.length)
  return {
    versionGid, revision, root
    lines := page.map fun row => ⟨row, counts row.gid⟩
    totalLines := rows.countP fun row => row.nodeType = lineType
    nextCursor }

/-! ## Counting without a memo -/

/-- A row is counted under a line: it has the group, and the line is the first one of the page on its chain
of parents. -/
def Counted (rows : List BopEntry) (lines : List Str) (line : Str) (name : CountName) (row : BopEntry) : Prop :=
  countGroup row.nodeType = some name ∧ row.gid ∉ lines ∧ First (linkOf rows) (· ∈ lines) row.gid line

open Classical in
/-- The rows that are counted under a line. -/
noncomputable def naiveCount (rows : List BopEntry) (lines : List Str) (line : Str) (name : CountName) : ℕ :=
  rows.countP fun row => Counted rows lines line name row

/-- No line lies below another one. -/
def LinesApart (rows : List BopEntry) : Prop :=
  ∀ a ∈ rows, ∀ b ∈ rows, a.nodeType = lineType → b.nodeType = lineType →
    Relation.ReflTransGen (fun x y => linkOf rows x = some y) a.gid b.gid → a.gid = b.gid

variable {rows table : List BopEntry} {lines : List Str} {row : BopEntry}

theorem mem_of_linkOf {gid : Str} (h : linkOf rows gid ≠ none) : gid ∈ rows.map BopEntry.gid := by
  obtain ⟨next, hnext⟩ := Option.ne_none_iff_exists'.mp h
  obtain ⟨row, hrow, -⟩ := Option.map_eq_some_iff.mp hnext
  exact List.mem_map.mpr ⟨row, List.mem_reverse.mp (mem_of_lookup hrow), key_of_lookup hrow⟩

open Classical in
/-- **One round** counts the row where a walk without a memo would. -/
theorem countRow_spec {state : (Str → Option (Option Str)) × Counts}
    (hsound : Sound (linkOf table) (· ∈ lines) state.1) (row : BopEntry) :
    Sound (linkOf table) (· ∈ lines) (countRow table lines state row).1
      ∧ ∀ line name, (countRow table lines state row).2 line name
        = state.2 line name + if Counted table lines line name row then 1 else 0 := by
  have hlength : (table.map BopEntry.gid).length < table.length + 1 := by
    rw [List.length_map]
    omega
  obtain ⟨hroot, hroots⟩ := resolve_sound hsound (fun k => mem_of_linkOf) hlength row.gid
  rw [countRow]
  generalize resolve (linkOf table) state.1 (table.length + 1) row.gid = found at hroot hroots
  obtain ⟨root, roots⟩ := found
  cases hgroup : countGroup row.nodeType with
  | none =>
    refine ⟨hroots, fun line name => ?_⟩
    have hnot : ¬ Counted table lines line name row := by
      rintro ⟨hsome, -, -⟩
      rw [hgroup] at hsome
      cases hsome
    rw [if_neg hnot]
    rfl
  | some group =>
    cases root with
    | none =>
      refine ⟨hroots, fun line name => ?_⟩
      rw [if_neg fun hcounted => nomatch (hroot line).mpr hcounted.2.2]
      rfl
    | some rootGid =>
      have hcounted : ∀ line name, Counted table lines line name row
          ↔ row.gid ∉ lines ∧ line = rootGid ∧ name = group := by
        intro line name
        rw [Counted, hgroup, ← hroot line, Option.some.injEq, Option.some.injEq]
        tauto
      have htarget : rootGid ∈ lines := ((hroot rootGid).mp rfl).is_target
      simp only [htarget, and_true]
      split_ifs with hline
      · refine ⟨hroots, fun line name => ?_⟩
        rw [if_neg fun h => ((hcounted line name).mp h).1 hline]
        rfl
      · refine ⟨hroots, fun line name => ?_⟩
        rw [if_congr ((hcounted line name).trans (and_iff_right hline)) rfl rfl]
        show (if line = rootGid ∧ name = group then _ else _) = _
        split_ifs <;> rfl

open Classical in
/-- **The loop** counts every row once, under the first line on its chain. -/
theorem countRows_eq (rows : List BopEntry) (lines : List Str) (line : Str) (name : CountName) :
    countRows rows lines line name = naiveCount rows lines line name := by
  have hloop : ∀ (rest : List BopEntry) (state : (Str → Option (Option Str)) × Counts),
      Sound (linkOf rows) (· ∈ lines) state.1 →
        (rest.foldl (countRow rows lines) state).2 line name
          = state.2 line name + rest.countP fun row => Counted rows lines line name row := by
    intro rest
    induction rest with
    | nil => exact fun _ _ => rfl
    | cons row rest ih =>
      intro state hsound
      obtain ⟨hnext, hcounts⟩ := countRow_spec hsound row
      rw [List.foldl_cons, ih _ hnext, hcounts, List.countP_cons]
      simp only [decide_eq_true_eq]
      omega
  rw [countRows, hloop rows _ (sound_targets (fun k hk => if_pos hk) fun k hk => if_neg hk), naiveCount]
  exact Nat.zero_add _

theorem counted_iff (hgids : (rows.map BopEntry.gid).Nodup) (hapart : LinesApart rows)
    (hlines : ∀ gid ∈ lines, ∃ row ∈ rows, row.gid = gid ∧ row.nodeType = lineType) {line : Str}
    (hline : line ∈ lines) {name : CountName} (hrow : row ∈ rows) :
    Counted rows lines line name row ↔ countGroup row.nodeType = some name
      ∧ Relation.ReflTransGen (fun x y => linkOf rows x = some y) row.gid line := by
  have htargets : ∀ a b, a ∈ lines → b ∈ lines →
      Relation.ReflTransGen (fun x y => linkOf rows x = some y) a b → a = b := by
    intro a b ha hb hreaches
    obtain ⟨x, hx, rfl, hxline⟩ := hlines a ha
    obtain ⟨y, hy, rfl, hyline⟩ := hlines b hb
    exact hapart x hx y hy hxline hyline hreaches
  rw [Counted, first_iff_reaches htargets hline]
  refine and_congr_right fun hgroup => and_iff_right fun hin => ?_
  -- a line has no group
  obtain ⟨other, hother, hgid, htype⟩ := hlines row.gid hin
  rw [List.inj_on_of_nodup_map hgids hrow hother hgid.symm, htype, countGroup_lineType] at hgroup
  cases hgroup

/-! ## Pages -/

variable {floats : PythonFloats} {db : BopDatabase} {versionGid : Str} {revision : ℕ} {cursor : Option Str} {size : ℤ}
  {page : OutlinePage}

theorem outlinePage_lines (h : getOutlinePage floats db versionGid revision cursor size = .ok page) :
    (∀ line ∈ page.lines, line.row ∈ db.live versionGid ∧ line.row.nodeType = lineType)
      ∧ ∀ line ∈ page.lines, ∀ name, line.counts name = naiveCount (db.live versionGid)
        (page.lines.map fun shown => shown.row.gid) line.row.gid name := by
  obtain ⟨_, -, h⟩ := bind_eq_ok.mp h
  obtain ⟨place, -, h⟩ := bind_eq_ok.mp h
  obtain ⟨_, -, h⟩ := bind_eq_ok.mp h
  obtain ⟨_, -, h⟩ := bind_eq_ok.mp h
  obtain ⟨next, -, h⟩ := bind_eq_ok.mp h
  cases h
  constructor
  · intro line hline
    obtain ⟨row, hrow, rfl⟩ := List.mem_map.mp hline
    have hin := Keyset.mem_arrange.mp (List.mem_filter.mp (List.mem_of_mem_take (List.mem_of_mem_take hrow))).1
    obtain ⟨hrow, htype⟩ := List.mem_filter.mp hin
    exact ⟨hrow, of_decide_eq_true htype⟩
  · intro line hline name
    obtain ⟨row, hrow, rfl⟩ := List.mem_map.mp hline
    rw [List.map_map]
    exact countRows_eq _ _ _ _

open Classical in
/-- **The numbers of an outline page** are those of walks without a memo, and where no line lies below
another one, they are the same on every page that shows the line. -/
theorem outline_counts (hkeyed : db.Keyed) (h : getOutlinePage floats db versionGid revision cursor size = .ok page) :
    (∀ line ∈ page.lines, ∀ name, line.counts name = naiveCount (db.live versionGid)
        (page.lines.map fun shown => shown.row.gid) line.row.gid name)
      ∧ (LinesApart (db.live versionGid) → ∀ (cursor' : Option Str) (size' : ℤ) (page' : OutlinePage),
        getOutlinePage floats db versionGid revision cursor' size' = .ok page' →
          ∀ line ∈ page.lines, ∀ line' ∈ page'.lines, line'.row.gid = line.row.gid → line'.counts = line.counts) := by
  obtain ⟨hlines, hcounts⟩ := outlinePage_lines h
  refine ⟨hcounts, fun hapart cursor' size' page' h' line hline line' hline' hgid => funext fun name => ?_⟩
  obtain ⟨hlines', hcounts'⟩ := outlinePage_lines h'
  have hgids : ((db.live versionGid).map BopEntry.gid).Nodup := (List.filter_sublist.map _).nodup hkeyed
  have hshown : ∀ {shown : List OutlineLine},
      (∀ line ∈ shown, line.row ∈ db.live versionGid ∧ line.row.nodeType = lineType) →
        ∀ gid ∈ shown.map fun shown => shown.row.gid,
          ∃ row ∈ db.live versionGid, row.gid = gid ∧ row.nodeType = lineType := by
    intro shown hshown gid hgid
    obtain ⟨line, hline, rfl⟩ := List.mem_map.mp hgid
    exact ⟨line.row, (hshown line hline).1, rfl, (hshown line hline).2⟩
  rw [hcounts line hline, hcounts' line' hline', hgid, naiveCount, naiveCount]
  refine List.countP_congr fun row hrow => ?_
  rw [decide_eq_true_eq, decide_eq_true_eq,
    counted_iff hgids hapart (hshown hlines') (List.mem_map.mpr ⟨line', hline', hgid⟩) hrow,
    counted_iff hgids hapart (hshown hlines) (List.mem_map_of_mem hline) hrow]

/-- A line with a process, and two rows that are each other's parents. -/
def outlineRows : BopDatabase where
  versions := [⟨['v'], 7, false⟩]
  entries := [⟨['l'], ['v'], none, lineType, some .one, false⟩,
    ⟨['a'], ['v'], some ['l'], "process".toList, none, false⟩,
    ⟨['b'], ['v'], some ['c'], "operation".toList, none, false⟩,
    ⟨['c'], ['v'], some ['b'], "process".toList, none, false⟩]

theorem outline_counts_looped : ∃ page, getOutlinePage standardFloats outlineRows ['v'] 7 none 1 = .ok page
    ∧ (page.lines.map fun line => (line.counts .processes, line.counts .operations)) = [(1, 0)]
    ∧ ∀ line ∈ page.lines, ∀ name, line.counts name = naiveCount (outlineRows.live ['v'])
      (page.lines.map fun shown => shown.row.gid) line.row.gid name := by
  have hnumbers : (getOutlinePage standardFloats outlineRows ['v'] 7 none 1).map (fun page =>
      page.lines.map fun line => (line.counts .processes, line.counts .operations)) = .ok [(1, 0)] := by
    decide +kernel
  cases hpage : getOutlinePage standardFloats outlineRows ['v'] 7 none 1 with
  | error e =>
    rw [hpage] at hnumbers
    cases hnumbers
  | ok page =>
    rw [hpage] at hnumbers
    have hkeyed : outlineRows.Keyed := show List.Nodup [['l'], ['a'], ['b'], ['c']] by decide
    exact ⟨page, rfl, Except.ok.inj hnumbers, (outline_counts hkeyed hpage).1⟩

end Ai00.Craft
