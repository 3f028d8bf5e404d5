import Ai00.Migration.SchemaConformance
import Ai00.Migration.TextDefaults

/-! # After the safe differences

Where `diff_schema` finds only safe differences, what they add leaves none exactly if the database reports each
added column and index in the normal form that was expected (`converges_iff`). It does not for a text default that
looks like an SQL expression.
-/

namespace Ai00.Migration

open KeyedRows Regex

/-! ## What is added -/

section

variable (actual : List SnapshotTable) (table : TableSpec)

/-- A column of a table that the database does not have, with or without the table. -/
def LacksColumn (column : ColumnSpec) : Prop :=
  column ∈ byName ColumnSpec.name table.columns
    ∧ ∀ live, lookup SnapshotTable.name table.name actual.reverse = some live →
      lookup SnapshotColumn.name column.name live.columns.reverse = none

/-- An index of a table that the database does not have, with or without the table. -/
def LacksIndex (index : IndexSpec) : Prop :=
  index ∈ byName IndexSpec.name table.indexes
    ∧ ∀ live, lookup SnapshotTable.name table.name actual.reverse = some live →
      lookup SnapshotIndex.name index.name live.indexes.reverse = none

end

def TextDefault (alphabet : Alphabet) (column : ColumnSpec) (value : Str) : Prop :=
  TextType alphabet column.dataType ∧ column.generationExpression = none
    ∧ column.default.map renderedDefault = some (literal value) ∧ '\\' ∉ value

variable {alphabet : Alphabet} (database : Database alphabet)

/-- The database reports what it was told of a column in the normal form that is expected. Of a text default this
says that it is plain. -/
structure ReadsBack (column : ColumnSpec) (definition : ColumnDefinition) : Prop where
  type : normalType alphabet column.dataType = normalType alphabet (database.column definition).columnType
  extra : normalExtra alphabet column.extra = normalExtra alphabet (database.column definition).extra
  expression : normalExpression column.generationExpression
    = normalExpression (some (database.column definition).generationExpression)
  plain : ∀ value, TextDefault alphabet column value → PlainValue value
  default : (∀ value, ¬ TextDefault alphabet column value) →
    normalDefault alphabet column.default column.dataType = liveDefault alphabet column (database.reported definition)

/-- The database reports the lengths of the parts that an index is on. -/
def PrefixesReadBack (table : Str) (index : IndexSpec) : Prop :=
  ∀ value ∈ index.columns, ∀ length, (indexPart value).2 = some length →
    database.prefixLength table (indexPart value).1 length = some length

/-- Every column and index of a table that the database lacks is read back. -/
structure TableReadsBack (actual : List SnapshotTable) (table : TableSpec) : Prop where
  columns : ∀ column, LacksColumn actual table column →
    ∀ definition, columnDefinition column = .ok definition → ReadsBack database column definition
  indexes : ∀ index, LacksIndex actual table index → PrefixesReadBack database table.name index

/-- Everything that the database lacks is read back. -/
def AdditionsReadBack (expected : List TableSpec) (actual : List SnapshotTable) : Prop :=
  ∀ table ∈ byName TableSpec.name expected, TableReadsBack database actual table

/-- Primary keys have the name that a database gives them and are unique, as the compiler of the schema makes
them. -/
def PrimaryKeys (expected : List TableSpec) : Prop :=
  ∀ table ∈ expected, ∀ index ∈ table.indexes, index.primary = true → index.name = primaryName ∧ index.unique = true

instance (expected : List TableSpec) : Decidable (PrimaryKeys expected) :=
  inferInstanceAs (Decidable (∀ _ ∈ _, ∀ _ ∈ _, _ → _ ∧ _))

/-! ## One column, one index -/

variable {database} {column : ColumnSpec} {definition : ColumnDefinition} {index : IndexSpec} {table : Str}

theorem identifier_eq_ok {value name : Str} (h : identifier value = .ok name) :
    name = value ∧ value.all isIdentifierPart = true := by
  obtain ⟨⟨⟩, hrequire, h⟩ := bind_eq_ok.mp h
  exact ⟨(Except.ok.inj h).symm, (require_eq_ok.mp hrequire).2.2⟩

theorem columnDefinition_eq_ok (h : columnDefinition column = .ok definition) :
    definition.name = column.name ∧ definition.nullable = column.nullable ∧ definition.dataType = column.dataType
      ∧ (column.generationExpression = none →
        definition.generated = none ∧ definition.default = column.default.map renderedDefault) := by
  unfold columnDefinition at h
  split at h
  case h_1 expression hgenerated =>
    split at h
    case h_1 =>
      obtain ⟨name, hname, h⟩ := bind_eq_ok.mp h
      obtain rfl := Except.ok.inj h
      exact ⟨(identifier_eq_ok hname).1, rfl, rfl, fun hnone => nomatch hgenerated.symm.trans hnone⟩
    case h_2 => exact nomatch h
  case h_2 =>
    obtain ⟨name, hname, h⟩ := bind_eq_ok.mp h
    obtain rfl := Except.ok.inj h
    exact ⟨(identifier_eq_ok hname).1, rfl, rfl, fun _ => ⟨rfl, rfl⟩⟩

/-- **A column that was added is there as expected** exactly if it is read back. -/
theorem sameColumn_reported_iff (h : columnDefinition column = .ok definition) :
    SameColumn alphabet column (database.reported definition) ↔ ReadsBack database column definition := by
  obtain ⟨-, hnullable, hdataType, hplain⟩ := columnDefinition_eq_ok h
  have htext : ∀ value, TextDefault alphabet column value →
      (normalDefault alphabet column.default column.dataType = liveDefault alphabet column (database.reported definition)
        ↔ PlainValue value) := by
    rintro value ⟨htype, hgenerated, hdefault, hbackslash⟩
    obtain ⟨hnone, hwritten⟩ := hplain hgenerated
    obtain ⟨written, hcolumn, hliteral⟩ := Option.map_eq_some_iff.mp hdefault
    have hreport : (database.reported definition).default = some value :=
      database.value definition value (hdataType.symm ▸ htype) hnone (hwritten.trans hdefault) hbackslash
    have hlive : liveDefault alphabet column (database.reported definition)
        = normalDefault alphabet (some value) column.dataType := by
      rw [liveDefault, if_neg fun hall => hall.1 hgenerated, hreport]
    rw [hcolumn, hlive, sameDefault_iff htype hliteral]
  constructor
  · intro hsame
    exact ⟨hsame.type, hsame.extra, hsame.expression, fun value hvalue => (htext value hvalue).mp hsame.default,
      fun _ => hsame.default⟩
  · intro hreads
    refine ⟨hreads.type, hnullable.symm, ?_, hreads.extra, hreads.expression⟩
    by_cases hvalue : ∃ value, TextDefault alphabet column value
    · obtain ⟨value, hvalue⟩ := hvalue
      exact (htext value hvalue).mpr (hreads.plain value hvalue)
    · exact hreads.default (not_exists.mp hvalue)

theorem addColumn_name {live : SnapshotColumn} (h : database.addColumn column = .ok live) : live.name = column.name := by
  obtain ⟨definition, hdefinition, rfl⟩ := map_eq_ok.mp h
  exact (columnDefinition_eq_ok hdefinition).1

theorem indexColumns_eq {values : List Str} {parts : List (Str × Option ℕ)} (h : values.mapM indexColumn = .ok parts) :
    parts = values.map indexPart ∧ ∀ value ∈ values, '`' ∉ (indexPart value).1 := by
  have hone : ∀ value part, indexColumn value = .ok part → part = indexPart value ∧ '`' ∉ (indexPart value).1 := by
    intro value part hpart
    obtain ⟨name, hname, hpart⟩ := bind_eq_ok.mp hpart
    obtain rfl := Except.ok.inj hpart
    obtain ⟨rfl, hall⟩ := identifier_eq_ok hname
    exact ⟨rfl, fun hmem => absurd (List.all_eq_true.mp hall _ hmem) (by decide)⟩
  have hall := forall₂_of_mapM h
  clear h
  induction hall with
  | nil => exact ⟨rfl, fun value hvalue => absurd hvalue List.not_mem_nil⟩
  | @cons value part values parts hpart hall ih =>
    obtain ⟨rfl, hquote⟩ := hone value part hpart
    exact ⟨by rw [List.map_cons, ← ih.1], List.forall_mem_cons.mpr ⟨hquote, ih.2⟩⟩

theorem addIndex_eq_ok {live : SnapshotIndex} (h : database.addIndex table index = .ok live) :
    (live.name = if index.primary then primaryName else index.name)
      ∧ live.columns = index.columns.map (fun value => (indexPart value).1)
      ∧ live.prefixLengths = index.columns.map (fun value =>
          (indexPart value).2.bind (database.prefixLength table (indexPart value).1))
      ∧ live.unique = (index.primary || index.unique) ∧ live.indexType = btree
      ∧ ∀ value ∈ index.columns, '`' ∉ (indexPart value).1 := by
  obtain ⟨parts, hparts, h⟩ := bind_eq_ok.mp h
  obtain ⟨name, hname, h⟩ := bind_eq_ok.mp h
  obtain rfl := Except.ok.inj h
  obtain ⟨rfl, hquotes⟩ := indexColumns_eq hparts
  refine ⟨?_, ?_, ?_, rfl, rfl, hquotes⟩
  · rw [indexName] at hname
    split_ifs at hname ⊢ with hprimary
    · exact (Except.ok.inj hname).symm
    · exact (identifier_eq_ok hname).1
  · exact List.map_map
  · exact List.map_map

theorem sameIndex_added_iff {live : SnapshotIndex} (h : database.addIndex table index = .ok live)
    (hunique : index.primary = true → index.unique = true) :
    SameIndex index live ↔ PrefixesReadBack database table index := by
  obtain ⟨-, hcolumns, hlengths, hlive, hbtree, hquotes⟩ := addIndex_eq_ok h
  have hnames : (expectedIndex index).1 = live.columns := by
    rw [hcolumns, expectedIndex]
    refine List.map_congr_left fun value hvalue => List.filter_eq_self.mpr fun c hc => ?_
    exact decide_eq_true fun heq => hquotes value hvalue (heq ▸ hc)
  have hparts : (expectedIndex index).2 = live.prefixLengths ↔ PrefixesReadBack database table index := by
    rw [hlengths, expectedIndex, List.map_inj_left]
    refine forall₂_congr fun value _ => ?_
    cases (indexPart value).2 with
    | none => simp
    | some length =>
      simp only [Option.bind_some, Option.some.injEq, forall_eq']
      exact eq_comm
  have hsame : index.unique = live.unique := by
    rw [hlive]
    cases hprimary : index.primary with
    | false => rfl
    | true => rw [hunique hprimary, Bool.or_self]
  rw [← hparts]
  exact ⟨fun hindex => congrArg Prod.snd hindex.parts, fun hsnd => ⟨Prod.ext hnames hsnd, hsame, hbtree⟩⟩

/-! ## The safe differences -/

section

variable {item : SchemaDifference} {t : TableSpec}

theorem lacking_of_manual (h : item.kind.safe = false) :
    lackingTable item = none ∧ lackingColumn item = none ∧ lackingIndex item = none := by
  unfold lackingTable lackingColumn lackingIndex
  revert h
  cases item.kind <;> simp [DifferenceKind.safe]

theorem lacking_missingColumn (h : (missingColumn alphabet table column).kind.safe = true) :
    lackingTable (missingColumn alphabet table column) = none
      ∧ lackingColumn (missingColumn alphabet table column) = some (table, column)
      ∧ lackingIndex (missingColumn alphabet table column) = none := by
  unfold missingColumn at h ⊢
  split_ifs at h ⊢
  · exact nomatch h
  · exact ⟨rfl, rfl, rfl⟩
  · exact ⟨rfl, rfl, rfl⟩
  · exact nomatch h

theorem lacking_missingIndex (h : (missingIndex table index).kind.safe = true) :
    lackingTable (missingIndex table index) = none ∧ lackingColumn (missingIndex table index) = none
      ∧ lackingIndex (missingIndex table index) = some (table, index) := by
  unfold missingIndex at h ⊢
  cases hprimary : index.primary with
  | true =>
    rw [hprimary] at h
    exact nomatch h
  | false => exact ⟨rfl, rfl, rfl⟩

end

section

variable {expected : ExpectedSchema} {actual : SchemaSnapshot} {diff : SchemaDiff} {t : TableSpec}

theorem diffSchema_eq_ok (h : diffSchema alphabet expected actual = .ok diff) :
    expected.databaseName = actual.databaseName ∧ diff.databaseName = expected.databaseName
      ∧ diff.safe.Perm ((differences alphabet expected.tables actual.tables).filter (·.kind.safe))
      ∧ diff.manual.Perm ((differences alphabet expected.tables actual.tables).filter fun item => !item.kind.safe) := by
  unfold diffSchema at h
  split_ifs at h with hname
  · obtain rfl := Except.ok.inj h
    exact ⟨not_not.mp hname, rfl, List.mergeSort_perm _ _, List.mergeSort_perm _ _⟩

theorem diffSchema_empty_iff (hname : expected.databaseName = actual.databaseName) :
    diffSchema alphabet expected actual = .ok ⟨expected.databaseName, [], []⟩
      ↔ differences alphabet expected.tables actual.tables = [] := by
  constructor
  · intro h
    obtain ⟨-, -, hsafe, hmanual⟩ := diffSchema_eq_ok h
    rw [List.eq_nil_iff_forall_not_mem]
    intro item hitem
    cases hkind : item.kind.safe with
    | true => exact List.not_mem_nil (hsafe.mem_iff.mpr (List.mem_filter.mpr ⟨hitem, hkind⟩))
    | false => exact List.not_mem_nil (hmanual.mem_iff.mpr (List.mem_filter.mpr ⟨hitem, by rw [hkind]; rfl⟩))
  · intro h
    simp [diffSchema, hname, h]

theorem table_of_name {live live' : SnapshotTable} {t' : TableSpec} (ht : t ∈ byName TableSpec.name expected.tables)
    (hlook : lookup SnapshotTable.name t.name actual.tables.reverse = some live)
    (ht' : t' ∈ byName TableSpec.name expected.tables) (hname : t'.name = t.name)
    (hlook' : lookup SnapshotTable.name t'.name actual.tables.reverse = some live') : t' = t ∧ live' = live := by
  have hsame : t' = t := List.inj_on_of_nodup_map nodup_dictionary ht' ht hname
  exact ⟨hsame, Option.some.inj (hlook'.symm.trans (hname ▸ hlook))⟩

variable (hsafe : ∀ item ∈ differences alphabet expected.tables actual.tables, item.kind.safe = true)

include hsafe

theorem mem_lackingTables_iff : (∃ item ∈ differences alphabet expected.tables actual.tables, lackingTable item = some t)
    ↔ t ∈ byName TableSpec.name expected.tables
      ∧ lookup SnapshotTable.name t.name actual.tables.reverse = none := by
  constructor
  · rintro ⟨item, hitem, hlacking⟩
    have hkind := hsafe item hitem
    rcases difference_cases hitem with ⟨t', ht', hlook, rfl⟩ | ⟨t', -, live, -, ⟨c, -, -, rfl⟩ | ⟨i, -, -, rfl⟩⟩ | hmanual
    · obtain rfl := Option.some.inj hlacking
      exact ⟨ht', hlook⟩
    · exact nomatch (lacking_missingColumn hkind).1.symm.trans hlacking
    · exact nomatch (lacking_missingIndex hkind).1.symm.trans hlacking
    · exact nomatch (lacking_of_manual hmanual).1.symm.trans hlacking
  · rintro ⟨ht, hlook⟩
    exact ⟨missingTable t, missingTable_mem ht hlook, rfl⟩

variable {live : SnapshotTable} (ht : t ∈ byName TableSpec.name expected.tables)
  (hlook : lookup SnapshotTable.name t.name actual.tables.reverse = some live)

include ht hlook

theorem mem_lackingColumns_iff :
    (∃ item ∈ differences alphabet expected.tables actual.tables, lackingColumn item = some (t.name, column))
      ↔ column ∈ byName ColumnSpec.name t.columns
        ∧ lookup SnapshotColumn.name column.name live.columns.reverse = none := by
  constructor
  · rintro ⟨item, hitem, hlacking⟩
    have hkind := hsafe item hitem
    rcases difference_cases hitem with
      ⟨t', -, -, rfl⟩ | ⟨t', ht', live', hlook', ⟨c, hc, hcolumn, rfl⟩ | ⟨i, -, -, rfl⟩⟩ | hmanual
    · exact nomatch hlacking
    · have hpair := Option.some.inj ((lacking_missingColumn hkind).2.1.symm.trans hlacking)
      obtain ⟨hname, rfl⟩ := Prod.ext_iff.mp hpair
      obtain ⟨rfl, rfl⟩ := table_of_name ht hlook ht' hname hlook'
      exact ⟨hc, hcolumn⟩
    · exact nomatch (lacking_missingIndex hkind).2.1.symm.trans hlacking
    · exact nomatch (lacking_of_manual hmanual).2.1.symm.trans hlacking
  · rintro ⟨hc, hcolumn⟩
    have hitem : missingColumn alphabet t.name column ∈ differences alphabet expected.tables actual.tables :=
      mem_differences_of_table ht hlook (List.mem_append_left _ (missingColumn_mem hc hcolumn))
    exact ⟨_, hitem, (lacking_missingColumn (hsafe _ hitem)).2.1⟩

theorem mem_lackingIndexes_iff :
    (∃ item ∈ differences alphabet expected.tables actual.tables, lackingIndex item = some (t.name, index))
      ↔ index ∈ byName IndexSpec.name t.indexes
        ∧ lookup SnapshotIndex.name index.name live.indexes.reverse = none := by
  constructor
  · rintro ⟨item, hitem, hlacking⟩
    have hkind := hsafe item hitem
    rcases difference_cases hitem with
      ⟨t', -, -, rfl⟩ | ⟨t', ht', live', hlook', ⟨c, -, -, rfl⟩ | ⟨i, hi, hindex, rfl⟩⟩ | hmanual
    · exact nomatch hlacking
    · exact nomatch (lacking_missingColumn hkind).2.2.symm.trans hlacking
    · have hpair := Option.some.inj ((lacking_missingIndex hkind).2.2.symm.trans hlacking)
      obtain ⟨hname, rfl⟩ := Prod.ext_iff.mp hpair
      obtain ⟨rfl, rfl⟩ := table_of_name ht hlook ht' hname hlook'
      exact ⟨hi, hindex⟩
    · exact nomatch (lacking_of_manual hmanual).2.2.symm.trans hlacking
  · rintro ⟨hi, hindex⟩
    have hitem : missingIndex t.name index ∈ differences alphabet expected.tables actual.tables :=
      mem_differences_of_table ht hlook (List.mem_append_right _ (missingIndex_mem hi hindex))
    exact ⟨_, hitem, (lacking_missingIndex (hsafe _ hitem)).2.2⟩

end

/-! ## The rows of one table -/

section

variable {α β ε : Type} {rows : List (Str × α)} {made : List (Str × β)}

theorem mem_rowsOf {a : α} : a ∈ rowsOf table rows ↔ (table, a) ∈ rows := by
  simp only [rowsOf, List.mem_map, List.mem_filter, decide_eq_true_eq]
  constructor
  · rintro ⟨⟨name, b⟩, ⟨hrow, rfl⟩, rfl⟩
    exact hrow
  · exact fun hrow => ⟨(table, a), ⟨hrow, rfl⟩, rfl⟩

theorem rowsOf_mapM {f : Str × α → Except ε (Str × β)} {g : α → Except ε β}
    (hf : ∀ row r, f row = .ok r → r.1 = row.1 ∧ (row.1 = table → g row.2 = .ok r.2)) (h : rows.mapM f = .ok made) :
    (rowsOf table rows).mapM g = .ok (rowsOf table made) := by
  have hall := forall₂_of_mapM h
  clear h
  induction hall with
  | nil => rfl
  | @cons row r rows made hrow hall ih =>
    obtain ⟨hname, hg⟩ := hf row r hrow
    by_cases htable : row.1 = table
    · have hrows : rowsOf table (row :: rows) = row.2 :: rowsOf table rows := by
        rw [rowsOf, List.filter_cons_of_pos (by simpa using htable)]
        rfl
      have hmade : rowsOf table (r :: made) = r.2 :: rowsOf table made := by
        rw [rowsOf, List.filter_cons_of_pos (by simpa using hname.trans htable)]
        rfl
      rw [hrows, hmade, List.mapM_cons, hg htable, ih]
      rfl
    · have hrows : rowsOf table (row :: rows) = rowsOf table rows := by
        rw [rowsOf, List.filter_cons_of_neg (by simpa using htable)]
        rfl
      have hmade : rowsOf table (r :: made) = rowsOf table made := by
        rw [rowsOf, List.filter_cons_of_neg (by simpa [hname] using htable)]
        rfl
      rw [hrows, hmade, ih]

end

/-! ## Tables that were added or extended -/

section

variable {expected : ExpectedSchema} {actual : SchemaSnapshot} {t : TableSpec} {live : SnapshotTable}
  {columns : List (Str × SnapshotColumn)} {indexes : List (Str × SnapshotIndex)}

theorem alterColumn_eq_ok {row : Str × ColumnSpec} {r : Str × SnapshotColumn} (h : database.alterColumn row = .ok r) :
    r.1 = row.1 ∧ (row.1 = table → database.addColumn row.2 = .ok r.2) := by
  obtain ⟨name, hname, h⟩ := bind_eq_ok.mp h
  obtain ⟨live, hlive, h⟩ := bind_eq_ok.mp h
  obtain rfl := Except.ok.inj h
  exact ⟨(identifier_eq_ok hname).1, fun _ => hlive⟩

theorem alterIndex_eq_ok {row : Str × IndexSpec} {r : Str × SnapshotIndex} (h : database.alterIndex row = .ok r) :
    r.1 = row.1 ∧ (row.1 = table → database.addIndex table row.2 = .ok r.2) := by
  obtain ⟨name, hname, h⟩ := bind_eq_ok.mp h
  obtain ⟨live, hlive, h⟩ := bind_eq_ok.mp h
  obtain rfl := Except.ok.inj h
  obtain ⟨rfl, -⟩ := identifier_eq_ok hname
  exact ⟨rfl, fun htable => htable ▸ hlive⟩

theorem createTable_eq_ok (h : database.createTable t = .ok live) : live.name = t.name
    ∧ t.columns.mapM database.addColumn = .ok live.columns
    ∧ t.indexes.mapM (database.addIndex t.name) = .ok live.indexes := by
  obtain ⟨columns, hcolumns, h⟩ := bind_eq_ok.mp h
  obtain ⟨indexes, hindexes, h⟩ := bind_eq_ok.mp h
  obtain ⟨-, -, h⟩ := bind_eq_ok.mp h
  obtain ⟨name, hname, h⟩ := bind_eq_ok.mp h
  obtain rfl := Except.ok.inj h
  exact ⟨(identifier_eq_ok hname).1, hcolumns, hindexes⟩

/-- What was added agrees with what was expected. -/
def AddedColumns (database : Database alphabet) (added : List ColumnSpec) : Prop :=
  ∀ column ∈ added, ∀ live, database.addColumn column = .ok live → SameColumn alphabet column live

def AddedIndexes (database : Database alphabet) (table : Str) (added : List IndexSpec) : Prop :=
  ∀ index ∈ added, ∀ live, database.addIndex table index = .ok live → SameIndex index live

theorem addIndex_name (hprimary : ∀ index ∈ t.indexes, index.primary = true → index.name = primaryName)
    (hindex : index ∈ t.indexes) {added : SnapshotIndex} (h : database.addIndex table index = .ok added) :
    added.name = index.name := by
  rw [(addIndex_eq_ok h).1]
  split_ifs with hkey
  · exact (hprimary index hindex hkey).symm
  · rfl

variable (hprimary : ∀ index ∈ t.indexes, index.primary = true → index.name = primaryName)

include hprimary

theorem sameTable_created_iff (h : database.createTable t = .ok live) : SameTable alphabet t live
    ↔ AddedColumns database (byName ColumnSpec.name t.columns)
      ∧ AddedIndexes database t.name (byName IndexSpec.name t.indexes) := by
  obtain ⟨-, hcolumns, hindexes⟩ := createTable_eq_ok h
  have hc : Reconciled ColumnSpec.name SnapshotColumn.name (SameColumn alphabet) _ _ ↔ _ :=
    reconciled_made_iff hcolumns fun column _ live hlive => addColumn_name hlive
  have hi : Reconciled IndexSpec.name SnapshotIndex.name SameIndex _ _ ↔ _ :=
    reconciled_made_iff hindexes fun index hindex added hadded => addIndex_name hprimary hindex hadded
  exact ⟨fun hsame => ⟨hc.mp hsame.columns, hi.mp hsame.indexes⟩, fun hadded => ⟨hc.mpr hadded.1, hi.mpr hadded.2⟩⟩

theorem sameTable_extend_iff {lackingColumns : List (Str × ColumnSpec)} {lackingIndexes : List (Str × IndexSpec)}
    (hname : live.name = t.name)
    (hsafe : ∀ item ∈ columnDifferences alphabet t.name t.columns live.columns
      ++ indexDifferences t.name t.indexes live.indexes, item.kind.safe = true)
    (hcolumns : lackingColumns.mapM database.alterColumn = .ok columns)
    (hindexes : lackingIndexes.mapM database.alterIndex = .ok indexes)
    (hlackingColumns : ∀ column, (t.name, column) ∈ lackingColumns ↔ column ∈ byName ColumnSpec.name t.columns
      ∧ lookup SnapshotColumn.name column.name live.columns.reverse = none)
    (hlackingIndexes : ∀ index, (t.name, index) ∈ lackingIndexes ↔ index ∈ byName IndexSpec.name t.indexes
      ∧ lookup SnapshotIndex.name index.name live.indexes.reverse = none) :
    SameTable alphabet t (live.extend columns indexes) ↔ AddedColumns database (rowsOf t.name lackingColumns)
      ∧ AddedIndexes database t.name (rowsOf t.name lackingIndexes) := by
  obtain ⟨hknownColumns, hpresentColumns⟩ :=
    columns_of_safe fun item hitem => hsafe item (List.mem_append_left _ hitem)
  obtain ⟨hknownIndexes, hpresentIndexes⟩ :=
    indexes_of_safe fun item hitem => hsafe item (List.mem_append_right _ hitem)
  have hc : Reconciled ColumnSpec.name SnapshotColumn.name (SameColumn alphabet) (byName ColumnSpec.name t.columns)
      (live.columns.map id ++ rowsOf t.name columns) ↔ _ :=
    reconciled_complete_iff nodup_dictionary
      (rowsOf_mapM (fun row r hrow => alterColumn_eq_ok hrow) hcolumns)
      (fun column _ added hadded => addColumn_name hadded) (fun column => mem_rowsOf.trans (hlackingColumns column))
      (fun _ => rfl) hknownColumns
  have hi : Reconciled IndexSpec.name SnapshotIndex.name SameIndex (byName IndexSpec.name t.indexes)
      (live.indexes.map id ++ rowsOf t.name indexes) ↔ _ :=
    reconciled_complete_iff nodup_dictionary
      (rowsOf_mapM (fun row r hrow => alterIndex_eq_ok hrow) hindexes)
      (fun index hindex added hadded => addIndex_name hprimary
        ((mem_upsertAll ((hlackingIndexes index).mp (mem_rowsOf.mp hindex)).1).resolve_right List.not_mem_nil) hadded)
      (fun index => mem_rowsOf.trans (hlackingIndexes index)) (fun _ => rfl) hknownIndexes
  rw [List.map_id] at hc hi
  rw [← hname] at hc hi ⊢
  exact ⟨fun hsame => ⟨(hc.mp hsame.columns).2, (hi.mp hsame.indexes).2⟩,
    fun hadded => ⟨hc.mpr ⟨hpresentColumns, hadded.1⟩, hi.mpr ⟨hpresentIndexes, hadded.2⟩⟩⟩

end

/-! ## Convergence -/

theorem addedColumns_iff {added : List ColumnSpec} : AddedColumns database added
    ↔ ∀ column ∈ added, ∀ definition, columnDefinition column = .ok definition → ReadsBack database column definition := by
  constructor
  · intro h column hcolumn definition hdefinition
    exact (sameColumn_reported_iff hdefinition).mp (h column hcolumn _ (map_eq_ok.mpr ⟨definition, hdefinition, rfl⟩))
  · intro h column hcolumn live hlive
    obtain ⟨definition, hdefinition, rfl⟩ := map_eq_ok.mp hlive
    exact (sameColumn_reported_iff hdefinition).mpr (h column hcolumn definition hdefinition)

theorem addedIndexes_iff {added : List IndexSpec} {made : List SnapshotIndex}
    (hmade : added.mapM (database.addIndex table) = .ok made)
    (hunique : ∀ index ∈ added, index.primary = true → index.unique = true) :
    AddedIndexes database table added ↔ ∀ index ∈ added, PrefixesReadBack database table index := by
  constructor
  · intro h index hindex
    obtain ⟨live, hlive⟩ := exists_of_mapM hmade hindex
    exact (sameIndex_added_iff hlive (hunique index hindex)).mp (h index hindex live hlive)
  · intro h index hindex live hlive
    exact (sameIndex_added_iff hlive (hunique index hindex)).mpr (h index hindex)

variable {expected : ExpectedSchema} {actual done : SchemaSnapshot} {diff : SchemaDiff}

/-- What `completed` returns. -/
theorem completed_eq_ok (h : database.completed actual diff = .ok done) : diff.manual = []
    ∧ ∃ columns indexes tables, (diff.safe.filterMap lackingColumn).mapM database.alterColumn = .ok columns
      ∧ (diff.safe.filterMap lackingIndex).mapM database.alterIndex = .ok indexes
      ∧ (diff.safe.filterMap lackingTable).mapM database.createTable = .ok tables
      ∧ done = { actual with tables := actual.tables.map (SnapshotTable.extend columns indexes) ++ tables } := by
  obtain ⟨⟨⟩, hmanual, h⟩ := bind_eq_ok.mp h
  simp only [bind_eq_ok] at h
  obtain ⟨columns, hcolumns, indexes, hindexes, tables, htables, h⟩ := h
  exact ⟨require_eq_ok.mp hmanual, columns, indexes, tables, hcolumns, hindexes, htables, (Except.ok.inj h).symm⟩

/-- Without manual differences, the rows that the safe ones are about are those that all are about. -/
theorem safe_of_manual (hdiff : diffSchema alphabet expected actual = .ok diff) (hmanual : diff.manual = []) :
    (∀ item ∈ differences alphabet expected.tables actual.tables, item.kind.safe = true)
      ∧ ∀ {γ : Type} (f : SchemaDifference → Option γ) (x : γ), x ∈ diff.safe.filterMap f
        ↔ ∃ item ∈ differences alphabet expected.tables actual.tables, f item = some x := by
  obtain ⟨-, -, hperm, hmanualPerm⟩ := diffSchema_eq_ok hdiff
  have hsafe : ∀ item ∈ differences alphabet expected.tables actual.tables, item.kind.safe = true := by
    intro item hitem
    by_contra hkind
    refine List.not_mem_nil (a := item) (hmanual ▸ hmanualPerm.mem_iff.mpr (List.mem_filter.mpr ⟨hitem, ?_⟩))
    simpa using hkind
  refine ⟨hsafe, fun f x => ?_⟩
  rw [List.mem_filterMap]
  refine exists_congr fun item => and_congr_left fun _ => ?_
  rw [hperm.mem_iff, List.mem_filter]
  exact ⟨fun h => h.1, fun h => ⟨h, hsafe item h⟩⟩

section

variable {columns : List (Str × SnapshotColumn)} {indexes : List (Str × SnapshotIndex)} {t : TableSpec}
  {live : SnapshotTable}

theorem mem_of_byName {ρ : Type} {name : ρ → Str} {rows : List ρ} {row : ρ} (h : row ∈ byName name rows) : row ∈ rows :=
  (mem_upsertAll h).resolve_right List.not_mem_nil

variable (hprimary : ∀ index ∈ t.indexes, index.primary = true → index.name = primaryName ∧ index.unique = true)

include hprimary

theorem created_readsBack_iff (hlook : lookup SnapshotTable.name t.name actual.tables.reverse = none)
    (h : database.createTable t = .ok live) :
    SameTable alphabet t live ↔ TableReadsBack database actual.tables t := by
  obtain ⟨-, -, hindexes⟩ := createTable_eq_ok h
  have hlive : ∀ {p : SnapshotTable → Prop} live,
      lookup SnapshotTable.name t.name actual.tables.reverse = some live → p live :=
    fun live hlive => nomatch hlook.symm.trans hlive
  rw [sameTable_created_iff (fun index hindex hkey => (hprimary index hindex hkey).1) h, addedColumns_iff]
  constructor
  · rintro ⟨hcolumns, hadded⟩
    refine ⟨fun column hcolumn => hcolumns column hcolumn.1, fun index hindex => ?_⟩
    obtain ⟨made, hmade⟩ := exists_of_mapM hindexes (mem_of_byName hindex.1)
    exact (sameIndex_added_iff hmade fun hkey => (hprimary index (mem_of_byName hindex.1) hkey).2).mp
      (hadded index hindex.1 made hmade)
  · intro hreads
    refine ⟨fun column hcolumn => hreads.columns column ⟨hcolumn, hlive⟩, fun index hindex made hmade => ?_⟩
    exact (sameIndex_added_iff hmade fun hkey => (hprimary index (mem_of_byName hindex) hkey).2).mpr
      (hreads.indexes index ⟨hindex, hlive⟩)

theorem extended_readsBack_iff (hdiff : diffSchema alphabet expected actual = .ok diff) (hmanual : diff.manual = [])
    (ht : t ∈ byName TableSpec.name expected.tables)
    (hlook : lookup SnapshotTable.name t.name actual.tables.reverse = some live)
    (hcolumns : (diff.safe.filterMap lackingColumn).mapM database.alterColumn = .ok columns)
    (hindexes : (diff.safe.filterMap lackingIndex).mapM database.alterIndex = .ok indexes) :
    SameTable alphabet t (live.extend columns indexes) ↔ TableReadsBack database actual.tables t := by
  obtain ⟨hsafe, hmem⟩ := safe_of_manual hdiff hmanual
  have hlackingColumns := fun column =>
    (hmem lackingColumn (t.name, column)).trans (mem_lackingColumns_iff hsafe ht hlook)
  have hlackingIndexes := fun index =>
    (hmem lackingIndex (t.name, index)).trans (mem_lackingIndexes_iff hsafe ht hlook)
  have hone : ∀ {p : SnapshotTable → Prop}, (∀ live, lookup SnapshotTable.name t.name actual.tables.reverse = some live
      → p live) ↔ p live := by
    intro p
    rw [hlook]
    exact ⟨fun h => h live rfl, fun h _ heq => Option.some.inj heq ▸ h⟩
  have hunique : ∀ index ∈ rowsOf t.name (diff.safe.filterMap lackingIndex), index.primary = true → index.unique = true :=
    fun index hindex hkey => (hprimary index
      (mem_of_byName ((hlackingIndexes index).mp (mem_rowsOf.mp hindex)).1) hkey).2
  rw [sameTable_extend_iff (fun index hindex hkey => (hprimary index hindex hkey).1) (key_of_lookup hlook)
      (fun item hitem => hsafe item (mem_differences_of_table ht hlook hitem)) hcolumns hindexes hlackingColumns
      hlackingIndexes, addedColumns_iff,
    addedIndexes_iff (rowsOf_mapM (fun row r hrow => alterIndex_eq_ok hrow) hindexes) hunique]
  simp only [mem_rowsOf, hlackingColumns, hlackingIndexes]
  constructor
  · rintro ⟨hc, hi⟩
    exact ⟨fun column hcolumn => hc column ⟨hcolumn.1, hone.mp hcolumn.2⟩,
      fun index hindex => hi index ⟨hindex.1, hone.mp hindex.2⟩⟩
  · intro hreads
    exact ⟨fun column hcolumn => hreads.columns column ⟨hcolumn.1, hone.mpr hcolumn.2⟩,
      fun index hindex => hreads.indexes index ⟨hindex.1, hone.mpr hindex.2⟩⟩

end

theorem conforms_completed_iff (hprimary : PrimaryKeys expected.tables)
    (hdiff : diffSchema alphabet expected actual = .ok diff) (hdone : database.completed actual diff = .ok done) :
    Conforms alphabet expected.tables done.tables ↔ AdditionsReadBack database expected.tables actual.tables := by
  obtain ⟨hmanual, columns, indexes, tables, hcolumns, hindexes, htables, rfl⟩ := completed_eq_ok hdone
  obtain ⟨hsafe, hmem⟩ := safe_of_manual hdiff hmanual
  have hlacking := fun t => (hmem lackingTable t).trans (mem_lackingTables_iff hsafe)
  have hkeys : ∀ t ∈ byName TableSpec.name expected.tables, ∀ index ∈ t.indexes,
      index.primary = true → index.name = primaryName ∧ index.unique = true :=
    fun t ht => hprimary t (mem_of_byName ht)
  have hcomplete : Conforms alphabet expected.tables
      (actual.tables.map (SnapshotTable.extend columns indexes) ++ tables) ↔ _ :=
    reconciled_complete_iff nodup_dictionary htables (fun t _ live h => (createTable_eq_ok h).1) hlacking
      (fun live => rfl) (tables_of_safe hsafe)
  refine hcomplete.trans ?_
  constructor
  · rintro ⟨hextended, hcreated⟩ t ht
    cases hlook : lookup SnapshotTable.name t.name actual.tables.reverse with
    | none =>
      have hlack := (hlacking t).mpr ⟨ht, hlook⟩
      obtain ⟨live, hlive⟩ := exists_of_mapM htables hlack
      exact (created_readsBack_iff (hkeys t ht) hlook hlive).mp (hcreated t hlack live hlive)
    | some live =>
      exact (extended_readsBack_iff (hkeys t ht) hdiff hmanual ht hlook hcolumns hindexes).mp
        (hextended t ht live hlook)
  · intro hreads
    refine ⟨fun t ht live hlook => ?_, fun t hlack live hlive => ?_⟩
    · exact (extended_readsBack_iff (hkeys t ht) hdiff hmanual ht hlook hcolumns hindexes).mpr (hreads t ht)
    · obtain ⟨ht, hlook⟩ := (hlacking t).mp hlack
      exact (created_readsBack_iff (hkeys t ht) hlook hlive).mpr (hreads t ht)

/-- **After the safe differences there is none**, exactly if the database reads everything back that it was told:
each type, extra and expression in its normal form, and of the defaults the texts that are plain. -/
theorem converges_iff (expected : ExpectedSchema) (actual done : SchemaSnapshot) (diff : SchemaDiff)
    (database : Database alphabet) (hprimary : PrimaryKeys expected.tables)
    (hdiff : diffSchema alphabet expected actual = .ok diff) (hdone : database.completed actual diff = .ok done) :
    diffSchema alphabet expected done = .ok ⟨expected.databaseName, [], []⟩
      ↔ AdditionsReadBack database expected.tables actual.tables := by
  have hname : expected.databaseName = done.databaseName := by
    obtain ⟨-, columns, indexes, tables, -, -, -, rfl⟩ := completed_eq_ok hdone
    exact (diffSchema_eq_ok hdiff).1
  rw [diffSchema_empty_iff hname, differences_eq_nil, conforms_completed_iff hprimary hdiff hdone]

/-! ## A text that looks like an expression -/

/-- A literal without its quotes and with a quote for each two. -/
def undoubled : Str → Str
  | '\'' :: '\'' :: rest => '\'' :: undoubled rest
  | c :: rest => c :: undoubled rest
  | [] => []

theorem undoubled_doubled (value : Str) : undoubled (doubled value) = value := by
  induction value with
  | nil => rfl
  | cons c value ih =>
    rw [doubled, List.flatMap_cons, ← doubled]
    split_ifs with hc
    · subst hc
      exact congrArg _ ih
    · rw [List.singleton_append, undoubled, ih]
      exact fun rest h _ => hc h

/-- A database that reports everything as it was written, but for texts. -/
def exactDatabase : Database .asciiOnly where
  column definition :=
    { default := definition.default.map fun s => if s.head? = some '\'' then undoubled (inside s) else s
      columnType := definition.dataType
      extra := definition.extra
      generationExpression := (definition.generated.map Prod.fst).getD [] }
  prefixLength _ _ length := some length
  value definition value _ _ hdefault _ := by
    have hinside : inside (literal value) = doubled value := by
      rw [inside, literal, List.cons_append, List.tail_cons, List.dropLast_concat]
    rw [hdefault, Option.map_some, if_pos (literal_ends value).1, hinside, undoubled_doubled]

/-- A table with a column of texts and its primary key. -/
def textTable (default : Str) : TableSpec where
  name := ['t']
  columns := [{ name := ['c'], dataType := "VARCHAR(8)".toList, nullable := false, default := some default }]
  indexes := [{ name := primaryName, columns := [['c']], unique := true, primary := true }]

def textSchema (default : Str) : ExpectedSchema := ⟨[textTable default], ['d']⟩

/-- The table in the database, with a value for the default of its column. -/
def textSnapshot (value : Str) : SchemaSnapshot :=
  ⟨['d'], [⟨['t'], [⟨['c'], some value, false, "VARCHAR(8)".toList, [], []⟩],
    [⟨primaryName, [['c']], [none], true, btree⟩]⟩]⟩

theorem converges_iff_plain : AdditionsReadBack exactDatabase (textSchema ['\'', 'x', '\'']).tables [] :=
  (converges_iff (textSchema ['\'', 'x', '\'']) ⟨['d'], []⟩ (textSnapshot ['x'])
    ⟨['d'], [missingTable (textTable ['\'', 'x', '\''])], []⟩ exactDatabase (by decide) (by decide +kernel)
    (by decide +kernel)).mp (by decide +kernel)

/-- The table with the text `(x)` is created, and its default differs from then on. -/
theorem parenthesizedText_differs :
    diffSchema .asciiOnly (textSchema (literal ['(', 'x', ')'])) ⟨['d'], []⟩
        = .ok ⟨['d'], [missingTable (textTable (literal ['(', 'x', ')']))], []⟩
      ∧ exactDatabase.completed ⟨['d'], []⟩ ⟨['d'], [missingTable (textTable (literal ['(', 'x', ')']))], []⟩
        = .ok (textSnapshot ['(', 'x', ')'])
      ∧ diffSchema .asciiOnly (textSchema (literal ['(', 'x', ')'])) (textSnapshot ['(', 'x', ')'])
        = .ok ⟨['d'], [], [⟨.defaultMismatch, ['t'], some ['c'], .str ['(', 'x', ')'], .str ['x'], none⟩]⟩ := by
  decide +kernel

end Ai00.Migration
