import Ai00.Basic.Reconcile
import Ai00.Migration.SchemaDiff

/-! # When there is no difference

A database conforms to a schema if it has its tables with their columns and indexes, each in the same normal form,
and no others. `diff_schema` finds nothing exactly then (`differences_eq_nil`). What a difference is about is read
off `mem_differences` and the two theorems before it.
-/

namespace Ai00.Migration

open KeyedRows

/-! ## Conformance -/

/-- A column that the database has as it is expected. -/
structure SameColumn (alphabet : Alphabet) (column : ColumnSpec) (live : SnapshotColumn) : Prop where
  type : normalType alphabet column.dataType = normalType alphabet live.columnType
  nullable : column.nullable = live.nullable
  default : normalDefault alphabet column.default column.dataType = liveDefault alphabet column live
  extra : normalExtra alphabet column.extra = normalExtra alphabet live.extra
  expression : normalExpression column.generationExpression = normalExpression (some live.generationExpression)

/-- An index that the database has as it is expected. -/
structure SameIndex (index : IndexSpec) (live : SnapshotIndex) : Prop where
  parts : expectedIndex index = (live.columns, live.prefixLengths)
  unique : index.unique = live.unique
  btree : live.indexType = btree

structure SameTable (alphabet : Alphabet) (table : TableSpec) (live : SnapshotTable) : Prop where
  columns : Reconciled ColumnSpec.name SnapshotColumn.name (SameColumn alphabet) (byName ColumnSpec.name table.columns)
    live.columns
  indexes : Reconciled IndexSpec.name SnapshotIndex.name SameIndex (byName IndexSpec.name table.indexes) live.indexes

/-- The database has what is expected, and nothing else. -/
abbrev Conforms (alphabet : Alphabet) (expected : List TableSpec) (actual : List SnapshotTable) : Prop :=
  Reconciled TableSpec.name SnapshotTable.name (SameTable alphabet) (byName TableSpec.name expected) actual

/-! ## No difference -/

section

variable {alphabet : Alphabet} {table : Str} {column : ColumnSpec} {liveColumn : SnapshotColumn} {index : IndexSpec}
  {liveIndex : SnapshotIndex} {item : SchemaDifference}

theorem compareColumns_eq_nil : compareColumns alphabet table column liveColumn = []
    ↔ SameColumn alphabet column liveColumn := by
  have hif : ∀ {p : Prop} [Decidable p] {d : SchemaDifference}, (if ¬ p then [d] else []) = [] ↔ p := by
    intro p _ d
    by_cases hp : p <;> simp [hp]
  simp only [compareColumns, List.append_eq_nil_iff, ne_eq, hif]
  constructor
  · rintro ⟨⟨⟨⟨htype, hnull⟩, hdefault⟩, hextra⟩, hexpression⟩
    exact ⟨htype, hnull, hdefault, hextra, hexpression⟩
  · intro h
    exact ⟨⟨⟨⟨h.type, h.nullable⟩, h.default⟩, h.extra⟩, h.expression⟩

theorem compareIndexes_eq_nil : compareIndexes table index liveIndex = [] ↔ SameIndex index liveIndex := by
  constructor
  · intro h
    by_contra hnot
    rw [compareIndexes, if_pos] at h
    · exact List.cons_ne_nil _ _ h
    · by_contra hall
      push Not at hall
      obtain ⟨hcolumns, hprefix, hunique, hbtree⟩ := hall
      exact hnot ⟨Prod.ext hcolumns hprefix, hunique, hbtree⟩
  · intro h
    rw [compareIndexes, if_neg]
    push Not
    exact ⟨congrArg Prod.fst h.parts, congrArg Prod.snd h.parts, h.unique, h.btree⟩

theorem compareColumns_manual (h : item ∈ compareColumns alphabet table column liveColumn) :
    item.kind.safe = false := by
  have hif : ∀ {p : Prop} [Decidable p] {d : SchemaDifference}, item ∈ (if p then [d] else []) → item = d := by
    intro p _ d hitem
    split_ifs at hitem
    · exact List.mem_singleton.mp hitem
    · exact absurd hitem List.not_mem_nil
  simp only [compareColumns, List.mem_append] at h
  rcases h with (((h | h) | h) | h) | h
  all_goals
    rw [hif h]
    rfl

theorem compareIndexes_manual (h : item ∈ compareIndexes table index liveIndex) : item.kind.safe = false := by
  rw [compareIndexes] at h
  split at h
  · rw [List.mem_singleton.mp h]
    cases index.primary <;> rfl
  · exact absurd h List.not_mem_nil

end

section

variable {α β δ : Type} {expectedKey : α → Str} {key : β → Str} {rows : List α} {actual : List β}

theorem lookup_byName {k : Str} : lookup key k (byName key actual) = lookup key k actual.reverse :=
  lookup_dictionary

theorem mem_sortedBy {b : β} : b ∈ sortedBy key actual ↔ b ∈ actual := List.mem_mergeSort

theorem unexpected_eq_nil {unexpected : β → δ} :
    (sortedBy key ((byName key actual).filter fun b => key b ∉ rows.map expectedKey)).map unexpected = []
      ↔ ∀ b ∈ actual, key b ∈ rows.map expectedKey := by
  rw [List.map_eq_nil_iff]
  constructor
  · intro h b hb
    by_contra hnot
    obtain ⟨c, hc, hkey⟩ := List.mem_map.mp (key_mem_dictionary.mpr (List.mem_map_of_mem (f := key) hb))
    have hmem : c ∈ sortedBy key ((byName key actual).filter fun b => key b ∉ rows.map expectedKey) := by
      rw [mem_sortedBy, List.mem_filter]
      exact ⟨hc, by rw [hkey]; exact decide_eq_true hnot⟩
    rw [h] at hmem
    exact List.not_mem_nil hmem
  · intro h
    rw [List.eq_nil_iff_forall_not_mem]
    intro b hb
    rw [mem_sortedBy, List.mem_filter] at hb
    have hkey : key b ∈ actual.map key := key_mem_dictionary.mp (List.mem_map_of_mem hb.1)
    obtain ⟨c, hc, hcb⟩ := List.mem_map.mp hkey
    exact of_decide_eq_true hb.2 (hcb ▸ h c hc)

theorem compared_eq_nil (expectedKey : α → Str) (key : β → Str) {rows : List α} (actual : List β)
    {differing : α → List δ} (Same : α → β → Prop)
    (hmissing : ∀ a, lookup key (expectedKey a) (byName key actual) = none → differing a ≠ [])
    (hfound : ∀ a b, lookup key (expectedKey a) (byName key actual) = some b → (differing a = [] ↔ Same a b)) :
    rows.flatMap differing = []
      ↔ ∀ a ∈ rows, ∃ b, lookup key (expectedKey a) actual.reverse = some b ∧ Same a b := by
  rw [List.flatMap_eq_nil_iff]
  refine forall₂_congr fun a _ => ?_
  rw [← lookup_byName]
  cases hlook : lookup key (expectedKey a) (byName key actual) with
  | none => simp [hmissing a hlook]
  | some b => simp [hfound a b hlook]

end

section

variable {alphabet : Alphabet} {table : Str}

theorem columnDifferences_eq_nil {expected : List ColumnSpec} {actual : List SnapshotColumn} :
    columnDifferences alphabet table expected actual = []
      ↔ Reconciled ColumnSpec.name SnapshotColumn.name (SameColumn alphabet) (byName ColumnSpec.name expected)
        actual := by
  rw [columnDifferences, List.append_eq_nil_iff, compared_eq_nil ColumnSpec.name SnapshotColumn.name actual
    (SameColumn alphabet) (fun _ h => by simp [h]) (fun _ _ h => by rw [h, compareColumns_eq_nil])]
  exact ⟨fun h => ⟨h.1, unexpected_eq_nil.mp h.2⟩, fun h => ⟨h.found, unexpected_eq_nil.mpr h.known⟩⟩

theorem indexDifferences_eq_nil {expected : List IndexSpec} {actual : List SnapshotIndex} :
    indexDifferences table expected actual = []
      ↔ Reconciled IndexSpec.name SnapshotIndex.name SameIndex (byName IndexSpec.name expected) actual := by
  rw [indexDifferences, List.append_eq_nil_iff, compared_eq_nil IndexSpec.name SnapshotIndex.name actual
    SameIndex (fun _ h => by simp [h]) (fun _ _ h => by rw [h, compareIndexes_eq_nil])]
  simp only [mem_sortedBy]
  exact ⟨fun h => ⟨h.1, unexpected_eq_nil.mp h.2⟩, fun h => ⟨h.found, unexpected_eq_nil.mpr h.known⟩⟩

/-- **Nothing differs exactly where the database conforms.** -/
theorem differences_eq_nil {expected : List TableSpec} {actual : List SnapshotTable} :
    differences alphabet expected actual = [] ↔ Conforms alphabet expected actual := by
  have hsame : ∀ (t : TableSpec) (live : SnapshotTable),
      columnDifferences alphabet t.name t.columns live.columns ++ indexDifferences t.name t.indexes live.indexes = []
        ↔ SameTable alphabet t live := by
    intro t live
    rw [List.append_eq_nil_iff, columnDifferences_eq_nil, indexDifferences_eq_nil]
    exact ⟨fun h => ⟨h.1, h.2⟩, fun h => ⟨h.columns, h.indexes⟩⟩
  rw [differences, List.append_eq_nil_iff, List.append_eq_nil_iff]
  simp only [List.flatMap_eq_nil_iff, mem_sortedBy, lookup_byName]
  constructor
  · rintro ⟨⟨hmissing, hunexpected⟩, hshared⟩
    refine ⟨fun t ht => ?_, unexpected_eq_nil.mp hunexpected⟩
    have hm := hmissing t ht
    have hs := hshared t ht
    cases hlook : lookup SnapshotTable.name t.name actual.reverse with
    | none =>
      rw [hlook] at hm
      exact absurd hm (List.cons_ne_nil _ _)
    | some live =>
      rw [hlook] at hs
      exact ⟨live, rfl, (hsame t live).mp hs⟩
  · intro h
    refine ⟨⟨fun t ht => ?_, unexpected_eq_nil.mpr h.known⟩, fun t ht => ?_⟩
    · obtain ⟨live, hlook, -⟩ := h.found t ht
      rw [hlook]
    · obtain ⟨live, hlook, hlive⟩ := h.found t ht
      rw [hlook]
      exact (hsame t live).mpr hlive

end

/-! ## What the differences are about -/

section

variable {alphabet : Alphabet} {table : Str} {item : SchemaDifference}

theorem columnDifference_cases {expected : List ColumnSpec} {actual : List SnapshotColumn}
    (h : item ∈ columnDifferences alphabet table expected actual) :
    (∃ column ∈ byName ColumnSpec.name expected, lookup SnapshotColumn.name column.name actual.reverse = none
        ∧ item = missingColumn alphabet table column)
      ∨ item.kind.safe = false := by
  rcases List.mem_append.mp h with h | h
  · obtain ⟨column, hcolumn, h⟩ := List.mem_flatMap.mp h
    rw [lookup_byName] at h
    cases hlook : lookup SnapshotColumn.name column.name actual.reverse with
    | none =>
      rw [hlook] at h
      exact .inl ⟨column, hcolumn, hlook, List.mem_singleton.mp h⟩
    | some live =>
      rw [hlook] at h
      exact .inr (compareColumns_manual h)
  · obtain ⟨live, -, rfl⟩ := List.mem_map.mp h
    exact .inr rfl

theorem indexDifference_cases {expected : List IndexSpec} {actual : List SnapshotIndex}
    (h : item ∈ indexDifferences table expected actual) :
    (∃ index ∈ byName IndexSpec.name expected, lookup SnapshotIndex.name index.name actual.reverse = none
        ∧ item = missingIndex table index)
      ∨ item.kind.safe = false := by
  rcases List.mem_append.mp h with h | h
  · obtain ⟨index, hindex, h⟩ := List.mem_flatMap.mp h
    rw [lookup_byName] at h
    cases hlook : lookup SnapshotIndex.name index.name actual.reverse with
    | none =>
      rw [hlook] at h
      exact .inl ⟨index, mem_sortedBy.mp hindex, hlook, List.mem_singleton.mp h⟩
    | some live =>
      rw [hlook] at h
      exact .inr (compareIndexes_manual h)
  · obtain ⟨live, -, rfl⟩ := List.mem_map.mp h
    exact .inr rfl

variable {expected : List TableSpec} {actual : List SnapshotTable}

/-- **A difference** is a missing table, a missing column or index of a table that is there, or it needs a
person. -/
theorem difference_cases (h : item ∈ differences alphabet expected actual) :
    (∃ t ∈ byName TableSpec.name expected, lookup SnapshotTable.name t.name actual.reverse = none
        ∧ item = missingTable t)
      ∨ (∃ t ∈ byName TableSpec.name expected, ∃ live, lookup SnapshotTable.name t.name actual.reverse = some live
        ∧ ((∃ column ∈ byName ColumnSpec.name t.columns,
              lookup SnapshotColumn.name column.name live.columns.reverse = none
                ∧ item = missingColumn alphabet t.name column)
            ∨ ∃ index ∈ byName IndexSpec.name t.indexes,
              lookup SnapshotIndex.name index.name live.indexes.reverse = none ∧ item = missingIndex t.name index))
      ∨ item.kind.safe = false := by
  rcases List.mem_append.mp h with h | h
  · rcases List.mem_append.mp h with h | h
    · obtain ⟨t, ht, h⟩ := List.mem_flatMap.mp h
      rw [lookup_byName] at h
      cases hlook : lookup SnapshotTable.name t.name actual.reverse with
      | none =>
        rw [hlook] at h
        exact .inl ⟨t, mem_sortedBy.mp ht, hlook, List.mem_singleton.mp h⟩
      | some live =>
        rw [hlook] at h
        exact absurd h List.not_mem_nil
    · obtain ⟨live, -, rfl⟩ := List.mem_map.mp h
      exact .inr (.inr rfl)
  · obtain ⟨t, ht, h⟩ := List.mem_flatMap.mp h
    rw [lookup_byName] at h
    cases hlook : lookup SnapshotTable.name t.name actual.reverse with
    | none =>
      rw [hlook] at h
      exact absurd h List.not_mem_nil
    | some live =>
      rw [hlook] at h
      rcases List.mem_append.mp h with h | h
      · exact (columnDifference_cases h).elim
          (fun hcolumn => .inr (.inl ⟨t, mem_sortedBy.mp ht, live, hlook, .inl hcolumn⟩)) fun hm => .inr (.inr hm)
      · exact (indexDifference_cases h).elim
          (fun hindex => .inr (.inl ⟨t, mem_sortedBy.mp ht, live, hlook, .inr hindex⟩)) fun hm => .inr (.inr hm)

theorem missingTable_mem {t : TableSpec} (ht : t ∈ byName TableSpec.name expected)
    (hlook : lookup SnapshotTable.name t.name actual.reverse = none) :
    missingTable t ∈ differences alphabet expected actual := by
  refine List.mem_append_left _ (List.mem_append_left _ (List.mem_flatMap.mpr ⟨t, mem_sortedBy.mpr ht, ?_⟩))
  rw [lookup_byName, hlook]
  exact List.mem_singleton.mpr rfl

theorem mem_differences_of_table {t : TableSpec} {live : SnapshotTable} (ht : t ∈ byName TableSpec.name expected)
    (hlook : lookup SnapshotTable.name t.name actual.reverse = some live)
    (h : item ∈ columnDifferences alphabet t.name t.columns live.columns
      ++ indexDifferences t.name t.indexes live.indexes) : item ∈ differences alphabet expected actual := by
  refine List.mem_append_right _ (List.mem_flatMap.mpr ⟨t, mem_sortedBy.mpr ht, ?_⟩)
  rw [lookup_byName, hlook]
  exact h

theorem missingColumn_mem {expected : List ColumnSpec} {actual : List SnapshotColumn} {column : ColumnSpec}
    (hcolumn : column ∈ byName ColumnSpec.name expected)
    (hlook : lookup SnapshotColumn.name column.name actual.reverse = none) :
    missingColumn alphabet table column ∈ columnDifferences alphabet table expected actual := by
  refine List.mem_append_left _ (List.mem_flatMap.mpr ⟨column, hcolumn, ?_⟩)
  rw [lookup_byName, hlook]
  exact List.mem_singleton.mpr rfl

theorem missingIndex_mem {expected : List IndexSpec} {actual : List SnapshotIndex} {index : IndexSpec}
    (hindex : index ∈ byName IndexSpec.name expected)
    (hlook : lookup SnapshotIndex.name index.name actual.reverse = none) :
    missingIndex table index ∈ indexDifferences table expected actual := by
  refine List.mem_append_left _ (List.mem_flatMap.mpr ⟨index, mem_sortedBy.mpr hindex, ?_⟩)
  rw [lookup_byName, hlook]
  exact List.mem_singleton.mpr rfl

end

/-! ## Where every difference is safe -/

section

variable {alphabet : Alphabet} {table : Str}

theorem eq_nil_of_manual {items all : List SchemaDifference} (hsafe : ∀ item ∈ all, item.kind.safe = true)
    (hsub : items ⊆ all) (hmanual : ∀ item ∈ items, item.kind.safe = false) : items = [] := by
  rw [List.eq_nil_iff_forall_not_mem]
  intro item hitem
  have htrue := hsafe item (hsub hitem)
  rw [hmanual item hitem] at htrue
  exact Bool.false_ne_true htrue

theorem columns_of_safe {expected : List ColumnSpec} {actual : List SnapshotColumn}
    (h : ∀ item ∈ columnDifferences alphabet table expected actual, item.kind.safe = true) :
    (∀ live ∈ actual, live.name ∈ (byName ColumnSpec.name expected).map ColumnSpec.name)
      ∧ ∀ column ∈ byName ColumnSpec.name expected, ∀ live,
        lookup SnapshotColumn.name column.name actual.reverse = some live → SameColumn alphabet column live := by
  constructor
  · refine unexpected_eq_nil.mp (eq_nil_of_manual h (List.subset_append_right _ _) fun item hitem => ?_)
    obtain ⟨live, -, rfl⟩ := List.mem_map.mp hitem
    rfl
  · intro column hcolumn live hlook
    refine (@compareColumns_eq_nil alphabet table column live).mp
      (eq_nil_of_manual h (fun item hitem => ?_) fun item hitem => compareColumns_manual hitem)
    refine List.mem_append_left _ (List.mem_flatMap.mpr ⟨column, hcolumn, ?_⟩)
    rw [lookup_byName, hlook]
    exact hitem

theorem indexes_of_safe {expected : List IndexSpec} {actual : List SnapshotIndex}
    (h : ∀ item ∈ indexDifferences table expected actual, item.kind.safe = true) :
    (∀ live ∈ actual, live.name ∈ (byName IndexSpec.name expected).map IndexSpec.name)
      ∧ ∀ index ∈ byName IndexSpec.name expected, ∀ live,
        lookup SnapshotIndex.name index.name actual.reverse = some live → SameIndex index live := by
  constructor
  · refine unexpected_eq_nil.mp (eq_nil_of_manual h (List.subset_append_right _ _) fun item hitem => ?_)
    obtain ⟨live, -, rfl⟩ := List.mem_map.mp hitem
    rfl
  · intro index hindex live hlook
    refine (@compareIndexes_eq_nil table index live).mp
      (eq_nil_of_manual h (fun item hitem => ?_) fun item hitem => compareIndexes_manual hitem)
    refine List.mem_append_left _ (List.mem_flatMap.mpr ⟨index, mem_sortedBy.mpr hindex, ?_⟩)
    rw [lookup_byName, hlook]
    exact hitem

theorem tables_of_safe {expected : List TableSpec} {actual : List SnapshotTable}
    (h : ∀ item ∈ differences alphabet expected actual, item.kind.safe = true) :
    ∀ live ∈ actual, live.name ∈ (byName TableSpec.name expected).map TableSpec.name := by
  refine unexpected_eq_nil.mp (eq_nil_of_manual h
    (List.Subset.trans (List.subset_append_right _ _) (List.subset_append_left _ _)) fun item hitem => ?_)
  obtain ⟨live, -, rfl⟩ := List.mem_map.mp hitem
  rfl

end

end Ai00.Migration
