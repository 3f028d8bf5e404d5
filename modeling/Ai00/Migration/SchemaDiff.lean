import Ai00.Basic.KeyedRows
import Ai00.Migration.SchemaForms
import Mathlib.Data.List.Lex
import Mathlib.Data.Prod.Lex

/-! # What a database lacks

`capability_v2/schema_diff.py`: an expected schema is compared with the snapshot of a database, table by table. A
difference that an addition removes is safe; the others need a person.
-/

namespace Ai00.Migration

open KeyedRows Regex

/-! ## Snapshots -/

structure SnapshotColumn where
  name : Str
  default : Option Str
  nullable : Bool
  columnType : Str
  extra : Str
  generationExpression : Str
deriving DecidableEq

structure SnapshotIndex where
  name : Str
  columns : List Str
  prefixLengths : List (Option ℕ)
  unique : Bool
  indexType : Str
deriving DecidableEq

structure SnapshotTable where
  name : Str
  columns : List SnapshotColumn
  indexes : List SnapshotIndex
deriving DecidableEq

structure SchemaSnapshot where
  databaseName : Str
  tables : List SnapshotTable
deriving DecidableEq

/-! ## Differences -/

inductive DifferenceKind where
  | missingTable | unexpectedTable
  | missingGeneratedColumn | missingNullableColumn | missingDefaultedColumn | missingRequiredColumnWithoutBackfill
  | typeMismatch | nullabilityMismatch | defaultMismatch | extraMismatch | generatedExpressionMismatch
  | unexpectedColumn
  | primaryKeyMismatch | missingIndex | conflictingIndex | unexpectedIndex
deriving DecidableEq

def DifferenceKind.text : DifferenceKind → String
  | .missingTable => "missing_table"
  | .unexpectedTable => "unexpected_table"
  | .missingGeneratedColumn => "missing_generated_column"
  | .missingNullableColumn => "missing_nullable_column"
  | .missingDefaultedColumn => "missing_defaulted_column"
  | .missingRequiredColumnWithoutBackfill => "missing_required_column_without_backfill"
  | .typeMismatch => "type_mismatch"
  | .nullabilityMismatch => "nullability_mismatch"
  | .defaultMismatch => "default_mismatch"
  | .extraMismatch => "extra_mismatch"
  | .generatedExpressionMismatch => "generated_expression_mismatch"
  | .unexpectedColumn => "unexpected_column"
  | .primaryKeyMismatch => "primary_key_mismatch"
  | .missingIndex => "missing_index"
  | .conflictingIndex => "conflicting_index"
  | .unexpectedIndex => "unexpected_index"

/-- The kinds that go to `safe`; the others go to `manual`. -/
def DifferenceKind.safe : DifferenceKind → Bool
  | .missingTable | .missingNullableColumn | .missingDefaultedColumn | .missingIndex => true
  | _ => false

def DifferenceKind.orderSafe : DifferenceKind → ℕ
  | .missingTable => 0
  | .missingNullableColumn | .missingDefaultedColumn => 1
  | .missingIndex => 2
  | _ => 99

def DifferenceKind.orderManual : DifferenceKind → ℕ
  | .typeMismatch => 0
  | .unexpectedColumn => 1
  | _ => 99

inductive ExpectedObject where
  | table (table : TableSpec)
  | column (column : ColumnSpec)
  | index (index : IndexSpec)
deriving DecidableEq

structure SchemaDifference where
  kind : DifferenceKind
  table : Str
  objectName : Option Str := none
  expectedValue : Json := .null
  actualValue : Json := .null
  expectedObject : Option ExpectedObject := none
deriving DecidableEq

structure SchemaDiff where
  databaseName : Str
  safe : List SchemaDifference
  manual : List SchemaDifference
deriving DecidableEq

/-! ## `diff_schema` -/

/-- A dictionary of some rows by their names. -/
def byName {ρ : Type} (name : ρ → Str) (rows : List ρ) : List ρ := upsertAll name rows []

/-- The rows in the order of their names. -/
def sortedBy {ρ : Type} (name : ρ → Str) (rows : List ρ) : List ρ := rows.mergeSort fun a b => name a ≤ name b

/-- A text or `None`, as a value of a difference. -/
def optionalText (value : Option Str) : Json := value.elim .null .str

section

variable (alphabet : Alphabet) (table : Str)

def liveDefault (column : ColumnSpec) (live : SnapshotColumn) : Option Str :=
  -- the database may show the expression of a generated column as its default
  if column.generationExpression ≠ none ∧ live.generationExpression ≠ [] ∧ live.default ≠ none
      ∧ normalExpression live.default = normalExpression (some live.generationExpression) then none
  else normalDefault alphabet live.default column.dataType

/-- The differences between a column and the one of its name in the database. -/
def compareColumns (column : ColumnSpec) (live : SnapshotColumn) : List SchemaDifference :=
  let expectedType := normalType alphabet column.dataType
  let liveType := normalType alphabet live.columnType
  let expectedDefault := normalDefault alphabet column.default column.dataType
  let actualDefault := liveDefault alphabet column live
  let expectedExtra := normalExtra alphabet column.extra
  let liveExtra := normalExtra alphabet live.extra
  let difference := fun kind expected actual =>
    [SchemaDifference.mk kind table (some column.name) expected actual none]
  (if expectedType ≠ liveType then difference .typeMismatch (.str expectedType) (.str liveType) else [])
    ++ (if column.nullable ≠ live.nullable then
      difference .nullabilityMismatch (.bool column.nullable) (.bool live.nullable) else [])
    ++ (if expectedDefault ≠ actualDefault then
      difference .defaultMismatch (optionalText expectedDefault) (optionalText actualDefault) else [])
    ++ (if expectedExtra ≠ liveExtra then difference .extraMismatch (.str expectedExtra) (.str liveExtra) else [])
    ++ (if normalExpression column.generationExpression ≠ normalExpression (some live.generationExpression) then
      difference .generatedExpressionMismatch (optionalText column.generationExpression) (.str live.generationExpression)
      else [])

/-- A column that the database lacks. -/
def missingColumn (column : ColumnSpec) : SchemaDifference :=
  if column.generationExpression ≠ none then ⟨.missingGeneratedColumn, table, some column.name, .null, .null, none⟩
  else if column.nullable then
    ⟨.missingNullableColumn, table, some column.name, .null, .null, some (.column column)⟩
  else if safeDefault alphabet column then
    ⟨.missingDefaultedColumn, table, some column.name, .null, .null, some (.column column)⟩
  else ⟨.missingRequiredColumnWithoutBackfill, table, some column.name, .null, .null, none⟩

def columnDifferences (expected : List ColumnSpec) (actual : List SnapshotColumn) : List SchemaDifference :=
  let expectedColumns := byName ColumnSpec.name expected
  let actualColumns := byName SnapshotColumn.name actual
  (expectedColumns.flatMap fun column =>
      match lookup SnapshotColumn.name column.name actualColumns with
      | none => [missingColumn alphabet table column]
      | some live => compareColumns alphabet table column live)
    ++ (sortedBy SnapshotColumn.name
        (actualColumns.filter fun live => live.name ∉ expectedColumns.map ColumnSpec.name)).map fun live =>
      ⟨.unexpectedColumn, table, some live.name, .null, .null, none⟩

/-- What a difference shows of an index. -/
def indexValue (columns : List Str) (prefixLengths : List (Option ℕ)) (unique : Bool) (indexType : Str) : Json :=
  .obj [("columns".toList, .arr (columns.map .str)),
    ("prefix_lengths".toList, .arr (prefixLengths.map fun length => length.elim .null fun n => .int n)),
    ("unique".toList, .bool unique), ("type".toList, .str indexType)]

def btree : Str := "BTREE".toList

/-- The differences between an index and the one of its name in the database. -/
def compareIndexes (index : IndexSpec) (live : SnapshotIndex) : List SchemaDifference :=
  if (expectedIndex index).1 ≠ live.columns ∨ (expectedIndex index).2 ≠ live.prefixLengths
      ∨ index.unique ≠ live.unique ∨ live.indexType ≠ btree then
    [SchemaDifference.mk (if index.primary then .primaryKeyMismatch else .conflictingIndex) table (some index.name)
      (indexValue (expectedIndex index).1 (expectedIndex index).2 index.unique btree)
      (indexValue live.columns live.prefixLengths live.unique live.indexType) none]
  else []

/-- An index that the database lacks. -/
def missingIndex (index : IndexSpec) : SchemaDifference :=
  ⟨if index.primary then .primaryKeyMismatch else .missingIndex, table, some index.name, .null, .null,
    some (.index index)⟩

def indexDifferences (expected : List IndexSpec) (actual : List SnapshotIndex) : List SchemaDifference :=
  let expectedIndexes := byName IndexSpec.name expected
  let actualIndexes := byName SnapshotIndex.name actual
  ((sortedBy IndexSpec.name expectedIndexes).flatMap fun index =>
      match lookup SnapshotIndex.name index.name actualIndexes with
      | none => [missingIndex table index]
      | some live => compareIndexes table index live)
    ++ (sortedBy SnapshotIndex.name
        (actualIndexes.filter fun live => live.name ∉ expectedIndexes.map IndexSpec.name)).map fun live =>
      ⟨.unexpectedIndex, table, some live.name, .null, .null, none⟩

end

/-- A table that the database lacks. -/
def missingTable (table : TableSpec) : SchemaDifference :=
  ⟨.missingTable, table.name, none, .null, .null, some (.table table)⟩

/-- All differences, in the order in which they are found. -/
def differences (alphabet : Alphabet) (expected : List TableSpec) (actual : List SnapshotTable) :
    List SchemaDifference :=
  let expectedTables := byName TableSpec.name expected
  let actualTables := byName SnapshotTable.name actual
  ((sortedBy TableSpec.name expectedTables).flatMap fun table =>
      match lookup SnapshotTable.name table.name actualTables with
      | none => [missingTable table]
      | some _ => [])
    ++ ((sortedBy SnapshotTable.name
        (actualTables.filter fun live => live.name ∉ expectedTables.map TableSpec.name)).map fun live =>
      ⟨.unexpectedTable, live.name, none, .null, .null, none⟩)
    ++ (sortedBy TableSpec.name expectedTables).flatMap fun table =>
      match lookup SnapshotTable.name table.name actualTables with
      | none => []
      | some live => columnDifferences alphabet table.name table.columns live.columns
          ++ indexDifferences table.name table.indexes live.indexes

def diffSchema (alphabet : Alphabet) (expected : ExpectedSchema) (actual : SchemaSnapshot) : Except Str SchemaDiff :=
  if expected.databaseName ≠ actual.databaseName then .error "schema_database_mismatch".toList
  else
    let found := differences alphabet expected.tables actual.tables
    let safeKey := fun item : SchemaDifference => toLex (item.kind.orderSafe, toLex (item.table, item.objectName.getD []))
    let manualKey := fun item : SchemaDifference =>
      toLex (item.kind.orderManual, toLex (item.table, toLex (item.objectName.getD [], item.kind.text.toList)))
    .ok ⟨expected.databaseName, (found.filter (·.kind.safe)).mergeSort fun a b => safeKey a ≤ safeKey b,
      (found.filter fun item => !item.kind.safe).mergeSort fun a b => manualKey a ≤ manualKey b⟩

end Ai00.Migration
