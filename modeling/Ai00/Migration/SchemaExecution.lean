import Ai00.Basic.Checks
import Ai00.Migration.SchemaDiff

/-! # Adding what a database lacks

The statements that `capability_v2/schema_sql.py` renders for safe differences, by what they say: the definition of a
column or an index, the columns and indexes of a table. A `Database` reports what it was told in its own way; with
the reports added, a snapshot is the one of the database after the statements (`completed`). In what order tables
are created does not matter for it.
-/

namespace Ai00.Migration

open Regex

/-! ## Definitions -/

/-- `_quote`: the name of an identifier, which goes between backticks. -/
def identifier (value : Str) : Except Str Str := do
  require (value ≠ [] ∧ (value.take 1).all isIdentifierStart = true ∧ value.all isIdentifierPart = true)
    ("unsafe_identifier:".toList ++ value)
  .ok value

/-- `'(?:''|[^'])*'`, behind the first quote and before the last. -/
def quotesDoubled : Str → Bool
  | [] => true
  | ['\''] => false
  | c :: d :: rest => if c = '\'' then d == '\'' && quotesDoubled rest else quotesDoubled (d :: rest)
  | [_] => true

/-- `[-+]?\d+(?:\.\d+)?|NULL|TRUE|FALSE|CURRENT_(?:DATE|TIME|TIMESTAMP)(?:\(\d*\))?`, in any letter case. -/
def scalarWord : Regex :=
  let digits := fun c : Char => c.isDigit
  alts [seqs [opt (.one fun c => c = '-' ∨ c = '+'), plus digits, opt (.seq (char '.') (plus digits))],
    textI "null", textI "true", textI "false",
    seqs [textI "current_", alts [textI "date", textI "time", textI "timestamp"],
      opt (seqs [char '(', star digits, char ')'])]]

/-- `_default`: a scalar is written without its parentheses. -/
def renderedDefault (value : Str) : Str :=
  let scalar := strip (inside value)
  if Parenthesized value ∧
      ((2 ≤ scalar.length ∧ scalar.head? = some '\'' ∧ scalar.getLast? = some '\'' ∧ quotesDoubled (inside scalar) = true)
        ∨ (fullmatch scalarWord scalar).isSome) then scalar
  else value

/-- What a column's definition says. -/
structure ColumnDefinition where
  name : Str
  dataType : Str
  nullable : Bool
  default : Option Str := none
  extra : Str := []
  /-- The expression and the storage of a generated column. -/
  generated : Option (Str × Str) := none

/-- `(STORED|VIRTUAL) GENERATED`. -/
def storageWords : Regex := .seq (.group 1 (alts [textI "stored", textI "virtual"])) (textI " generated")

/-- `_column`. -/
def columnDefinition (column : ColumnSpec) : Except Str ColumnDefinition :=
  match column.generationExpression with
  | some expression =>
    match fullmatch storageWords column.extra, column.default with
    | some storage, none => do
      let name ← identifier column.name
      .ok { name, dataType := column.dataType, nullable := column.nullable,
            generated := some (expression, upper (storage.group 1)) }
    | _, _ => .error ("invalid_generated_column:".toList ++ column.name)
  | none => do
    let name ← identifier column.name
    .ok { name, dataType := column.dataType, nullable := column.nullable,
          default := column.default.map renderedDefault, extra := column.extra }

/-- `_index_column`: a column of an index and the length of its part that the index is on. -/
def indexColumn (value : Str) : Except Str (Str × Option ℕ) := do
  let (column, length) := indexPart value
  let name ← identifier column
  .ok (name, length)

/-- The name that a database gives a primary key. -/
def primaryName : Str := "PRIMARY".toList

def indexName (index : IndexSpec) : Except Str Str :=
  if index.primary then .ok primaryName else identifier index.name

/-- The names in a constraint that `_table` renders. -/
def constraintNames (constraint : ConstraintSpec) : List Str :=
  match constraint.kind with
  | .foreignKey => constraint.name :: constraint.columns ++ constraint.referencedTable.getD []
      :: constraint.referencedColumns
  | .check => [constraint.name]

/-! ## The database -/

/-- What a database reports of a column, besides the name and whether it is nullable. -/
structure ColumnReport where
  default : Option Str
  columnType : Str
  extra : Str
  generationExpression : Str

def TextType (alphabet : Alphabet) (dataType : Str) : Prop :=
  "VARCHAR(".toList.isPrefixOf (normalType alphabet dataType) = true

/-- A text as it stands between quotes. -/
def doubled (value : Str) : Str := value.flatMap fun c => if c = '\'' then ['\'', '\''] else [c]

/-- A text as an SQL literal. -/
def literal (value : Str) : Str := '\'' :: doubled value ++ ['\'']

/-- How a database reports what it was told. Of a text it reports the value, not the literal. -/
structure Database (alphabet : Alphabet) where
  column : ColumnDefinition → ColumnReport
  /-- The length that is reported for a part of a column of a table. -/
  prefixLength : Str → Str → ℕ → Option ℕ
  value : ∀ definition value, TextType alphabet definition.dataType → definition.generated = none →
    definition.default = some (literal value) → '\\' ∉ value → (column definition).default = some value

namespace Database

variable {alphabet : Alphabet} (database : Database alphabet)

def reported (definition : ColumnDefinition) : SnapshotColumn :=
  let report := database.column definition
  ⟨definition.name, report.default, definition.nullable, report.columnType, report.extra, report.generationExpression⟩

def addColumn (column : ColumnSpec) : Except Str SnapshotColumn := (columnDefinition column).map database.reported

/-- `_index`. -/
def addIndex (table : Str) (index : IndexSpec) : Except Str SnapshotIndex := do
  let parts ← index.columns.mapM indexColumn
  let name ← indexName index
  .ok ⟨name, parts.map (·.1), parts.map fun part => part.2.bind (database.prefixLength table part.1),
    index.primary || index.unique, btree⟩

/-- `_table`. -/
def createTable (table : TableSpec) : Except Str SnapshotTable := do
  let columns ← table.columns.mapM database.addColumn
  let indexes ← table.indexes.mapM (database.addIndex table.name)
  let _ ← (table.constraints.flatMap constraintNames).mapM identifier
  let name ← identifier table.name
  .ok ⟨name, columns, indexes⟩

end Database

/-! ## The safe differences -/

def lackingTable (item : SchemaDifference) : Option TableSpec :=
  match item.kind, item.expectedObject with
  | .missingTable, some (.table table) => some table
  | _, _ => none

def lackingColumn (item : SchemaDifference) : Option (Str × ColumnSpec) :=
  match item.kind, item.expectedObject with
  | .missingNullableColumn, some (.column column) | .missingDefaultedColumn, some (.column column) =>
    some (item.table, column)
  | _, _ => none

def lackingIndex (item : SchemaDifference) : Option (Str × IndexSpec) :=
  match item.kind, item.expectedObject with
  | .missingIndex, some (.index index) => some (item.table, index)
  | _, _ => none

def rowsOf {ρ : Type} (table : Str) (rows : List (Str × ρ)) : List ρ :=
  (rows.filter fun row => row.1 = table).map Prod.snd

def SnapshotTable.extend (columns : List (Str × SnapshotColumn)) (indexes : List (Str × SnapshotIndex))
    (table : SnapshotTable) : SnapshotTable :=
  { table with
    columns := table.columns ++ rowsOf table.name columns
    indexes := table.indexes ++ rowsOf table.name indexes }

namespace Database

variable {alphabet : Alphabet} (database : Database alphabet)

/-- `ALTER TABLE … ADD COLUMN`. -/
def alterColumn (item : Str × ColumnSpec) : Except Str (Str × SnapshotColumn) := do
  let table ← identifier item.1
  let column ← database.addColumn item.2
  .ok (table, column)

/-- `ALTER TABLE … ADD INDEX`. -/
def alterIndex (item : Str × IndexSpec) : Except Str (Str × SnapshotIndex) := do
  let table ← identifier item.1
  let index ← database.addIndex table item.2
  .ok (table, index)

/-- The snapshot after the statements of `build_execution_package`. -/
def completed (actual : SchemaSnapshot) (diff : SchemaDiff) : Except Str SchemaSnapshot := do
  require (diff.manual = []) "manual_review_required".toList
  let columns ← (diff.safe.filterMap lackingColumn).mapM database.alterColumn
  let indexes ← (diff.safe.filterMap lackingIndex).mapM database.alterIndex
  let tables ← (diff.safe.filterMap lackingTable).mapM database.createTable
  .ok { actual with tables := actual.tables.map (SnapshotTable.extend columns indexes) ++ tables }

end Database

end Ai00.Migration
