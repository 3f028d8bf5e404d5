import Ai00.Basic.Python

/-! # Expected schemas

The specifications of `capability_v2/schema_model.py`: the tables that the migrations of the domains
describe, with their columns, indexes and constraints.
-/

namespace Ai00.Migration

structure ColumnSpec where
  name : Str
  dataType : Str
  nullable : Bool
  default : Option Str := none
  extra : Str := []
  generationExpression : Option Str := none
deriving DecidableEq

structure IndexSpec where
  name : Str
  columns : List Str
  unique : Bool := false
  primary : Bool := false
deriving DecidableEq

inductive ConstraintKind where
  | foreignKey | check
deriving DecidableEq

structure ConstraintSpec where
  name : Str
  kind : ConstraintKind
  columns : List Str := []
  referencedTable : Option Str := none
  referencedColumns : List Str := []
  expression : Option Str := none
deriving DecidableEq

structure TableSpec where
  name : Str
  columns : List ColumnSpec := []
  indexes : List IndexSpec := []
  constraints : List ConstraintSpec := []
deriving DecidableEq

structure ExpectedSchema where
  tables : List TableSpec
  databaseName : Str

end Ai00.Migration
