import EntityStore.Schema.Basic

namespace EntityStore

/-- Where a column of a rebuilt table has its values from. -/
inductive ColumnSource where
  /-- The column of the same name in the old table. -/
  | existing
  /-- The old column, a default in place of null. -/
  | existingOr (default : Value)
  /-- The same value in every row. -/
  | constant (value : Value)
  deriving DecidableEq

/-- How one column of a rebuilt table is filled. Columns without a rule start out null, or
generated. -/
structure ColumnCopy where
  column : String
  fieldType : Option FieldType
  source : ColumnSource
  deriving DecidableEq

inductive Step where
  | createTable (table : Table)
  | dropTable (name : String)
  | addColumn (table : String) (column : Column)
  | dropColumn (table column : String)
  /-- Makes the table anew and copies what survives. -/
  | rebuildTable (table : Table) (copies : List ColumnCopy)
  deriving DecidableEq

abbrev Plan := List Step

namespace Step

def table : Step → String
  | .createTable t => t.name
  | .dropTable name => name
  | .addColumn t _ => t
  | .dropColumn t _ => t
  | .rebuildTable t _ => t.name

/-- Whether a step discards stored data. -/
def isDestructive : Step → Bool
  | .dropTable _ | .dropColumn .. | .rebuildTable .. => true
  | .createTable _ | .addColumn .. => false

end Step

end EntityStore
