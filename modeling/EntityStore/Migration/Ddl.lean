import EntityStore.Migration.Plan
import EntityStore.Sql.Statement

namespace EntityStore

namespace Column

/-- The declaration of a column. A key column of its own is declared as one and is not null without
saying so; a part of a composite key says it, and the key follows the columns. -/
def definition (d : Dialect) (composite : Bool) (c : Column) : Sql.ColumnDef :=
  let key := c.primaryKey && !composite
  { name := c.name
    type := c.sqlType
    primaryKey := key
    autoIncrement := if key && c.autoIncrement then d.autoIncrement else none
    notNull := !c.nullable && !key
    references := c.references.toList.map fun f => ⟨f.table, some f.column⟩ }

end Column

namespace Table

def definition (d : Dialect) (name : String) (t : Table) : Sql.TableDef :=
  let composite := 1 < t.primaryKey.length
  ⟨name, t.columns.map (Column.definition d composite),
    if composite then t.primaryKey.map (·.name) else []⟩

/-- Creates the table under a name; a table needs columns. -/
def create (d : Dialect) (name : String) (t : Table) : Except Error (Sql.Command Param) :=
  if t.columns.isEmpty then .error (.planning (.noColumns t.name))
  else .ok (.createTable (t.definition d name))

end Table

namespace ColumnCopy

/-- A default as a parameter; its type decides how it is stored. -/
def param (c : ColumnCopy) (v : Value) : Except Error Param :=
  match c.fieldType with
  | none => .error (.planning (.untypedDefault c.column))
  | some t => .ok ⟨t, v⟩

/-- What the column is filled with. -/
def fill (c : ColumnCopy) : Except Error (String × Sql.Fill Param) :=
  match c.source with
  | .existing => .ok (c.column, .existing)
  | .existingOr v => (c.param v).map fun p => (c.column, .existingOr p)
  | .constant v => (c.param v).map fun p => (c.column, .constant p)

end ColumnCopy

namespace Step

def rebuild (d : Dialect) (t : Table) (copies : List ColumnCopy) :
    Except Error (List (Sql.Command Param)) := do
  let scratch := d.scratchName t.name
  let create ← t.create d scratch
  let fills ← copies.mapM ColumnCopy.fill
  let copy := if fills.isEmpty then [] else [.copyRows scratch fills t.name]
  pure (create :: (copy ++ [.dropTable t.name, .renameTable scratch t.name]))

/-- The statements of a step, in order. -/
def commands (d : Dialect) : Step → Except Error (List (Sql.Command Param))
  | .createTable t => (t.create d t.name).map fun c => [c]
  | .dropTable name => .ok [.dropTable name]
  | .addColumn t c => .ok [.addColumn t (c.definition d false)]
  | .dropColumn t c => .ok [.dropColumn t c]
  | .rebuildTable t copies => rebuild d t copies

end Step

namespace Plan

/-- All statements of a plan; a step that cannot be written down fails before any runs. -/
def statements (d : Dialect) (p : Plan) : Except Error (List Statement) :=
  (p.mapM (Step.commands d)).map fun cs => cs.flatten.map (Statement.ofCommand d)

end Plan

end EntityStore
