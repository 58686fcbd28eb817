import EntityStore.Engine.Database
import EntityStore.Engine.Error
import EntityStore.Schema.Basic
import EntityStore.Dialect

namespace EntityStore.Engine

open EntityStore.Sql (TableDef ColumnDef Reference Command)

/-- Tables that the catalog keeps for itself: `sqlite` and one more character in front, in any
case. The underscore of the pattern stands for any character. -/
def hidden (name : String) : Bool := Text.like Text.sameLetter "sqlite_%".toList name.toList

/-- Types that are reported in upper case, however they were declared. -/
def standardTypes : List String := ["ANY", "BLOB", "INT", "INTEGER", "REAL", "TEXT"]

def reportedType (type : String) : String :=
  if standardTypes.contains (Text.upperCase type) then Text.upperCase type else type

def inKey (d : TableDef) (i : Nat) : Bool := d.keyIndexes.contains i

def firstKey? (d : TableDef) : Option String :=
  (d.columns.zipIdx.find? fun (_, i) => inKey d i).map (·.1.name)

namespace Database

def pointed (db : Database) (r : Reference) : Except EngineError ForeignKey :=
  match r.column with
  | some column => .ok ⟨r.table, column⟩
  | none =>
    match (db.table? r.table).bind fun t => firstKey? t.definition with
    | some column => .ok ⟨r.table, column⟩
    | none => .error (.introspection (.noKey r.table))

/-- Whether the declaration of a table speaks of counting up, be it only in a name. -/
def mentionsCounting (d : TableDef) : Bool :=
  Text.contains (Text.upperCase (Command.tableText Dialect.sqlite.ident d)) "AUTOINCREMENT"

/-- A column of the catalog. Of several foreign keys the first one counts. -/
def describeColumn (d : TableDef) (keys : List (Nat × ForeignKey)) (c : ColumnDef) (i : Nat) :
    Column where
  name := c.name
  sqlType := reportedType c.type
  fieldType := none
  nullable := !c.notNull && !inKey d i
  primaryKey := inKey d i
  autoIncrement := inKey d i && mentionsCounting d
  references := (keys.find? fun key => key.1 == i).map (·.2)

/-- A table of the catalog. Its foreign keys are followed from the last one to the first. -/
def describe (db : Database) (d : TableDef) : Except EngineError Table := do
  let keys ← d.links.reverse.mapM fun (i, r) => do pure (i, ← db.pointed r)
  pure ⟨d.name, d.columns.zipIdx.map fun (c, i) => describeColumn d keys.reverse c i⟩

/-- The declarations of the tables that are not hidden, in the order of their names. -/
def visible (db : Database) : List TableDef :=
  ((db.tables.map (·.definition)).filter fun d => !hidden d.name).mergeSort
    fun a b => decide (a.name ≤ b.name)

def introspect (db : Database) : Except EngineError Schema :=
  db.visible.foldlM (fun schema d => (db.describe d).map schema.add) .empty

end Database

end EntityStore.Engine
