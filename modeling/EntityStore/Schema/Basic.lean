import EntityStore.SortedMap
import EntityStore.Entity
import EntityStore.TypeMap

namespace EntityStore

structure ForeignKey where
  table : String
  column : String
  deriving DecidableEq

structure Column where
  name : String
  sqlType : String
  /-- The logical type, known of columns that come from entities. -/
  fieldType : Option FieldType
  nullable : Bool
  primaryKey : Bool
  autoIncrement : Bool
  references : Option ForeignKey
  deriving DecidableEq

structure Table where
  name : String
  columns : List Column
  deriving DecidableEq

/-- Tables by name. The name that a table carries may differ from the one it is found under. -/
structure Schema where
  tables : SortedMap Table

namespace Column

def named (name sqlType : String) : Column := ⟨name, sqlType, none, true, false, false, none⟩

def notNull (c : Column) : Column := { c with nullable := false }

/-- Keys are never null. -/
def asPrimaryKey (c : Column) : Column := { c with primaryKey := true, nullable := false }

def asAutoIncrement (c : Column) : Column := { c with autoIncrement := true }

def referencing (c : Column) (table column : String) : Column :=
  { c with references := some ⟨table, column⟩ }

def typed (c : Column) (t : FieldType) : Column := { c with fieldType := some t }

/-- The column of a field whose column type is given. A foreign key points at its target's key, or
at a column `id` where the target has none. -/
def ofField (f : Field) (sqlType : String) : Column where
  name := f.column
  sqlType := sqlType
  fieldType := some f.type
  nullable := f.nullable && !f.primaryKey
  primaryKey := f.primaryKey
  autoIncrement := f.primaryKey && f.generated
  references := f.references.map fun target => ⟨target.id.table, match target.key? with
    | some key => key.column
    | none => "id"⟩

end Column

namespace Table

/-- The first column of a name. -/
def column? (t : Table) (name : String) : Option Column := t.columns.find? fun c => c.name == name

def primaryKey (t : Table) : List Column := t.columns.filter (·.primaryKey)

/-- The other tables that foreign keys point at, one for each foreign key. -/
def referenced (t : Table) : List String :=
  (t.columns.filterMap fun c => c.references.map (·.table)).filter fun name => name != t.name

def ofEntity (e : Entity) (types : TypeMap) : Except Error Table := do
  let columns ← e.fields.mapM fun f => do pure (Column.ofField f (← types.columnType f.type))
  pure ⟨e.id.table, columns⟩

end Table

namespace Schema

def empty : Schema := ⟨.empty⟩

/-- Adds a table under its own name. -/
def add (s : Schema) (t : Table) : Schema := ⟨s.tables.insert t.name t⟩

def table? (s : Schema) (name : String) : Option Table := s.tables.get? name

def names (s : Schema) : List String := s.tables.keys

def isEmpty (s : Schema) : Bool := s.tables.isEmpty

/-- Equality of the tables and of the names they are found under. -/
def equals (s t : Schema) : Bool := s.tables.entries == t.tables.entries

/-- The tables that store some entities; of two entities with one table the last one counts. -/
def ofEntities (entities : List Entity) (types : TypeMap) : Except Error Schema :=
  entities.foldlM (fun s e => (Table.ofEntity e types).map s.add) empty

end Schema

end EntityStore
