import EntityStore.Engine.Scan
import EntityStore.Text.Like

namespace EntityStore.Engine

open EntityStore.Sql (TableDef Reference)
open EntityStore.Text (sameIgnoringCase)

/-- What a statement changes in the rows of a table. -/
inductive Extent where
  | rows
  | columns (indexes : List Nat)

namespace Extent

def covers : Extent → Nat → Bool
  | .rows, _ => true
  | .columns indexes, i => indexes.contains i

/-- Whether columns of a table change that a foreign key may point at: the one that it names, or
else the primary key. -/
def moves (change : Extent) (d : TableDef) (r : Reference) : Bool :=
  match change, r.column with
  | .rows, _ => true
  | .columns _, some column => (d.index? column).any change.covers
  | .columns _, none => d.keyIndexes.any change.covers

end Extent

/-- Tables with distinct names. -/
structure Database where
  tables : List StoredTable

namespace Database

def empty : Database := ⟨[]⟩

def table? (db : Database) (name : String) : Option StoredTable :=
  db.tables.find? fun t => sameIgnoringCase t.name name

def table (db : Database) (name : String) : Except Fault StoredTable :=
  match db.table? name with
  | some t => .ok t
  | none => .error (.noTable name)

def put (db : Database) (t : StoredTable) : Database :=
  ⟨db.tables.map fun old => if sameIgnoringCase old.name t.name then t else old⟩

def remove (db : Database) (name : String) : Database :=
  ⟨db.tables.filter fun t => !sameIgnoringCase t.name name⟩

/-- Names that the database keeps for itself. -/
def reserved (name : String) : Bool :=
  "sqlite_".toList.isPrefixOf (Text.foldCase name).toList

/-- Columns are looked at one after another: their names differ, at most one of them is the key, and
only an integer key counts up. -/
def checkColumns (d : TableDef) : List String → Bool → List Sql.ColumnDef → Except Fault Unit
  | _, keyed, [] => if keyed && !d.key.isEmpty then .error (.keyRepeated d.name) else .ok ()
  | seen, keyed, c :: rest =>
    if seen.any (sameIgnoringCase c.name) then .error (.duplicateColumn c.name)
    else if c.primaryKey && keyed then .error (.keyRepeated d.name)
    else if c.primaryKey && c.autoIncrement.isSome && !sameIgnoringCase c.type "INTEGER" then
      .error .autoIncrement
    else checkColumns d (c.name :: seen) (keyed || c.primaryKey) rest

/-- Adds a table without rows. -/
def create (db : Database) (d : TableDef) : Except Fault Database := do
  let d := d.kept
  if reserved d.name then throw (.reservedName d.name)
  if (db.table? d.name).isSome then throw (.tableExists d.name)
  if d.columns.isEmpty then throw (.unexpected (if d.key.isEmpty then ")" else "PRIMARY"))
  checkColumns d [] false d.columns
  if d.key.any fun column => (d.index? column).isNone then throw .keyExpression
  pure ⟨db.tables ++ [.ofDefinition d]⟩

/-- Gives a table another name. Foreign keys that point at it keep pointing at it. -/
def rename (db : Database) (old new : String) : Except Fault Database := do
  let t ← db.table old
  if (db.table? new).any fun other => !sameIgnoringCase other.name old then .error (.nameTaken new)
  else
    let renamed := { t with definition := { t.definition with name := new } }
    let tables := db.tables.map fun other =>
      if sameIgnoringCase other.name old then renamed else other
    .ok ⟨tables.map fun other => other.retarget old new⟩

/-- The table and the column that a foreign key points at. The column is the whole key of its
table, whether the foreign key names it or not. -/
def target (db : Database) (child : TableDef) (r : Reference) : Except Fault (StoredTable × Nat) :=
  match db.table? r.table with
  | none => .error (.noParent r.table)
  | some parent =>
    match parent.definition.keyIndexes with
    | [k] =>
      if r.column.all (sameIgnoringCase (parent.definition.nameAt k)) then .ok (parent, k)
      else .error (.keyMismatch child.name r.table)
    | _ => .error (.keyMismatch child.name r.table)

/-- Whether a row has a value in a column, in the form in which the column keeps it. -/
def holds (t : StoredTable) (column : Nat) (v : Cell) : Bool :=
  let v := (t.definition.affinity column).keep v
  t.rows.any fun row => (cellAt row column).same v

/-- Whether a cell refers to something that is not there; null refers to nothing. -/
def dangling (parent : StoredTable) (key : Nat) (v : Cell) : Bool :=
  !v.isNull && !holds parent key v

/-- The foreign keys that point at a table, the youngest first. -/
def pointing (db : Database) (name : String) : List (TableDef × Reference) :=
  let all := db.tables.flatMap fun t => t.definition.links.map fun (_, r) => (t.definition, r)
  all.reverse.filter fun (_, r) => sameIgnoringCase r.table name

/-- Whether a change of a table concerns some foreign key at all. -/
def concerns (db : Database) (d : TableDef) (change : Extent) : Bool :=
  (d.links.any fun (i, _) => change.covers i) ||
    (db.pointing d.name).any fun (_, r) => change.moves d r

/-- The foreign keys that a change of a table has to look at, in the order in which they are
reported when they are not well formed. One row that is inserted alone concerns no foreign key of
another table; a change of columns that concerns some foreign key looks at all that point at the
table. -/
def concerned (db : Database) (d : TableDef) (change : Extent) (alone : Bool) :
    List (TableDef × Reference) :=
  let own := d.links.reverse.filter fun (i, r) =>
    change.covers i || sameIgnoringCase r.table d.name
  let own := own.map fun (_, r) => (d, r)
  if alone then own
  else if db.concerns d change then
    let others := db.pointing d.name
    own ++ (others.filter fun (_, r) => change.moves d r) ++ others.reverse
  else []

/-- The foreign keys that a change concerns have to be well formed, whatever the rows. -/
def checkLinks (db : Database) (d : TableDef) (change : Extent) (alone : Bool) :
    Except Fault Unit :=
  (db.concerned d change alone).forM fun (child, r) => (db.target child r).map fun _ => ()

/-- The number of cells of a table that refer to something that is not there. -/
def violationsOf (db : Database) (t : StoredTable) : Except Fault Nat :=
  t.definition.links.reverse.foldlM (fun n (i, r) =>
    match db.target t.definition r with
    | .ok (parent, k) =>
      .ok (n + (t.rows.filter fun row => dangling parent k (cellAt row i)).length)
    | .error (.noParent _) => .ok (n + (t.rows.filter fun row => !(cellAt row i).isNull).length)
    | .error e => .error e) 0

/-- The number of references in the whole database that lead nowhere. The youngest foreign key that
is not well formed is the one reported. -/
def violations (db : Database) : Except Fault Nat :=
  db.tables.reverse.foldlM (fun n t => (db.violationsOf t).map (n + ·)) 0

end Database

end EntityStore.Engine
