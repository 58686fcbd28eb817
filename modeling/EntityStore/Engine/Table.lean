import EntityStore.Engine.Affinity
import EntityStore.Engine.Fault
import EntityStore.Sql.Command

namespace EntityStore.Sql.TableDef

open EntityStore.Text (sameIgnoringCase)

def isBlank (c : Char) : Bool := c == ' ' || c == '\t' || c == '\n' || c == '\x0c' || c == '\r'

def bareType (type : String) : String :=
  String.ofList (((type.toList.dropWhile isBlank).reverse.dropWhile isBlank).reverse)

/-- The declaration as the catalog keeps it. -/
def kept (d : TableDef) : TableDef :=
  { d with columns := d.columns.map fun c => { c with type := bareType c.type } }

def index? (d : TableDef) (name : String) : Option Nat :=
  d.columns.findIdx? fun c => sameIgnoringCase c.name name

def nameAt (d : TableDef) (i : Nat) : String := (d.columns[i]?.map (·.name)).getD ""

def keyIndexes (d : TableDef) : List Nat :=
  ((d.columns.filter (·.primaryKey)).map (·.name) ++ d.key).filterMap d.index?

def affinity (d : TableDef) (i : Nat) : Engine.Affinity :=
  .ofType ((d.columns[i]?.map (·.type)).getD "")

def isInteger (d : TableDef) (i : Nat) : Bool :=
  d.columns[i]?.any fun c => sameIgnoringCase c.type "INTEGER"

/-- The position of a key that is one integer column. -/
def rowKey? (d : TableDef) : Option Nat :=
  match d.keyIndexes with
  | [i] => if d.isInteger i then some i else none
  | _ => none

/-- Whether keys are never given out again. -/
def countsUp (d : TableDef) : Bool := d.columns.any fun c => c.primaryKey && c.autoIncrement.isSome

def links (d : TableDef) : List (Nat × Reference) :=
  d.columns.zipIdx.flatMap fun (c, i) => c.references.map fun r => (i, r)

end EntityStore.Sql.TableDef

namespace EntityStore.Engine

open EntityStore.Sql (TableDef)

def cellAt (row : List Cell) (i : Nat) : Cell := row.getD i .null

/-- A declaration and rows with a cell for each column, in the form in which the column keeps it. A
table whose key is one integer column keeps its rows in the order of that key; others keep them in
the order of insertion. -/
structure StoredTable where
  definition : TableDef
  rows : List (List Cell)
  /-- The largest key so far of a table that counts up. -/
  sequence : Int

namespace StoredTable

def ofDefinition (d : TableDef) : StoredTable := ⟨d, [], 0⟩

def name (t : StoredTable) : String := t.definition.name

/-- An integer key as a number; rows with keys of another kind are refused. -/
def keyNumber : Cell → Int
  | .int n => n
  | _ => 0

def largest? (i : Nat) (rows : List (List Cell)) : Option Int :=
  (rows.map fun row => keyNumber (cellAt row i)).max?

def lastKey : Int := Int64.maxValue.toInt

/-- The least positive key that no row has. -/
def freeKey (t : StoredTable) (i : Nat) : Int :=
  let keys := t.rows.map fun row => keyNumber (cellAt row i)
  let candidates : List Int := (List.range (keys.length + 1)).map fun n => Int.ofNat (n + 1)
  (candidates.find? fun k => !keys.contains k).getD 1

/-- The key of the next row that comes without one. After the largest number, a table that counts up
has no key left, and another one fills a gap. -/
def nextKey (t : StoredTable) (i : Nat) : Except Fault Int :=
  let next := match largest? i t.rows with
    | some n => n + 1
    | none => (1 : Int)
  let next := if t.definition.countsUp then max next (t.sequence + 1) else next
  if next ≤ lastKey then .ok next
  else if t.definition.countsUp then .error .full
  else .ok (t.freeKey i)

def withKey (t : StoredTable) (row : List Cell) : Except Fault (List Cell) :=
  match t.definition.rowKey? with
  | some i =>
    if (cellAt row i).isNull then (t.nextKey i).map fun key => row.set i (.int key) else .ok row
  | none => .ok row

def lacks (t : StoredTable) (row : List Cell) (c : Sql.ColumnDef) (i : Nat) : Bool :=
  c.notNull && t.definition.rowKey? != some i && (cellAt row i).isNull

/-- Whether two rows agree on the whole primary key; a null in it agrees with nothing. -/
def sameKey (t : StoredTable) (row other : List Cell) : Bool :=
  !t.definition.keyIndexes.isEmpty &&
    t.definition.keyIndexes.all fun i => (cellAt row i).same (cellAt other i)

def misfits (t : StoredTable) (row : List Cell) : Bool :=
  t.definition.rowKey?.any fun i => match cellAt row i with
    | .int _ => false
    | _ => true

/-- Refuses a row whose integer key is none, that lacks a value, or whose key another row has. -/
def accept (t : StoredTable) (others : List (List Cell)) (row : List Cell) : Except Fault Unit :=
  if t.misfits row then .error .mismatch
  else match t.definition.columns.zipIdx.find? fun (c, i) => t.lacks row c i with
    | some (c, _) => .error (.notNull t.name c.name)
    | none =>
      if others.any (t.sameKey row) then
        .error (.keyTaken t.name (t.definition.keyIndexes.map t.definition.nameAt))
      else .ok ()

/-- Puts a row among others in the order of an integer key. -/
def placeByKey (i : Nat) (row : List Cell) : List (List Cell) → List (List Cell)
  | [] => [row]
  | r :: rest =>
    if keyNumber (cellAt row i) < keyNumber (cellAt r i) then row :: r :: rest
    else r :: placeByKey i row rest

/-- Puts a row in its place. -/
def place (t : StoredTable) (row : List Cell) (others : List (List Cell)) : List (List Cell) :=
  match t.definition.rowKey? with
  | some i => placeByKey i row others
  | none => others ++ [row]

/-- The largest key so far, once a row is in. -/
def sequenceWith (t : StoredTable) (row : List Cell) : Int :=
  match t.definition.rowKey? with
  | some i => max t.sequence (keyNumber (cellAt row i))
  | none => t.sequence

def insert (t : StoredTable) (row : List Cell) : Except Fault (StoredTable × List Cell) := do
  let row ← t.withKey row
  t.accept t.rows row
  pure ({ t with rows := t.place row t.rows, sequence := t.sequenceWith row }, row)

/-- Inserts rows one after another, and tells how they went in. -/
def insertAll (t : StoredTable) : List (List Cell) → Except Fault (StoredTable × List (List Cell))
  | [] => .ok (t, [])
  | row :: rest => do
    let (t, row) ← t.insert row
    let (t, rows) ← insertAll t rest
    pure (t, row :: rows)

/-- Changes rows one after another. Rows that are changed already count with their new keys. -/
def updateFrom (t : StoredTable) (changes : List Cell → Option (List Cell)) :
    List (List Cell) → List (List Cell) → Except Fault (List (List Cell))
  | done, [] => .ok done
  | done, row :: rest =>
    match changes row with
    | none => updateFrom t changes (done ++ [row]) rest
    | some row' => do
      t.accept (done ++ rest) row'
      updateFrom t changes (done ++ [row']) rest

def update (t : StoredTable) (changes : List Cell → Option (List Cell)) :
    Except Fault StoredTable := do
  let rows ← t.updateFrom changes [] t.rows
  pure { t with rows := rows.foldl (fun placed row => t.place row placed) [] }

/-- A row with values in some columns and null in the others; `name` is what the table is called
where a column is missing. -/
def rowOf (t : StoredTable) (name : String) (cells : List (String × Cell)) :
    Except Fault (List Cell) :=
  cells.foldlM (fun row (column, v) =>
    match t.definition.index? column with
    | some i => .ok (row.set i ((t.definition.affinity i).keep v))
    | none => .error (.noColumn name column)) (t.definition.columns.map fun _ => Cell.null)

/-- Adds a column; the rows hold null there. -/
def addColumn (t : StoredTable) (c : Sql.ColumnDef) : Except Fault StoredTable :=
  if (t.definition.index? c.name).isSome then .error (.duplicateColumn c.name)
  else .ok { t with
    definition := { t.definition with columns := t.definition.columns ++ [c] }
    rows := t.rows.map fun row => row ++ [.null] }

def dropColumn (t : StoredTable) (column : String) : Except Fault StoredTable :=
  match t.definition.index? column with
  | none => .error (.unknownColumn column)
  | some i => .ok { t with
      definition := { t.definition with columns := t.definition.columns.eraseIdx i }
      rows := t.rows.map fun row => row.eraseIdx i }

/-- Makes foreign keys that point at one name point at another. -/
def retarget (t : StoredTable) (old new : String) : StoredTable :=
  { t with definition := { t.definition with columns := t.definition.columns.map fun c =>
      { c with references := c.references.map fun r =>
          if Text.sameIgnoringCase r.table old then { r with table := new } else r } } }

end StoredTable

end EntityStore.Engine
