import EntityStore.Engine.Database

namespace EntityStore.Engine

open EntityStore.Sql (TableDef Reference)
open EntityStore.Text (sameIgnoringCase)

/-- A foreign key that points at a table: the table that has it, its column, and the key column. -/
structure Pointer where
  child : String
  column : Nat
  key : Nat

namespace Database

def withRows (db : Database) (t : StoredTable) (rows : List (List Cell)) : Database :=
  db.put { t with rows := rows }

/-- Whether a cell refers to something that is not there. -/
def leadsNowhere (db : Database) (d : TableDef) (r : Reference) (v : Cell) : Bool :=
  match db.target d r with
  | .ok (parent, k) => dangling parent k v
  | .error _ => false

/-- The foreign keys of a table that a change looks at, the last one first: those that it changes,
and those to the table itself. -/
def ownLinks (d : TableDef) (change : Extent) : List (Nat × Reference) :=
  d.links.reverse.filter fun (i, r) => change.covers i || sameIgnoringCase r.table d.name

def pointer? (db : Database) (d child : TableDef) (change : Extent) (link : Nat × Reference) :
    Option Pointer :=
  if sameIgnoringCase link.2.table d.name && change.moves d link.2 then
    match db.target child link.2 with
    | .ok (_, k) => some ⟨child.name, link.1, k⟩
    | .error _ => none
  else none

/-- The foreign keys that point at what a change of a table concerns, the youngest first. -/
def pointers (db : Database) (d : TableDef) (change : Extent) : List Pointer :=
  db.tables.reverse.flatMap fun t =>
    t.definition.links.reverse.filterMap (db.pointer? d t.definition change)

/-- The number of rows that refer to a row of a table through a foreign key. -/
def referring (db : Database) (d : TableDef) (row : List Cell) (p : Pointer) : Nat :=
  match db.table? p.child with
  | some t =>
    let common := (d.affinity p.key).common (t.definition.affinity p.column)
    let key := common.keep (cellAt row p.key)
    (t.rows.filter fun r => (common.keep (cellAt r p.column)).same key).length
  | none => 0

/-- The balance, which is how many references a statement breaks less how many it mends, once a row
is out of a table, `others` being the rows beside it: a reference of its own that leads nowhere is
mended if there is something to make up for, and every reference to it is broken. -/
def takeOut (db : Database) (t : StoredTable) (change : Extent) (others : List (List Cell))
    (row : List Cell) (balance : Int) : Int :=
  let before := db.withRows t (others ++ [row])
  let after := db.withRows t others
  let mended := (ownLinks t.definition change).foldl (fun n (i, r) =>
    if n ≠ 0 ∧ before.leadsNowhere t.definition r (cellAt row i) then n - 1 else n) balance
  let referring := (db.pointers t.definition change).map (after.referring t.definition row)
  mended + (referring.foldr (· + ·) 0 : Nat)

/-- The references of a row, once it is in a table, that lead nowhere. -/
def broken (db : Database) (t : StoredTable) (change : Extent) (others : List (List Cell))
    (row : List Cell) : Nat :=
  let after := db.withRows t (others ++ [row])
  ((ownLinks t.definition change).filter fun (i, r) =>
    after.leadsNowhere t.definition r (cellAt row i)).length

/-- The balance once the references of other rows to a new row are mended, through each foreign key
only while there is something to make up for. -/
def mend (db : Database) (t : StoredTable) (change : Extent) (present : List (List Cell))
    (row : List Cell) (balance : Int) : Int :=
  let now := db.withRows t present
  (db.pointers t.definition change).foldl
    (fun n p => if n = 0 then n else n - now.referring t.definition row p) balance

/-- The balance of rows that are inserted one after another. A row that is inserted alone mends
nothing. -/
def insertBalance (db : Database) (t : StoredTable) (alone : Bool) :
    List (List Cell) → List (List Cell) → Int → Int
  | _, [], balance => balance
  | others, row :: rest, balance =>
    let balance := balance + db.broken t .rows others row
    let balance := if alone then balance else db.mend t .rows others row balance
    insertBalance db t alone (others ++ [row]) rest balance

def deleteBalance (db : Database) (t : StoredTable) :
    List (List Cell) → List (List Cell) → Int → Int
  | _, [], balance => balance
  | present, row :: rest, balance =>
    let others := present.erase row
    deleteBalance db t others rest (db.takeOut t .rows others row balance)

/-- Whether the old form of a row is still there when its new form comes in: its place does not
change, and neither do its references to its own table. -/
def lingers (d : TableDef) (change : Extent) : Bool :=
  !(d.rowKey?.any change.covers) &&
    !(d.links.any fun (i, r) => change.covers i && sameIgnoringCase r.table d.name)

/-- The balance of rows that are changed one after another; `done` are those that have passed. -/
def updateBalance (db : Database) (t : StoredTable) (change : Extent)
    (changes : List Cell → Option (List Cell)) :
    List (List Cell) → List (List Cell) → Int → Int
  | _, [], balance => balance
  | done, row :: rest, balance =>
    match changes row with
    | none => updateBalance db t change changes (done ++ [row]) rest balance
    | some row' =>
      let others := done ++ rest
      let present := if lingers t.definition change then others ++ [row] else others
      let balance := db.takeOut t change others row balance
      let balance := balance + db.broken t change others row'
      let balance := db.mend t change present row' balance
      updateBalance db t change changes (done ++ [row']) rest balance

def settle (balance : Int) : Except Fault Unit :=
  if 0 < balance then .error .foreignKey else .ok ()

end Database

end EntityStore.Engine
