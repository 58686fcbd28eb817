import EntityStore.Engine.Balance
import EntityStore.Engine.Eval
import EntityStore.Repository.Row

namespace EntityStore.Engine

open EntityStore.Sql

/-- What a statement answers with; the values of a row stand in the order of its columns. -/
structure Outcome where
  rows : List (List Value)
  affected : Nat

namespace Outcome

def done : Outcome := ⟨[], 0⟩

/-- The value in the first column of the first row. -/
def first (o : Outcome) : Value := (o.rows.head?.bind List.head?).getD .null

def named (o : Outcome) (names : List String) : List Row := o.rows.map fun row => ⟨names.zip row⟩

end Outcome

/-- The name of a column in a result: as the table declares it, or as it was written. -/
def resultName (d : TableDef) (c : ColumnRef) : String :=
  match d.index? c.column with
  | some i => d.nameAt i
  | none => Text.quote '"' c.column

def project (columns : List ColumnRef) (s : Scope) : List Value :=
  columns.map fun c => (s.cell c).toValue

def keyColumn (key : String) : ColumnRef := ⟨none, key⟩

namespace Database

def select (db : Database) (columns : List ColumnRef) (source : Source Cell)
    (order : List (ColumnRef × Direction)) (page : Option Page) :
    Except Fault (List (List Value)) := do
  let t ← db.table source.table
  let rows ← sourceRows db source ((columns ++ order.map (·.1)).map (·.column))
  let sorted := rows.mergeSort (inOrder (wholeOrder t.definition order))
  pure ((windowOf page sorted).map (project columns))

/-- Inserts rows into some columns of a table, and tells how they went in. -/
def insertRows (db : Database) (enforced : Bool) (table : String) (columns : List String)
    (rows : List (List Cell)) (alone : Bool) :
    Except Fault (Database × StoredTable × List (List Cell)) := do
  if columns.isEmpty then throw (.unexpected ")")
  let t ← db.table table
  let complete ← rows.mapM fun row => t.rowOf table (columns.zip row)
  if enforced then db.checkLinks t.definition .rows alone
  let (t', written) ← t.insertAll complete
  if enforced then settle (db.insertBalance t alone t.rows written 0)
  pure (db.put t', t', written)

def keyRows (t : StoredTable) (key : String) (rows : List (List Cell)) : List (List Value) :=
  rows.map fun row => project [keyColumn key] [⟨t.name, t.definition, row⟩]

def updateRows (db : Database) (enforced : Bool) (table : String) (sets : List (String × Cell))
    (filter : Option (Expr Cell)) : Except Fault (Database × Nat) := do
  let t ← db.table table
  let sets ← sets.mapM fun (column, v) =>
    match t.definition.index? column with
    | some i => Except.ok (i, (t.definition.affinity i).keep v)
    | none => .error (.unknownColumn column)
  checkFilter db filter
  let change := Extent.columns (sets.map (·.1))
  if enforced then db.checkLinks t.definition change false
  let hit (row : List Cell) : Bool := satisfies db [⟨table, t.definition, row⟩] filter
  let assigned (row : List Cell) : List Cell := sets.foldl (fun row (i, v) => row.set i v) row
  let changes (row : List Cell) : Option (List Cell) :=
    if hit row then some (assigned row) else none
  let t' ← t.update changes
  if enforced && db.concerns t.definition change then
    settle (db.updateBalance t change changes [] t.rows 0)
  pure (db.put t', (t.rows.filter hit).length)

def deleteRows (db : Database) (enforced : Bool) (table : String) (filter : Option (Expr Cell)) :
    Except Fault (Database × Nat) := do
  let t ← db.table table
  checkFilter db filter
  if enforced then db.checkLinks t.definition .rows false
  let hit (row : List Cell) : Bool := satisfies db [⟨table, t.definition, row⟩] filter
  let gone := t.rows.filter hit
  let inOrder := if filter.isSome then gone.mergeSort (inKeyOrder t.definition.keyIndexes) else gone
  if enforced then settle (db.deleteBalance t t.rows inOrder 0)
  pure (db.withRows t (t.rows.filter fun row => !hit row), gone.length)

/-- What a column of a copied row is filled with. -/
def filled (s : Scope) : String × Fill Cell → String × Cell
  | (column, .existing) => (column, s.cell ⟨none, column⟩)
  | (column, .existingOr default) =>
    let v := s.cell ⟨none, column⟩
    (column, if v.isNull then default else v)
  | (column, .constant v) => (column, v)

def needed? : String × Fill Cell → Option String
  | (column, .existing) | (column, .existingOr _) => some column
  | (_, .constant _) => none

/-- Fills columns of a table from the rows of another. -/
def copyRows (db : Database) (enforced : Bool) (target : String) (fills : List (String × Fill Cell))
    (source : String) : Except Fault (Database × Nat) := do
  let from_ ← db.table source
  let rows := (from_.scan (fills.filterMap needed?)).map fun row =>
    fills.map fun fill => (filled [⟨source, from_.definition, row⟩] fill).2
  let (db', _, written) ← db.insertRows enforced target (fills.map (·.1)) rows false
  pure (db', written.length)

def resultNames (db : Database) : Command Cell → List String
  | .select columns source _ _ =>
    ((db.table? source.table).map fun t => columns.map (resultName t.definition)).getD []
  | .count .. => ["COUNT(*)"]
  | .echo operands => operands.mapIdx fun i _ => "c" ++ Nat.repr i
  | .insert table _ _ (some key) =>
    ((db.table? table).map fun t => [resultName t.definition (keyColumn key)]).getD []
  | _ => []

def run (db : Database) (enforced : Bool) : Command Cell → Except Fault (Database × Outcome)
  | .select columns source order page => do
    pure (db, ⟨← db.select columns source order page, 0⟩)
  | .count source page => do
    let rows ← sourceRows db source []
    let n := (windowOf page rows).length
    pure (db, ⟨[[.int n]], 0⟩)
  | .echo [] => .error .incomplete
  | .echo operands => .ok (db, ⟨[operands.map Cell.toValue], 0⟩)
  | .insert table columns rows returning => do
    let alone := rows.length == 1 && returning.isNone
    let (db', t, written) ← db.insertRows enforced table columns rows alone
    let keys := match returning with
      | some key => keyRows t key written
      | none => []
    pure (db', ⟨keys, written.length⟩)
  | .update table sets filter => do
    let (db', n) ← db.updateRows enforced table sets filter
    pure (db', ⟨[], n⟩)
  | .delete table filter => do
    let (db', n) ← db.deleteRows enforced table filter
    pure (db', ⟨[], n⟩)
  | .createTable d => do pure (← db.create d, .done)
  | .dropTable table => do
    let _ ← db.table table
    pure (db.remove table, .done)
  | .addColumn table c => do
    let t ← (← db.table table).addColumn c
    pure (db.put t, .done)
  | .dropColumn table column => do
    let t ← (← db.table table).dropColumn column
    pure (db.put t, .done)
  | .copyRows target fills source => do
    let (db', n) ← db.copyRows enforced target fills source
    pure (db', ⟨[], n⟩)
  | .renameTable table name => do pure (← db.rename table name, .done)

end Database

end EntityStore.Engine
