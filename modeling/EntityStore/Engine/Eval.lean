import EntityStore.Engine.Database

namespace EntityStore.Engine

open EntityStore.Sql
open EntityStore.Text (sameIgnoringCase)

structure Frame where
  name : String
  definition : TableDef
  cells : List Cell

/-- Rows that columns are looked up in, innermost first. -/
abbrev Scope := List Frame

namespace Frame

def cell? (f : Frame) (c : ColumnRef) : Option Cell :=
  if c.qualifier.all (sameIgnoringCase f.name) then
    (f.definition.index? c.column).map (cellAt f.cells)
  else none

def affinity? (f : Frame) (c : ColumnRef) : Option Affinity :=
  if c.qualifier.all (sameIgnoringCase f.name) then
    (f.definition.index? c.column).map f.definition.affinity
  else none

end Frame

namespace Scope

/-- A column belongs to the innermost table that has it; a name that no table has stands for itself,
as a text. -/
def cell (s : Scope) (c : ColumnRef) : Cell :=
  (s.findSome? fun f => f.cell? c).getD (.text c.column)

/-- What a column prefers; a name that no table has prefers nothing. -/
def affinity (s : Scope) (c : ColumnRef) : Affinity :=
  (s.findSome? fun f => f.affinity? c).getD .any

/-- The operand of a comparison with a column, in the form in which the column would keep it;
patterns stay as they are. -/
def operand (s : Scope) (c : ColumnRef) (op : Comparison) (v : Cell) : Cell :=
  match op with
  | .like | .notLike => v
  | _ => (s.affinity c).keep v

end Scope

abbrev Truth := Option Bool

namespace Truth

def not (a : Truth) : Truth := a.map (!·)

/-- False wins over unknown. -/
def and : Truth → Truth → Truth
  | some false, _ | _, some false => some false
  | some true, b => b
  | none, _ => none

/-- True wins over unknown. -/
def or : Truth → Truth → Truth
  | some true, _ | _, some true => some true
  | some false, b => b
  | none, _ => none

def join : Connective → List Truth → Truth
  | .and, ts => ts.foldr and (some true)
  | .or, ts => ts.foldr or (some false)

/-- A test of two values, unknown when one of them is null. -/
def ofCells (test : Cell → Cell → Bool) (a b : Cell) : Truth :=
  if a.isNull || b.isNull then none else some (test a b)

end Truth

/-- Patterns match texts without regard to the case of ASCII letters. -/
def matchesPattern : Cell → Cell → Bool
  | .text s, .text pattern => Text.like Text.sameLetter pattern.toList s.toList
  | _, _ => false

def compareCells : Comparison → Cell → Cell → Truth
  | .eq, a, b => Truth.ofCells (fun a b => a.compare b == .eq) a b
  | .ne, a, b => Truth.ofCells (fun a b => a.compare b != .eq) a b
  | .gt, a, b => Truth.ofCells (fun a b => a.compare b == .gt) a b
  | .lt, a, b => Truth.ofCells (fun a b => a.compare b == .lt) a b
  | .ge, a, b => Truth.ofCells (fun a b => a.compare b != .lt) a b
  | .le, a, b => Truth.ofCells (fun a b => a.compare b != .gt) a b
  | .like, a, b => Truth.ofCells matchesPattern a b
  | .notLike, a, b => Truth.ofCells (fun a b => !matchesPattern a b) a b

/-- Whether a value is among others; a null among them makes a miss unknown. -/
def among (v : Cell) (others : List Cell) : Truth :=
  Truth.join .or (others.map (compareCells .eq v))

mutual

def evaluate (db : Database) (s : Scope) : Expr Cell → Truth
  | .constant b => some b
  | .nullTest c negated => some ((s.cell c).isNull != negated)
  | .compare c op v => compareCells op (s.cell c) (s.operand c op v)
  | .between c low high =>
    Truth.and (compareCells .ge (s.cell c) (s.operand c .ge low))
      (compareCells .le (s.cell c) (s.operand c .le high))
  | .among c negated vs =>
    let t := among (s.cell c) (vs.map (s.operand c .eq))
    if negated then t.not else t
  | .amongRows c table key inner =>
    match db.table? table with
    | none => some false
    | some t =>
      let frame (row : List Cell) : Frame := ⟨table, t.definition, row⟩
      let rows := t.rows.filter fun row => evaluate db (frame row :: s) inner == some true
      among (s.cell c) (rows.map fun row => Scope.cell [frame row] ⟨some table, key⟩)
  | .junction op parts => Truth.join op (evaluateAll db s parts)

def evaluateAll (db : Database) (s : Scope) : List (Expr Cell) → List Truth
  | [] => []
  | e :: es => evaluate db s e :: evaluateAll db s es

end

/-- Whether a row is kept; without a condition it is. -/
def satisfies (db : Database) (s : Scope) : Option (Expr Cell) → Bool
  | none => true
  | some e => evaluate db s e == some true

mutual

def tablesOf : Expr Cell → List String
  | .amongRows _ table _ inner => table :: tablesOf inner
  | .junction _ parts => tablesOfAll parts
  | _ => []

def tablesOfAll : List (Expr Cell) → List String
  | [] => []
  | e :: es => tablesOf e ++ tablesOfAll es

end

/-- Every table that a condition reads has to exist. -/
def checkFilter (db : Database) (filter : Option (Expr Cell)) : Except Fault Unit :=
  ((filter.map tablesOf).getD []).forM fun name => (db.table name).map fun _ => ()

/-- Extends rows by a joined table. A row without partners is kept, with nulls beside it. -/
def extend (j : JoinClause) (t : StoredTable) (s : Scope) : List Scope :=
  let v := s.cell ⟨some j.parent, j.foreignKey⟩
  let frame (row : List Cell) : Frame := ⟨j.name, t.definition, row⟩
  let partners := t.rows.filter fun row => (Scope.cell [frame row] ⟨some j.name, j.key⟩).same v
  if partners.isEmpty then [s ++ [frame (t.definition.columns.map fun _ => .null)]]
  else partners.map fun row => s ++ [frame row]

def joinAll (db : Database) (rows : List Scope) : List JoinClause → Except Fault (List Scope)
  | [] => .ok rows
  | j :: rest => do
    let t ← db.table j.table
    joinAll db (rows.flatMap (extend j t)) rest

/-- The rows of a source for a statement that needs some columns. -/
def sourceRows (db : Database) (source : Source Cell) (used : List String) :
    Except Fault (List Scope) := do
  let t ← db.table source.table
  let first := if source.joins.isEmpty && source.filter.isNone then t.scan used else t.rows
  let rows ← joinAll db (first.map fun row => [⟨source.table, t.definition, row⟩]) source.joins
  checkFilter db source.filter
  pure (rows.filter fun s => satisfies db s source.filter)

def windowOf (page : Option Page) (rows : List α) : List α :=
  match page with
  | none => rows
  | some p =>
    let rest := rows.drop (p.offset.getD 0)
    match p.limit with
    | none => rest
    | some n => rest.take n

def inOrder : List (ColumnRef × Direction) → Scope → Scope → Bool
  | [], _, _ => true
  | (c, d) :: rest, a, b =>
    match (a.cell c).compare (b.cell c), d with
    | .eq, _ => inOrder rest a b
    | .lt, .asc | .gt, .desc => true
    | _, _ => false

/-- Rows that are asked for in the order of the first of several key columns come in the order of
the whole key. -/
def wholeOrder (d : TableDef) (order : List (ColumnRef × Direction)) :
    List (ColumnRef × Direction) :=
  match order, d.keyIndexes with
  | [(c, direction)], first :: rest =>
    if d.index? c.column == some first then
      (c, direction) :: rest.map fun i => (⟨c.qualifier, d.nameAt i⟩, direction)
    else order
  | _, _ => order

end EntityStore.Engine
