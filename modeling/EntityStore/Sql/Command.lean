import EntityStore.Sql.Expr
import EntityStore.Dialect

namespace EntityStore.Sql

/-- A table joined to the rows by a foreign key; rows without a partner are kept. -/
structure JoinClause where
  table : String
  name : String
  /-- The joined name that holds the foreign key. -/
  parent : String
  foreignKey : String
  key : String
  deriving DecidableEq

/-- Where the rows of a query come from. -/
structure Source (α : Type) where
  table : String
  joins : List JoinClause
  filter : Option (Expr α)

/-- A foreign key of a column; without a column it means the target's primary key. -/
structure Reference where
  table : String
  column : Option String
  deriving DecidableEq

/-- A column as CREATE TABLE declares it. -/
structure ColumnDef where
  name : String
  type : String
  primaryKey : Bool
  autoIncrement : Option String
  notNull : Bool
  references : List Reference
  deriving DecidableEq

/-- A table as CREATE TABLE declares it; `key` is a primary key declared after the columns. -/
structure TableDef where
  name : String
  columns : List ColumnDef
  key : List String
  deriving DecidableEq, Inhabited

/-- What a copied column is filled with. -/
inductive Fill (α : Type) where
  | existing
  /-- The old value, or the operand where it is null. -/
  | existingOr (default : α)
  | constant (value : α)

inductive Command (α : Type) where
  | select (columns : List ColumnRef) (source : Source α) (order : List (ColumnRef × Direction))
      (page : Option Page)
  /-- The number of rows, of a window of them if there is one. -/
  | count (source : Source α) (page : Option Page)
  /-- The operands themselves as one row. -/
  | echo (operands : List α)
  | insert (table : String) (columns : List String) (rows : List (List α))
      (returning : Option String)
  | update (table : String) (assignments : List (String × α)) (filter : Option (Expr α))
  | delete (table : String) (filter : Option (Expr α))
  | createTable (table : TableDef)
  | dropTable (table : String)
  | addColumn (table : String) (column : ColumnDef)
  | dropColumn (table column : String)
  /-- Fills columns of a table from the rows of another, column by column of the same name. -/
  | copyRows (target : String) (columns : List (String × Fill α)) (source : String)
  | renameTable (table name : String)

namespace Command

variable {α β : Type}

def writes : Command α → Bool
  | .select .. | .count .. | .echo _ => false
  | _ => true

def identList (ident : String → String) (names : List String) : String :=
  String.intercalate ", " (names.map ident)

def referenceText (ident : String → String) (r : Reference) : String :=
  "REFERENCES " ++ ident r.table ++ match r.column with
    | some c => "(" ++ ident c ++ ")"
    | none => ""

/-- A column declaration; a key column is not null without saying so. -/
def columnText (ident : String → String) (c : ColumnDef) : String :=
  String.intercalate " " ([ident c.name, c.type] ++
    (if c.primaryKey then "PRIMARY KEY" :: c.autoIncrement.toList else []) ++
    (if c.notNull then ["NOT NULL"] else []) ++ c.references.map (referenceText ident))

def tableText (ident : String → String) (t : TableDef) : String :=
  "CREATE TABLE " ++ ident t.name ++ " (" ++
    String.intercalate ", " (t.columns.map (columnText ident) ++
      if t.key.isEmpty then [] else ["PRIMARY KEY (" ++ identList ident t.key ++ ")"]) ++ ")"

def joinText (ident : String → String) (j : JoinClause) : String :=
  " LEFT JOIN " ++ ident j.table ++ (if j.name = j.table then "" else " AS " ++ ident j.name) ++
    " ON " ++ Expr.columnText ident ⟨some j.parent, j.foreignKey⟩ ++ " = " ++
    Expr.columnText ident ⟨some j.name, j.key⟩

def filterPieces (ident : String → String) : Option (Expr α) → Fragment α
  | some e => .text " WHERE " :: e.pieces ident
  | none => []

def sourcePieces (ident : String → String) (s : Source α) : Fragment α :=
  .text (ident s.table ++ String.join (s.joins.map (joinText ident))) ::
    filterPieces ident s.filter

def orderText (ident : String → String) : List (ColumnRef × Direction) → String
  | [] => ""
  | terms => " ORDER BY " ++ String.intercalate ", " (terms.map fun (c, d) =>
      Expr.columnText ident c ++ " " ++ d.keyword)

def tuple (operands : List α) : Fragment α := .text "(" :: (Expr.holes operands ++ [.text ")"])

def fillPieces (ident : String → String) (column : String) : Fill α → Fragment α
  | .existing => [.text (ident column)]
  | .existingOr a => [.text ("COALESCE(" ++ ident column ++ ", "), .hole a, .text ")"]
  | .constant a => [.hole a]

def pieces (d : Dialect) : Command α → Fragment α
  | .select columns source order page =>
    let clause := match page.bind d.pageClause with
      | some clause => " " ++ clause
      | none => ""
    .text ("SELECT " ++ String.intercalate ", " (columns.map (Expr.columnText d.ident)) ++
        " FROM ") ::
      (sourcePieces d.ident source ++ [.text (orderText d.ident order ++ clause)])
  | .count source page =>
    match page.bind d.pageClause with
    | none => .text "SELECT COUNT(*) FROM " :: sourcePieces d.ident source
    | some clause =>
      .text "SELECT COUNT(*) FROM (SELECT 1 FROM " ::
        (sourcePieces d.ident source ++ [.text (" " ++ clause ++ ") AS " ++ d.ident "page")])
  | .echo operands =>
    .text "SELECT " :: Fragment.separated ", " (operands.mapIdx fun i a =>
      [.hole a, .text (" AS c" ++ Nat.repr i)])
  | .insert table columns rows returning =>
    .text ("INSERT INTO " ++ d.ident table ++ " (" ++ identList d.ident columns ++ ") VALUES ") ::
      (Fragment.separated ", " (rows.map tuple) ++ match returning with
        | some key => [.text (" RETURNING " ++ d.ident key)]
        | none => [])
  | .update table assignments filter =>
    .text ("UPDATE " ++ d.ident table ++ " SET ") ::
      (Fragment.separated ", "
          (assignments.map fun (c, a) => [.text (d.ident c ++ " = "), .hole a]) ++
        filterPieces d.ident filter)
  | .delete table filter => .text ("DELETE FROM " ++ d.ident table) :: filterPieces d.ident filter
  | .createTable t => [.text (tableText d.ident t)]
  | .dropTable t => [.text ("DROP TABLE " ++ d.ident t)]
  | .addColumn t c =>
    [.text ("ALTER TABLE " ++ d.ident t ++ " ADD COLUMN " ++ columnText d.ident c)]
  | .dropColumn t c => [.text ("ALTER TABLE " ++ d.ident t ++ " DROP COLUMN " ++ d.ident c)]
  | .copyRows target columns source =>
    .text ("INSERT INTO " ++ d.ident target ++ " (" ++ identList d.ident (columns.map (·.1)) ++
      ") SELECT ") :: (Fragment.separated ", " (columns.map fun (c, f) => fillPieces d.ident c f) ++
        [.text (" FROM " ++ d.ident source)])
  | .renameTable t name => [.text ("ALTER TABLE " ++ d.ident t ++ " RENAME TO " ++ d.ident name)]

/-- Replaces every operand of a source. -/
def mapSourceM {m : Type → Type} [Monad m] (f : α → m β) (s : Source α) : m (Source β) := do
  match s.filter with
  | some e => pure ⟨s.table, s.joins, some (← e.mapM f)⟩
  | none => pure ⟨s.table, s.joins, none⟩

def mapFilterM {m : Type → Type} [Monad m] (f : α → m β) : Option (Expr α) → m (Option (Expr β))
  | some e => do pure (some (← e.mapM f))
  | none => pure none

def mapFillM {m : Type → Type} [Monad m] (f : α → m β) : Fill α → m (Fill β)
  | .existing => pure .existing
  | .existingOr a => do pure (.existingOr (← f a))
  | .constant a => do pure (.constant (← f a))

/-- Replaces every operand, in the order of the text. -/
def mapM {m : Type → Type} [Monad m] (f : α → m β) : Command α → m (Command β)
  | .select columns source order page => do
    pure (.select columns (← mapSourceM f source) order page)
  | .count source page => do pure (.count (← mapSourceM f source) page)
  | .echo operands => do pure (.echo (← operands.mapM f))
  | .insert table columns rows returning => do
    pure (.insert table columns (← rows.mapM fun row => row.mapM f) returning)
  | .update table assignments filter => do
    let sets ← assignments.mapM fun (c, a) => do pure (c, ← f a)
    pure (.update table sets (← mapFilterM f filter))
  | .delete table filter => do pure (.delete table (← mapFilterM f filter))
  | .createTable t => pure (.createTable t)
  | .dropTable t => pure (.dropTable t)
  | .addColumn t c => pure (.addColumn t c)
  | .dropColumn t c => pure (.dropColumn t c)
  | .copyRows target columns source => do
    pure (.copyRows target (← columns.mapM fun (c, fill) => do pure (c, ← mapFillM f fill)) source)
  | .renameTable t name => pure (.renameTable t name)

end Command

end EntityStore.Sql
