import EntityStore.Sql.Piece
import EntityStore.Condition.Operators

namespace EntityStore.Sql

structure ColumnRef where
  qualifier : Option String
  column : String
  deriving DecidableEq

inductive Comparison where
  | eq
  | ne
  | gt
  | lt
  | ge
  | le
  | like
  | notLike
  deriving DecidableEq

def Comparison.symbol : Comparison → String
  | .eq => "="
  | .ne => "<>"
  | .gt => ">"
  | .lt => "<"
  | .ge => ">="
  | .le => "<="
  | .like => "LIKE"
  | .notLike => "NOT LIKE"

def keyword : Connective → String
  | .and => " AND "
  | .or => " OR "

/-- A search condition with operands of some type. -/
inductive Expr (α : Type) where
  | constant (value : Bool)
  | nullTest (column : ColumnRef) (negated : Bool)
  | compare (column : ColumnRef) (op : Comparison) (operand : α)
  | between (column : ColumnRef) (low high : α)
  | among (column : ColumnRef) (negated : Bool) (operands : List α)
  /-- The column is a key of one of the table's rows that satisfy the inner condition. -/
  | amongRows (column : ColumnRef) (table key : String) (inner : Expr α)
  | junction (op : Connective) (parts : List (Expr α))

namespace Expr

variable {α β : Type}

/-- Parts joined by a connective: none are a constant, and one stands for itself. -/
def ofParts (op : Connective) : List (Expr α) → Expr α
  | [] => .constant (op == .and)
  | [e] => e
  | es => .junction op es

def isJunction : Expr α → Bool
  | .junction .. => true
  | _ => false

def columnText (ident : String → String) (c : ColumnRef) : String :=
  match c.qualifier with
  | some q => ident q ++ "." ++ ident c.column
  | none => ident c.column

/-- Holes with commas between them. -/
def holes (operands : List α) : Fragment α := .separated ", " (operands.map fun a => [.hole a])

mutual

/-- The pieces of a condition, given how identifiers are quoted. -/
def pieces (ident : String → String) : Expr α → Fragment α
  | .constant true => [.text "1 = 1"]
  | .constant false => [.text "1 = 0"]
  | .nullTest c negated =>
    [.text (columnText ident c ++ if negated then " IS NOT NULL" else " IS NULL")]
  | .compare c op a => [.text (columnText ident c ++ " " ++ op.symbol ++ " "), .hole a]
  | .between c low high =>
    [.text (columnText ident c ++ " BETWEEN "), .hole low, .text " AND ", .hole high]
  | .among c negated operands =>
    .text (columnText ident c ++ if negated then " NOT IN (" else " IN (") ::
      (holes operands ++ [.text ")"])
  | .amongRows c table key inner =>
    .text (columnText ident c ++ " IN (SELECT " ++ columnText ident ⟨some table, key⟩ ++ " FROM " ++
      ident table ++ " WHERE ") :: (pieces ident inner ++ [.text ")"])
  | .junction op parts => .separated (keyword op) (partPieces ident parts)

/-- The parts of a junction, junctions among them in parentheses. -/
def partPieces (ident : String → String) : List (Expr α) → List (Fragment α)
  | [] => []
  | e :: es =>
    (if e.isJunction then .text "(" :: (pieces ident e ++ [.text ")"]) else pieces ident e) ::
      partPieces ident es

end

mutual

/-- Replaces every operand, in the order of the text. -/
def mapM {m : Type → Type} [Monad m] (f : α → m β) : Expr α → m (Expr β)
  | .constant b => pure (.constant b)
  | .nullTest c negated => pure (.nullTest c negated)
  | .compare c op a => do pure (.compare c op (← f a))
  | .between c low high => do
    let l ← f low
    let h ← f high
    pure (.between c l h)
  | .among c negated operands => do pure (.among c negated (← operands.mapM f))
  | .amongRows c table key inner => do pure (.amongRows c table key (← mapM f inner))
  | .junction op parts => do pure (.junction op (← mapPartsM f parts))

def mapPartsM {m : Type → Type} [Monad m] (f : α → m β) : List (Expr α) → m (List (Expr β))
  | [] => pure []
  | e :: es => do
    let e' ← mapM f e
    let es' ← mapPartsM f es
    pure (e' :: es')

end

end Expr

end EntityStore.Sql
