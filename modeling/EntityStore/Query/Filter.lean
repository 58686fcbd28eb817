import EntityStore.Query.Joins
import EntityStore.Sql.Statement

namespace EntityStore

/-- How a statement reaches related tables. -/
inductive Reach where
  | joined (joins : List Join)
  | nested

namespace Condition

def comparison : BinaryOp → Sql.Comparison
  | .eq => .eq
  | .notEq => .ne
  | .greaterThan => .gt
  | .lessThan => .lt
  | .greaterOrEq => .ge
  | .lessOrEq => .le
  | .startsWith | .endsWith | .contains => .like
  | .notStartsWith | .notEndsWith | .notContains => .notLike

def likePattern (op : BinaryOp) (text : String) : String :=
  match op with
  | .startsWith | .notStartsWith => text ++ "%"
  | .endsWith | .notEndsWith => "%" ++ text
  | _ => "%" ++ text ++ "%"

/-- A comparison with one operand. Equality with null is a test for null, and patterns are texts
whatever the type of the field. -/
def binaryExpr (column : Sql.ColumnRef) (field : FieldRef) (op : BinaryOp) (operand : Value) :
    Except Error (Sql.Expr Param) :=
  if operand.isNull then
    match op with
    | .eq => .ok (.nullTest column false)
    | .notEq => .ok (.nullTest column true)
    | _ => .error (.invalidArgument (.nullOperand op field.label))
  else if op.isPattern then
    match operand with
    | .text s => .ok (.compare column (comparison op) ⟨.text, .text (likePattern op s)⟩)
    | _ => .error (.invalidArgument (.patternOperand op field.label))
  else .ok (.compare column (comparison op) ⟨field.field.type, operand⟩)

/-- Membership in a list; nothing is in the empty list. -/
def collectionExpr (column : Sql.ColumnRef) (field : FieldRef) (op : CollectionOp)
    (operands : List Value) : Sql.Expr Param :=
  if operands.isEmpty then .constant (op == .notIn)
  else .among column (op == .notIn) (operands.map fun v => ⟨field.field.type, v⟩)

/-- The column of a field, with its table's name when the statement knows several tables. -/
def columnOf (qualify : Bool) (name : String) (field : FieldRef) : Sql.ColumnRef :=
  ⟨if qualify then some name else none, field.field.column⟩

mutual

/-- The search condition of a condition whose fields belong to the table called `name`, which the
join at `scope` introduced. -/
def toExpr (reach : Reach) (qualify : Bool) :
    Option Nat → String → Condition → Except Error (Sql.Expr Param)
  | _, name, .unary field op => .ok (.nullTest (columnOf qualify name field) (op == .isNotNull))
  | _, name, .binary field op operand => binaryExpr (columnOf qualify name field) field op operand
  | _, name, .ternary field .between first second =>
    .ok (.between (columnOf qualify name field) ⟨field.field.type, first⟩
      ⟨field.field.type, second⟩)
  | _, name, .collection field op operands =>
    .ok (collectionExpr (columnOf qualify name field) field op operands)
  | scope, name, .relational relation inner =>
    match reach with
    | .joined joins =>
      match joins.findIdx? fun j => j.toHop.takes scope relation with
      | none => .error (.schemaMismatch (.unresolvedRelation relation.label))
      | some index =>
        match joins[index]? with
        | none => .error (.schemaMismatch (.unresolvedRelation relation.label))
        | some join => toExpr reach qualify (some index) join.name inner
    | .nested => do
      let hop ← Hop.of relation none
      let table := hop.target.id.table
      let e ← toExpr reach qualify none table inner
      .ok (.amongRows (columnOf qualify name relation) table hop.targetKey.column e)
  | scope, name, .composite op children => do
    let es ← toExprs reach qualify scope name children
    .ok (.ofParts op es)

def toExprs (reach : Reach) (qualify : Bool) :
    Option Nat → String → List Condition → Except Error (List (Sql.Expr Param))
  | _, _, [] => .ok []
  | scope, name, c :: cs => do
    let e ← toExpr reach qualify scope name c
    let es ← toExprs reach qualify scope name cs
    .ok (e :: es)

end

end Condition

/-- The rows that a statement is about. -/
structure Filter where
  joins : List Join
  clause : Option (Sql.Expr Param)
  qualify : Bool

namespace Query

/-- The filter of a query, with joins or, for statements that cannot join, without. -/
def filter (q : Query) (joining : Bool) : Except Error Filter :=
  match q.predicate with
  | none => .ok ⟨[], none, false⟩
  | some c => do
    let joins ← c.joins q.entity
    let qualify := !joins.isEmpty
    let reach := if joining then Reach.joined joins else Reach.nested
    let e ← c.toExpr reach qualify none q.entity.id.table
    .ok ⟨if joining then joins else [], some e, qualify⟩

end Query

namespace Filter

def column (f : Filter) (r : FieldRef) : Sql.ColumnRef :=
  ⟨if f.qualify then some r.owner.table else none, r.field.column⟩

/-- A join as it is written: its parent is an earlier join or the table of the relation itself. -/
def joinClause (f : Filter) (j : Join) : Sql.JoinClause where
  table := j.target.id.table
  name := j.name
  parent := match j.parent with
    | none => j.relation.owner.table
    | some index => match f.joins[index]? with
      | some p => p.name
      | none => j.relation.owner.table
  foreignKey := j.relation.field.column
  key := j.targetKey.column

def source (f : Filter) (table : String) : Sql.Source Param :=
  ⟨table, f.joins.map f.joinClause, f.clause⟩

end Filter

end EntityStore
