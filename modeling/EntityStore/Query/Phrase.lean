import EntityStore.Query.Filter
import EntityStore.Sql.Writer

namespace EntityStore

open Condition (Visit Visitor visit)

def UnaryOp.test : UnaryOp → String
  | .isNull => "IS NULL"
  | .isNotNull => "IS NOT NULL"

def CollectionOp.keyword : CollectionOp → String
  | .isIn => "IN"
  | .notIn => "NOT IN"

/-- A condition as it is written, and whether it needs parentheses inside of another. -/
structure Phrase where
  sql : String
  compound : Bool

def Phrase.simple (sql : String) : Phrase := ⟨sql, false⟩

/-- As a part of a composite. -/
def Phrase.part (p : Phrase) : String := if p.compound then "(" ++ p.sql ++ ")" else p.sql

/-- A relation whose inner condition is being written. -/
structure Scope where
  join : Option Nat
  qualifier : String

/-- A writer on its way through a condition, inside of some relations, the innermost first. -/
structure ConditionWriter where
  writer : Writer
  scopes : List Scope

namespace ConditionWriter

/-- Starts outside of all relations, and leaves what it has bound to the writer. -/
def start {α : Type} (x : Visit ConditionWriter α) : Visit Writer α := fun w =>
  let (result, s) := x ⟨w, []⟩
  (result, s.writer)

/-- Lets the writer work. -/
def writing {α : Type} (x : Visit Writer α) : Visit ConditionWriter α := fun s =>
  let (result, w) := x s.writer
  (result, ⟨w, s.scopes⟩)

/-- The table that columns are taken from. -/
def qualifier (root : String) (s : ConditionWriter) : String :=
  match s.scopes with
  | [] => root
  | scope :: _ => scope.qualifier

/-- The join of the innermost relation. -/
def join (s : ConditionWriter) : Option Nat := s.scopes.head?.bind (·.join)

variable (d : Dialect) (reach : Reach) (qualify : Bool) (root : String)

def column (field : FieldRef) : Visit ConditionWriter String := do
  let s ← get
  pure (if qualify then d.qualified (s.qualifier root) field.field.column
    else d.ident field.field.column)

/-- The mark for the operand of a comparison. -/
def operand (field : FieldRef) (op : BinaryOp) (v : Value) : Visit Writer String :=
  if op.isPattern then
    match v with
    | .text s => Writer.bind d .text (.text (Condition.likePattern op s))
    | _ => throw (.invalidArgument (.patternOperand op field.label))
  else Writer.bind d field.field.type v

/-- The scope of a relation: the join that takes it from here, or its table in a subquery. -/
def scope (relation : FieldRef) (s : ConditionWriter) : Except Error Scope :=
  match reach with
  | .joined joins =>
    match joins.findIdx? fun j => j.toHop.takes s.join relation with
    | none => .error (.schemaMismatch (.unresolvedRelation relation.label))
    | some index =>
      match joins[index]? with
      | none => .error (.schemaMismatch (.unresolvedRelation relation.label))
      | some join => .ok ⟨some index, join.name⟩
  | .nested => (Hop.of relation none).map fun hop => ⟨none, hop.target.id.table⟩

/-- Writes a condition down, binding operands as they come. -/
def visitor : Visitor ConditionWriter Phrase where
  unary field op := do
    let column ← column d qualify root field
    pure (.simple (column ++ " " ++ op.test))
  binary field op v := do
    let column ← column d qualify root field
    if v.isNull then
      match op with
      | .eq => pure (.simple (column ++ " IS NULL"))
      | .notEq => pure (.simple (column ++ " IS NOT NULL"))
      | _ => throw (.invalidArgument (.nullOperand op field.label))
    else
      writing do
        let mark ← operand d field op v
        pure (.simple (column ++ " " ++ (Condition.comparison op).symbol ++ " " ++ mark))
  ternary field op first second := do
    let column ← column d qualify root field
    match op with
    | .between =>
      writing do
        let low ← Writer.bind d field.field.type first
        let high ← Writer.bind d field.field.type second
        pure (.simple (column ++ " BETWEEN " ++ low ++ " AND " ++ high))
  collection field op vs :=
    if vs.isEmpty then
      pure (.simple (match op with
        | .isIn => "1 = 0"
        | .notIn => "1 = 1"))
    else do
      let column ← column d qualify root field
      writing do
        let marks ← vs.mapM (Writer.bind d field.field.type)
        pure (.simple (column ++ " " ++ op.keyword ++ " (" ++ String.intercalate ", " marks ++ ")"))
  enter relation := do
    let s ← get
    let scope ← .ofExcept (s.scope reach relation)
    set { s with scopes := scope :: s.scopes }
  relational relation _ output := do
    modify fun s => { s with scopes := s.scopes.tail }
    match reach with
    | .joined _ => pure output
    | .nested =>
      let hop ← .ofExcept (Hop.of relation none)
      let column ← column d qualify root relation
      let table := hop.target.id.table
      pure (.simple (column ++ " IN (SELECT " ++ d.qualified table hop.targetKey.column ++
        " FROM " ++ d.ident table ++ " WHERE " ++ output.sql ++ ")"))
  composite op children outputs :=
    match children, outputs with
    | _, [] => pure (.simple (match op with
        | .and => "1 = 1"
        | .or => "1 = 0"))
    | [_], [single] => pure single
    | _, parts => pure ⟨String.intercalate (Sql.keyword op) (parts.map Phrase.part), true⟩

/-- A condition about a table. -/
def write (c : Condition) : Visit Writer Phrase := start (visit (visitor d reach qualify root) c)

end ConditionWriter

end EntityStore
