import EntityStore.Entity
import EntityStore.Value.Basic

namespace EntityStore

/-- A condition on rows: leaves compare a field with operands, and relational nodes move to the
entity that a foreign key points at. -/
inductive Condition where
  | unary (field : FieldRef) (op : UnaryOp)
  | binary (field : FieldRef) (op : BinaryOp) (operand : Value)
  | ternary (field : FieldRef) (op : TernaryOp) (first second : Value)
  | collection (field : FieldRef) (op : CollectionOp) (operands : List Value)
  /-- The inner condition, about the row that the relation points at. -/
  | relational (relation : FieldRef) (inner : Condition)
  | composite (op : Connective) (children : List Condition)

namespace Condition

def kind : Condition → ConditionKind
  | .unary .. => .unary
  | .binary .. => .binary
  | .ternary .. => .ternary
  | .collection .. => .collection
  | .relational .. => .relational
  | .composite .. => .composite

/-- The parts that a condition adds to a composite of `op`: its own children if it is one. -/
def parts (op : Connective) : Condition → List Condition
  | .composite op' children => if op' = op then children else [.composite op' children]
  | c => [c]

/-- Joins two conditions into one flat composite. -/
def combine (op : Connective) (left right : Condition) : Condition :=
  .composite op (left.parts op ++ right.parts op)

def and (left right : Condition) : Condition := combine .and left right

def or (left right : Condition) : Condition := combine .or left right

mutual

def hasRelations : Condition → Bool
  | .relational .. => true
  | .composite _ children => anyRelations children
  | _ => false

def anyRelations : List Condition → Bool
  | [] => false
  | c :: cs => hasRelations c || anyRelations cs

end

mutual

/-- The fields that a condition mentions: children from left to right, a relation after its inner
condition. -/
def fields : Condition → List FieldRef
  | .unary field _ => [field]
  | .binary field _ _ => [field]
  | .ternary field _ _ _ => [field]
  | .collection field _ _ => [field]
  | .relational relation inner => fields inner ++ [relation]
  | .composite _ children => fieldsOfAll children

def fieldsOfAll : List Condition → List FieldRef
  | [] => []
  | c :: cs => fields c ++ fieldsOfAll cs

end

def sameOperands : List Value → List Value → Bool
  | [], [] => true
  | v :: vs, w :: ws => v.equals w && sameOperands vs ws
  | _, _ => false

mutual

/-- Equality of trees: the same nodes, fields and operands in the same order. -/
def equals : Condition → Condition → Bool
  | .unary f op, .unary g op' => f.same g && op == op'
  | .binary f op v, .binary g op' w => f.same g && op == op' && v.equals w
  | .ternary f op v v', .ternary g op' w w' =>
    f.same g && op == op' && v.equals w && v'.equals w'
  | .collection f op vs, .collection g op' ws => f.same g && op == op' && sameOperands vs ws
  | .relational f c, .relational g d => f.same g && equals c d
  | .composite op cs, .composite op' ds => op == op' && allEqual cs ds
  | _, _ => false

def allEqual : List Condition → List Condition → Bool
  | [], [] => true
  | c :: cs, d :: ds => equals c d && allEqual cs ds
  | _, _ => false

end

/-- Wraps a condition in a number of composites with one child each. -/
def nested (op : Connective) : Nat → Condition → Condition
  | 0, c => c
  | n + 1, c => .composite op [nested op n c]

end Condition

end EntityStore
