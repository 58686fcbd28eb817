namespace EntityStore

inductive UnaryOp where
  | isNull
  | isNotNull
  deriving DecidableEq

inductive BinaryOp where
  | eq
  | notEq
  | greaterThan
  | lessThan
  | greaterOrEq
  | lessOrEq
  | startsWith
  | endsWith
  | contains
  | notStartsWith
  | notEndsWith
  | notContains
  deriving DecidableEq

inductive TernaryOp where
  | between
  deriving DecidableEq

/-- Comparisons of a field with a list of operands. -/
inductive CollectionOp where
  | isIn
  | notIn
  deriving DecidableEq

inductive Connective where
  | and
  | or
  deriving DecidableEq

inductive ConditionKind where
  | unary
  | binary
  | ternary
  | collection
  | relational
  | composite
  deriving DecidableEq

def UnaryOp.name : UnaryOp → String
  | .isNull => "IsNull"
  | .isNotNull => "IsNotNull"

def BinaryOp.name : BinaryOp → String
  | .eq => "Eq"
  | .notEq => "NotEq"
  | .greaterThan => "GreaterThan"
  | .lessThan => "LessThan"
  | .greaterOrEq => "GreaterOrEq"
  | .lessOrEq => "LessOrEq"
  | .startsWith => "StartsWith"
  | .endsWith => "EndsWith"
  | .contains => "Contains"
  | .notStartsWith => "NotStartsWith"
  | .notEndsWith => "NotEndsWith"
  | .notContains => "NotContains"

def TernaryOp.name : TernaryOp → String
  | .between => "Between"

def CollectionOp.name : CollectionOp → String
  | .isIn => "In"
  | .notIn => "NotIn"

def Connective.name : Connective → String
  | .and => "And"
  | .or => "Or"

def ConditionKind.name : ConditionKind → String
  | .unary => "unary"
  | .binary => "binary"
  | .ternary => "ternary"
  | .collection => "collection"
  | .relational => "relational"
  | .composite => "composite"

def UnaryOp.all : List UnaryOp := [.isNull, .isNotNull]

def BinaryOp.all : List BinaryOp :=
  [.eq, .notEq, .greaterThan, .lessThan, .greaterOrEq, .lessOrEq, .startsWith, .endsWith, .contains,
    .notStartsWith, .notEndsWith, .notContains]

def CollectionOp.all : List CollectionOp := [.isIn, .notIn]

def Connective.all : List Connective := [.and, .or]

def ConditionKind.all : List ConditionKind :=
  [.unary, .binary, .ternary, .collection, .relational, .composite]

/-- Operators that compare a text with a pattern. -/
def BinaryOp.isPattern : BinaryOp → Bool
  | .startsWith | .endsWith | .contains | .notStartsWith | .notEndsWith | .notContains => true
  | _ => false

end EntityStore
