import EntityStore.Condition.Basic

namespace EntityStore.Condition

/-- A visit that keeps a state, also when it fails. -/
abbrev Visit (σ α : Type) := ExceptT Error (StateM σ) α

/-- What a visit comes to, with the state that it leaves if it succeeds. -/
def Visit.result {σ α : Type} (x : Visit σ α) (s : σ) : Except Error (α × σ) :=
  match x s with
  | (.ok a, s') => .ok (a, s')
  | (.error e, _) => .error e

def Visit.ofExcept {σ α : Type} : Except Error α → Visit σ α
  | .ok a => pure a
  | .error e => throw e

def refuse {σ α : Type} (kind : ConditionKind) : Visit σ α := throw (.unsupportedKind kind)

/-- A handler for each kind of nodes; one that is not given refuses its kind. -/
structure Visitor (σ β : Type) where
  unary : FieldRef → UnaryOp → Visit σ β := fun _ _ => refuse .unary
  binary : FieldRef → BinaryOp → Value → Visit σ β := fun _ _ _ => refuse .binary
  ternary : FieldRef → TernaryOp → Value → Value → Visit σ β := fun _ _ _ _ => refuse .ternary
  collection : FieldRef → CollectionOp → List Value → Visit σ β := fun _ _ _ => refuse .collection
  /-- Called before the inner condition of a relation is visited. -/
  enter : FieldRef → Visit σ Unit := fun _ => pure ()
  /-- Given the inner condition and its result. -/
  relational : FieldRef → Condition → β → Visit σ β := fun _ _ _ => refuse .relational
  /-- Given the children and their results. -/
  composite : Connective → List Condition → List β → Visit σ β := fun _ _ _ => refuse .composite

variable {σ β : Type}

mutual

/-- Visits a condition, children from left to right and before their parent. -/
def visit (v : Visitor σ β) : Condition → Visit σ β
  | .unary field op => v.unary field op
  | .binary field op operand => v.binary field op operand
  | .ternary field op first second => v.ternary field op first second
  | .collection field op operands => v.collection field op operands
  | .relational relation inner => do
    v.enter relation
    let output ← visit v inner
    v.relational relation inner output
  | .composite op children => do
    let outputs ← visitAll v children
    v.composite op children outputs

def visitAll (v : Visitor σ β) : List Condition → Visit σ (List β)
  | [] => pure []
  | c :: cs => do
    let output ← visit v c
    let outputs ← visitAll v cs
    pure (output :: outputs)

end

/-- Writes a result down and gives it back. -/
def note (s : String) : Visit (List String) String := do
  modify (· ++ [s])
  pure s

def bracketed (vs : List Value) : String :=
  "[" ++ String.intercalate "," (vs.map Value.literal) ++ "]"

/-- A visitor that writes each node down as text, restricted to some kinds of nodes; `entering`
also writes down where a relation begins. -/
def outline (kinds : List ConditionKind) (entering : Bool) : Visitor (List String) String where
  unary field op :=
    if kinds.contains .unary then note (op.name ++ "(" ++ field.label ++ ")") else refuse .unary
  binary field op operand :=
    if kinds.contains .binary then
      note (op.name ++ "(" ++ field.label ++ "," ++ operand.literal ++ ")")
    else refuse .binary
  ternary field op first second :=
    if kinds.contains .ternary then
      note (op.name ++ "(" ++ field.label ++ "," ++ first.literal ++ "," ++ second.literal ++ ")")
    else refuse .ternary
  collection field op operands :=
    if kinds.contains .collection then
      note (op.name ++ "(" ++ field.label ++ "," ++ bracketed operands ++ ")")
    else refuse .collection
  enter relation := do
    if entering then discard (note ("enter(" ++ relation.label ++ ")"))
  relational relation inner output :=
    if kinds.contains .relational then
      note ("rel(" ++ relation.label ++ "," ++ inner.kind.name ++ ":" ++ output ++ ")")
    else refuse .relational
  composite op children outputs :=
    if kinds.contains .composite then
      note (op.name ++ Nat.repr children.length ++ "(" ++ String.intercalate "," outputs ++ ")")
    else refuse .composite

end EntityStore.Condition
