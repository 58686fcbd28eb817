import EntityStore.Proofs.Outcome
import EntityStore.Proofs.Sql.Shape
import EntityStore.Query.Filter

namespace EntityStore

/-- Forgets what is bound. -/
def Param.blank (_ : Param) : Unit := ()

namespace Condition

open Param (blank)

/-- Conditions are built from children that have the property already. -/
@[elab_as_elim, induction_eliminator]
theorem inductChildren {motive : Condition → Prop}
    (unary : ∀ field op, motive (.unary field op))
    (binary : ∀ field op operand, motive (.binary field op operand))
    (ternary : ∀ field op first second, motive (.ternary field op first second))
    (collection : ∀ field op operands, motive (.collection field op operands))
    (relational : ∀ relation inner, motive inner → motive (.relational relation inner))
    (composite : ∀ op children, (∀ c ∈ children, motive c) → motive (.composite op children)) :
    (c : Condition) → motive c
  | .unary field op => unary field op
  | .binary field op operand => binary field op operand
  | .ternary field op first second => ternary field op first second
  | .collection field op operands => collection field op operands
  | .relational relation inner => relational relation inner
      (inductChildren unary binary ternary collection relational composite inner)
  | .composite op children => composite op children fun c _ =>
      inductChildren unary binary ternary collection relational composite c

/-- What an operand decides besides its value: null is tested, not bound, and a pattern has to be a
text. -/
def operandForm (op : BinaryOp) (v : Value) : Value :=
  if v.isNull then .null
  else if op.isPattern then
    match v with
    | .text _ => .text ""
    | _ => .bool false
  else .bool false

mutual

/-- The condition without the values of its operands. -/
def form : Condition → Condition
  | .unary field op => .unary field op
  | .binary field op operand => .binary field op (operandForm op operand)
  | .ternary field op _ _ => .ternary field op .null .null
  | .collection field op operands => .collection field op (operands.map fun _ => .null)
  | .relational relation inner => .relational relation (form inner)
  | .composite op children => .composite op (formAll children)

def formAll : List Condition → List Condition
  | [] => []
  | c :: cs => form c :: formAll cs

end

theorem binaryExpr_form (column : Sql.ColumnRef) (field : FieldRef) (op : BinaryOp) (v : Value) :
    (binaryExpr column field op (operandForm op v)).map (Sql.Expr.map blank) =
      (binaryExpr column field op v).map (Sql.Expr.map blank) := by
  cases v <;> cases op <;> rfl

theorem collectionExpr_form (column : Sql.ColumnRef) (field : FieldRef) (op : CollectionOp)
    (vs : List Value) :
    (collectionExpr column field op (vs.map fun _ => .null)).map blank =
      (collectionExpr column field op vs).map blank := by
  cases vs with
  | nil => rfl
  | cons v vs => simp [collectionExpr, Sql.Expr.map, Function.comp_def, blank]

section

variable (reach : Reach) (qualify : Bool)

theorem toExprs_eq (scope : Option Nat) (name : String) (cs : List Condition) :
    toExprs reach qualify scope name cs = cs.mapM (toExpr reach qualify scope name) := by
  induction cs with
  | nil => rfl
  | cons c cs ih =>
    rw [toExprs, List.mapM_cons, ih]
    rfl

theorem toExprs_form (scope : Option Nat) (name : String) (cs : List Condition)
    (each : ∀ c ∈ cs, (c.form.toExpr reach qualify scope name).map (Sql.Expr.map blank) =
      (c.toExpr reach qualify scope name).map (Sql.Expr.map blank)) :
    (toExprs reach qualify scope name (formAll cs)).map (List.map (Sql.Expr.map blank)) =
      (toExprs reach qualify scope name cs).map (List.map (Sql.Expr.map blank)) := by
  induction cs with
  | nil => rfl
  | cons c cs ih =>
    rw [formAll, toExprs, toExprs]
    refine Except.map_bind_congr (each c List.mem_cons_self) fun e e' head => ?_
    refine Except.map_bind_congr (ih fun c' h => each c' (List.mem_cons_of_mem c h)) ?_
    intro es es' tail
    simp only [Except.map, List.map_cons, head, tail]

/-- The form of the search condition does not depend on the values of the operands. -/
theorem toExpr_form (scope : Option Nat) (name : String) (c : Condition) :
    (c.form.toExpr reach qualify scope name).map (Sql.Expr.map blank) =
      (c.toExpr reach qualify scope name).map (Sql.Expr.map blank) := by
  induction c generalizing scope name with
  | unary field op => simp [form, toExpr]
  | binary field op operand =>
    simp only [form, toExpr]
    exact binaryExpr_form _ field op operand
  | ternary field op first second => cases op; rfl
  | collection field op operands =>
    simp only [form, toExpr, Except.map]
    rw [collectionExpr_form]
  | relational relation inner ih =>
    simp only [form, toExpr]
    cases reach with
    | joined joins =>
      dsimp only
      cases joins.findIdx? fun j => j.toHop.takes scope relation with
      | none => rfl
      | some index =>
        dsimp only
        cases joins[index]? with
        | none => rfl
        | some join => exact ih (some index) join.name
    | nested =>
      refine Except.map_bind_right _ fun hop => ?_
      refine Except.map_bind_congr (ih none hop.target.id.table) fun e e' same => ?_
      simp only [Except.map, Sql.Expr.map, same]
  | composite op children ih =>
    refine Except.map_bind_congr (toExprs_form reach qualify scope name children fun c h =>
      ih c h scope name) fun es es' same => ?_
    simp only [Except.map, Sql.Expr.map_ofParts, same]

end

theorem hopsOfAll_form (root : String) (scope : Shape) (parent : Option Nat) (known : List Hop)
    (cs : List Condition)
    (each : ∀ c ∈ cs, ∀ scope parent known, c.form.hops root scope parent known =
      c.hops root scope parent known) :
    hopsOfAll root scope parent known (formAll cs) = hopsOfAll root scope parent known cs := by
  induction cs generalizing known with
  | nil => rfl
  | cons c cs ih =>
    simp only [formAll, hopsOfAll, each c List.mem_cons_self]
    cases c.hops root scope parent known with
    | error e => rfl
    | ok next => exact ih next fun c' h => each c' (List.mem_cons_of_mem c h)

/-- The joins do not depend on the operands. -/
theorem hops_form (root : String) (scope : Shape) (parent : Option Nat) (known : List Hop)
    (c : Condition) : c.form.hops root scope parent known = c.hops root scope parent known := by
  induction c generalizing scope parent known with
  | unary field op => rfl
  | binary field op operand => rfl
  | ternary field op first second => rfl
  | collection field op operands => rfl
  | relational relation inner ih => simp only [form, hops, ih]
  | composite op children ih =>
    exact hopsOfAll_form root scope parent known children fun c h scope parent known =>
      ih c h scope parent known

theorem joins_form (c : Condition) (e : Entity) : c.form.joins e = c.joins e := by
  rw [joins, joins, hops_form]

end Condition

end EntityStore
