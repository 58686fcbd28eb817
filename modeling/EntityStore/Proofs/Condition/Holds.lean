import EntityStore.Proofs.Condition.Truth

namespace EntityStore

open Engine (Truth)
open Sql (Collation Row)

namespace Engine.Truth

theorem and_eq_true {a b : Truth} : a.and b = some true ↔ a = some true ∧ b = some true := by
  rcases a with _ | _ | _ <;> rcases b with _ | _ | _ <;> simp [Truth.and]

theorem or_eq_true {a b : Truth} : a.or b = some true ↔ a = some true ∨ b = some true := by
  rcases a with _ | _ | _ <;> rcases b with _ | _ | _ <;> simp [Truth.or]

theorem join_and_eq_true {ts : List Truth} : join .and ts = some true ↔ ∀ t ∈ ts, t = some true := by
  induction ts with
  | nil => simp [join]
  | cons t ts ih => rw [join_cons, both, and_eq_true, List.forall_mem_cons, ih]

theorem join_or_eq_true {ts : List Truth} : join .or ts = some true ↔ some true ∈ ts := by
  induction ts with
  | nil => simp [join]
  | cons t ts ih => rw [join_cons, both, or_eq_true, List.mem_cons, ih, eq_comm]

end Engine.Truth

/-- A foreign key with this value refers to a row with that key. -/
def Sql.Collation.Refers (k : Collation) (v key : Value) : Prop :=
  v.isNull = false ∧ key.isNull = false ∧ k.same v key = true

theorem Sql.Collation.keyTruth_eq_true {k : Collation} {v key : Value} :
    k.keyTruth v key = some true ↔ k.Refers v key := by
  unfold keyTruth Refers
  cases v.isNull <;> cases key.isNull <;> simp

/-- Where foreign keys lead: the table and its key column, the value of the foreign key, and a row
that it leads to. -/
abbrev Links := String → String → Value → Row → Prop

/-- A foreign key leads to the rows that it refers to. -/
def Sql.Collation.partner (k : Collation) (tables : String → List Row) : Links :=
  fun table key v row => row ∈ tables table ∧ k.Refers v (row key)

namespace Condition

section

variable (k : Collation) (leads : Links)

def HoldsAlong (row : Row) : Condition → Prop
  | .unary f .isNull => (row f.field.column).isNull = true
  | .unary f .isNotNull => (row f.field.column).isNull = false
  | .binary f op operand =>
    binaryTruth k f.field.type op (row f.field.column) operand = some true
  | .ternary f .between low high =>
    BinaryOp.greaterOrEq.truth k f.field.type (row f.field.column) low = some true ∧
      BinaryOp.lessOrEq.truth k f.field.type (row f.field.column) high = some true
  | .collection f .isIn operands =>
    ∃ v ∈ operands, BinaryOp.eq.truth k f.field.type (row f.field.column) v = some true
  | .collection f .notIn operands =>
    ∀ v ∈ operands, BinaryOp.notEq.truth k f.field.type (row f.field.column) v = some true
  | .relational relation inner =>
    ∃ target key, relation.field.references = some target ∧ target.key? = some key ∧
      ∃ other, leads target.id.table key.column (row relation.field.column) other ∧
        HoldsAlong other inner
  | .composite .and children => ∀ c ∈ children, HoldsAlong row c
  | .composite .or children => ∃ c, ∃ _ : c ∈ children, HoldsAlong row c

def Holds (tables : String → List Row) : Row → Condition → Prop :=
  HoldsAlong k (k.partner tables)

end

variable {k : Collation} {leads : Links} {row : Row}

theorem holdsAlong_relational {relation : FieldRef} {inner : Condition} {target : Shape}
    {key : Attribute} (points : relation.field.references = some target)
    (keyed : target.key? = some key) :
    (relational relation inner).HoldsAlong k leads row ↔
      ∃ other, leads target.id.table key.column (row relation.field.column) other ∧
        inner.HoldsAlong k leads other := by
  rw [HoldsAlong]
  constructor
  · rintro ⟨target', key', points', keyed', holds⟩
    obtain rfl := Option.some.inj (points.symm.trans points')
    obtain rfl := Option.some.inj (keyed.symm.trans keyed')
    exact holds
  · exact fun holds => ⟨target, key, points, keyed, holds⟩

/-- A junction is true where its parts are, as far as its connective asks for them. -/
theorem join_eq_true_iff (op : Connective) {ts : List Truth} {cs : List Condition}
    (each : List.Forall₂ (fun t c => t = some true ↔ Condition.HoldsAlong k leads row c) ts cs) :
    Truth.join op ts = some true ↔ (Condition.composite op cs).HoldsAlong k leads row := by
  cases op with
  | and =>
    rw [Truth.join_and_eq_true, HoldsAlong]
    induction each with
    | nil => simp
    | cons first _ ih => rw [List.forall_mem_cons, List.forall_mem_cons, first, ih]
  | or =>
    rw [Truth.join_or_eq_true, HoldsAlong]
    induction each with
    | nil => simp
    | cons first _ ih => rw [List.mem_cons, ih, eq_comm, first]; simp

/-- Conditions about one row and its columns alone. -/
def IsLeaf : Condition → Prop
  | .relational .. | .composite .. => False
  | _ => True

theorem truth_leaf {c : Condition} (leaf : c.IsLeaf) (rows : Path → Row) (p : Path) :
    c.truth k rows p = some true ↔ c.HoldsAlong k leads (rows p) := by
  cases c with
  | unary f op => cases op <;> simp [truth, HoldsAlong]
  | binary f op v => rw [truth, HoldsAlong]
  | ternary f op v w =>
    cases op
    rw [truth, HoldsAlong, Truth.and_eq_true]
  | collection f op vs =>
    cases op with
    | isIn =>
      rw [truth, HoldsAlong, Truth.join_or_eq_true, List.mem_map]
    | notIn => rw [truth, HoldsAlong, Truth.join_and_eq_true, List.forall_mem_map]
  | relational r inner => exact leaf.elim
  | composite op cs => exact leaf.elim

/-- A leaf has its truth wherever columns are found in the row it is about. -/
theorem truth_toExpr_leaf {c : Condition} (leaf : c.IsLeaf) {reach : Reach} {qualify : Bool}
    {scope : Option Nat} {name : String} {e : Sql.Expr Param} {tables : String → List Row}
    (rows : Path → Row) (p : Path) {frames : Sql.Rows}
    (found : ∀ field, frames.value (columnOf qualify name field) = rows p field.field.column)
    (h : c.toExpr reach qualify scope name = .ok e) :
    e.truth k tables frames = c.truth k rows p := by
  cases c with
  | unary f op =>
    cases h
    rw [Sql.Expr.truth, found]
    cases op with
    | isNull => exact congrArg some (Bool.bne_false _)
    | isNotNull => exact congrArg some (Bool.bne_true _)
  | binary f op v =>
    rw [truth_binaryExpr h, found]
    rfl
  | ternary f op v w =>
    cases op
    cases h
    rw [Sql.Expr.truth, found]
    rfl
  | collection f op vs =>
    cases h
    exact truth_collectionExpr op vs (found f)
  | relational r inner => exact leaf.elim
  | composite op cs => exact leaf.elim

end Condition

end EntityStore
