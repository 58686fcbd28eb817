import EntityStore.Proofs.Sql.Meaning
import EntityStore.Proofs.Condition.Form

namespace EntityStore

open Engine (Truth)
open Sql (Collation Row)

/-- Relations followed from the root, each known by its entity and its name. -/
abbrev Path := List (EntityName × String)

def FieldRef.step (r : FieldRef) : EntityName × String := (r.owner, r.field.name)

/-- Whether a text matches the pattern made of an operand, which has to be a text itself. -/
def Sql.Collation.matches (k : Collation) (v : Value) (pattern : String → String) : Value → Bool
  | .text s => k.like v ⟨.text, .text (pattern s)⟩
  | _ => false

/-- A comparison of two values that are not null, the second as an operand of some type. -/
def BinaryOp.holds (k : Collation) (type : FieldType) (v operand : Value) : BinaryOp → Bool
  | .eq => k.equal v ⟨type, operand⟩
  | .notEq => !k.equal v ⟨type, operand⟩
  | .greaterThan => k.greater v ⟨type, operand⟩
  | .lessThan => k.less v ⟨type, operand⟩
  | .greaterOrEq => k.greater v ⟨type, operand⟩ || k.equal v ⟨type, operand⟩
  | .lessOrEq => k.less v ⟨type, operand⟩ || k.equal v ⟨type, operand⟩
  | .startsWith => k.matches v (fun s => s ++ "%") operand
  | .endsWith => k.matches v (fun s => "%" ++ s) operand
  | .contains => k.matches v (fun s => "%" ++ s ++ "%") operand
  | .notStartsWith => !k.matches v (fun s => s ++ "%") operand
  | .notEndsWith => !k.matches v (fun s => "%" ++ s) operand
  | .notContains => !k.matches v (fun s => "%" ++ s ++ "%") operand

/-- Unknown where one of the two is null. -/
def BinaryOp.truth (k : Collation) (type : FieldType) (op : BinaryOp) (v operand : Value) : Truth :=
  if v.isNull || operand.isNull then none else some (op.holds k type v operand)

namespace Condition

/-- Equality with null asks whether the value is null. -/
def binaryTruth (k : Collation) (type : FieldType) (op : BinaryOp) (v operand : Value) : Truth :=
  match op, operand with
  | .eq, .null => some v.isNull
  | .notEq, .null => some !v.isNull
  | _, _ => op.truth k type v operand

section

variable (k : Collation) (rows : Path → Row)

mutual

/-- The truth of a condition on the row at the end of a path. -/
def truth : Path → Condition → Truth
  | p, .unary f .isNull => some (rows p f.field.column).isNull
  | p, .unary f .isNotNull => some !(rows p f.field.column).isNull
  | p, .binary f op operand => binaryTruth k f.field.type op (rows p f.field.column) operand
  | p, .ternary f .between low high =>
    (BinaryOp.greaterOrEq.truth k f.field.type (rows p f.field.column) low).and
      (BinaryOp.lessOrEq.truth k f.field.type (rows p f.field.column) high)
  | p, .collection f .isIn operands =>
    Truth.join .or (operands.map (BinaryOp.eq.truth k f.field.type (rows p f.field.column)))
  | p, .collection f .notIn operands =>
    Truth.join .and (operands.map (BinaryOp.notEq.truth k f.field.type (rows p f.field.column)))
  | p, .relational relation inner => truth (p ++ [relation.step]) inner
  | p, .composite op children => Truth.join op (truthOfAll p children)

def truthOfAll : Path → List Condition → List Truth
  | _, [] => []
  | p, c :: cs => truth p c :: truthOfAll p cs

end

end

variable {k : Collation} {rows : Path → Row} {p : Path}

theorem truthOfAll_eq (cs : List Condition) :
    truthOfAll k rows p cs = cs.map (truth k rows p) := by
  induction cs with
  | nil => rfl
  | cons c cs ih => simp [truthOfAll, ih]

/-- What a condition adds to a composite has the truth of the condition. -/
theorem join_parts (op : Connective) (c : Condition) :
    Truth.join op ((c.parts op).map (truth k rows p)) = c.truth k rows p := by
  cases c with
  | composite op' children =>
    by_cases same : op' = op
    · subst same
      rw [parts, if_pos rfl, truth, truthOfAll_eq]
    · rw [parts, if_neg same]
      exact Truth.join_single op _
  | unary f op' => exact Truth.join_single op _
  | binary f op' v => exact Truth.join_single op _
  | ternary f op' v w => exact Truth.join_single op _
  | collection f op' vs => exact Truth.join_single op _
  | relational r inner => exact Truth.join_single op _

theorem truth_combine (op : Connective) (a b : Condition) :
    (combine op a b).truth k rows p = Truth.both op (a.truth k rows p) (b.truth k rows p) := by
  rw [combine, truth, truthOfAll_eq, List.map_append, Truth.join_append, join_parts, join_parts]

/-- Comparisons are written by operators of the same meaning. -/
theorem truth_comparison (type : FieldType) {op : BinaryOp} (plain : op.isPattern = false)
    (v operand : Value) :
    (comparison op).truth k v ⟨type, operand⟩ = op.truth k type v operand := by
  cases op <;> first | rfl | cases plain

theorem truth_pattern (type : FieldType) {op : BinaryOp} (pattern : op.isPattern = true) (v : Value)
    (s : String) :
    (comparison op).truth k v ⟨.text, .text (likePattern op s)⟩ = op.truth k type v (.text s) := by
  cases op <;> first | rfl | cases pattern

theorem truth_binaryExpr {tables : String → List Row} {frames : Sql.Rows} {column : Sql.ColumnRef}
    {field : FieldRef} {op : BinaryOp} {operand : Value} {e : Sql.Expr Param}
    (h : binaryExpr column field op operand = .ok e) :
    e.truth k tables frames = binaryTruth k field.field.type op (frames.value column) operand := by
  unfold binaryExpr at h
  split at h
  · rename_i null
    have null : operand = .null := by
      cases operand <;> first | rfl | cases null
    subst null
    cases op <;> cases h <;> simp [Sql.Expr.truth, binaryTruth]
  · rename_i bound
    have plain : binaryTruth k field.field.type op (frames.value column) operand =
        op.truth k field.field.type (frames.value column) operand := by
      cases operand <;> first | exact absurd rfl bound | cases op <;> rfl
    rw [plain]
    split at h
    · rename_i pattern
      cases operand <;> cases h
      exact truth_pattern _ pattern _ _
    · rename_i comparing
      cases h
      exact truth_comparison _ (by simpa using comparing) _ _

theorem truth_notEq (type : FieldType) (v operand : Value) :
    (BinaryOp.eq.truth k type v operand).not = BinaryOp.notEq.truth k type v operand := by
  unfold BinaryOp.truth
  split <;> rfl

theorem truth_collectionExpr {tables : String → List Row} {frames : Sql.Rows}
    {column : Sql.ColumnRef} {field : FieldRef} (op : CollectionOp) (operands : List Value)
    (h : frames.value column = rows p field.field.column) :
    (collectionExpr column field op operands).truth k tables frames =
      (Condition.collection field op operands).truth k rows p := by
  have equal (v : Value) : Sql.Comparison.eq.truth k (frames.value column) ⟨field.field.type, v⟩ =
      BinaryOp.eq.truth k field.field.type (rows p field.field.column) v := by
    rw [h]
    rfl
  cases operands with
  | nil => cases op <;> rfl
  | cons v vs =>
    have found : (v :: vs).map (fun v => Sql.Comparison.eq.truth k (frames.value column)
          ⟨field.field.type, v⟩) =
        (v :: vs).map (BinaryOp.eq.truth k field.field.type (rows p field.field.column)) :=
      List.map_congr_left fun v _ => equal v
    have list : collectionExpr column field op (v :: vs) =
        .among column (op == .notIn) ((v :: vs).map fun v => ⟨field.field.type, v⟩) := rfl
    rw [list, Sql.Expr.truth, List.map_map, Function.comp_def, found]
    cases op with
    | isIn => rfl
    | notIn =>
      simp only [truth, beq_self_eq_true, if_true, Truth.not_join, List.map_map]
      congr 1
      exact List.map_congr_left fun v _ => truth_notEq _ _ v

end Condition

end EntityStore
