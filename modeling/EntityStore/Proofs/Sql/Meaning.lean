import EntityStore.Proofs.Sql.Shape
import EntityStore.Engine.Eval

namespace EntityStore

open Engine (Truth)

namespace Engine.Truth

/-- The junction of two truth values. -/
def both : Connective → Truth → Truth → Truth
  | .and => Truth.and
  | .or => Truth.or

theorem both_assoc (op : Connective) (a b c : Truth) :
    both op (both op a b) c = both op a (both op b c) := by
  cases op <;> rcases a with _ | _ | _ <;> rcases b with _ | _ | _ <;>
    rcases c with _ | _ | _ <;> rfl

theorem join_nil (op : Connective) : join op [] = some (op == .and) := by
  cases op <;> rfl

theorem join_cons (op : Connective) (t : Truth) (ts : List Truth) :
    join op (t :: ts) = both op t (join op ts) := by
  cases op <;> rfl

theorem both_nil (op : Connective) (t : Truth) : both op (join op []) t = t := by
  cases op <;> rcases t with _ | _ | _ <;> rfl

theorem join_single (op : Connective) (t : Truth) : join op [t] = t := by
  cases op <;> rcases t with _ | _ | _ <;> rfl

theorem join_append (op : Connective) (ts us : List Truth) :
    join op (ts ++ us) = both op (join op ts) (join op us) := by
  induction ts with
  | nil => rw [both_nil, List.nil_append]
  | cons t ts ih => rw [List.cons_append, join_cons, join_cons, ih, both_assoc]

/-- None of some is true where each is false. -/
theorem not_join (ts : List Truth) : (join .or ts).not = join .and (ts.map Truth.not) := by
  induction ts with
  | nil => rfl
  | cons t ts ih =>
    rw [List.map_cons, join_cons, join_cons, ← ih]
    rcases t with _ | _ | _ <;> rcases join .or ts with _ | _ | _ <;> rfl

end Engine.Truth

namespace Sql

/-- The values of a row by their columns. -/
abbrev Row := String → Value

/-- Rows under the names of their tables, innermost first. -/
abbrev Rows := List (String × Row)

def Rows.value (rows : Rows) (c : ColumnRef) : Value :=
  match rows.find? fun r => c.qualifier.all (· == r.1) with
  | some r => r.2 c.column
  | none => .null

/-- How values compare with operands, and with each other, where neither is null. -/
structure Collation where
  equal : Value → Param → Bool
  less : Value → Param → Bool
  greater : Value → Param → Bool
  like : Value → Param → Bool
  same : Value → Value → Bool

def Comparison.holds (k : Collation) (v : Value) (p : Param) : Comparison → Bool
  | .eq => k.equal v p
  | .ne => !k.equal v p
  | .gt => k.greater v p
  | .lt => k.less v p
  | .ge => k.greater v p || k.equal v p
  | .le => k.less v p || k.equal v p
  | .like => k.like v p
  | .notLike => !k.like v p

/-- Unknown where one of the two is null. -/
def Comparison.truth (k : Collation) (op : Comparison) (v : Value) (p : Param) : Truth :=
  if v.isNull || p.value.isNull then none else some (op.holds k v p)

def Collation.keyTruth (k : Collation) (v key : Value) : Truth :=
  if v.isNull || key.isNull then none else some (k.same v key)

namespace Expr

variable (k : Collation) (tables : String → List Row)

mutual

/-- The truth of a condition for some rows, given the rows of every table. -/
def truth : Rows → Expr Param → Truth
  | _, .constant b => some b
  | rows, .nullTest c negated => some ((rows.value c).isNull != negated)
  | rows, .compare c op p => op.truth k (rows.value c) p
  | rows, .between c low high =>
    (Comparison.ge.truth k (rows.value c) low).and (Comparison.le.truth k (rows.value c) high)
  | rows, .among c negated ps =>
    let found := Truth.join .or (ps.map (Comparison.eq.truth k (rows.value c)))
    if negated then found.not else found
  | rows, .amongRows c table key inner =>
    let kept := (tables table).filter fun row => truth ((table, row) :: rows) inner == some true
    Truth.join .or (kept.map fun row =>
      k.keyTruth (rows.value c) (Rows.value [(table, row)] ⟨some table, key⟩))
  | rows, .junction op parts => Truth.join op (truthOfAll rows parts)

def truthOfAll : Rows → List (Expr Param) → List Truth
  | _, [] => []
  | rows, e :: es => truth rows e :: truthOfAll rows es

end

variable {k tables}

theorem truthOfAll_eq (rows : Rows) (es : List (Expr Param)) :
    truthOfAll k tables rows es = es.map (truth k tables rows) := by
  induction es with
  | nil => rfl
  | cons e es ih => simp [truthOfAll, ih]

theorem truth_ofParts (rows : Rows) (op : Connective) (es : List (Expr Param)) :
    (ofParts op es).truth k tables rows = Truth.join op (es.map (truth k tables rows)) := by
  match es with
  | [] => exact (Truth.join_nil op).symm
  | [e] => exact (Truth.join_single op _).symm
  | e :: e' :: es =>
    rw [ofParts, truth, truthOfAll_eq]
    · simp
    · simp

end Expr

end Sql

end EntityStore
