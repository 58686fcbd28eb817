import EntityStore.Proofs.Query.Nested
import EntityStore.Proofs.Sql.Joined
import EntityStore.Proofs.Text.Pattern

namespace EntityStore

open Sql (Collation Row Rows)
open Text (Place Matches Plain)

namespace Text.Place

/-- The operator that asks whether a text stands at a place. -/
def op : Place → BinaryOp
  | .start => .startsWith
  | .finish => .endsWith
  | .anywhere => .contains

def opposite : Place → BinaryOp
  | .start => .notStartsWith
  | .finish => .notEndsWith
  | .anywhere => .notContains

theorem toList_likePattern (place : Place) (s : String) :
    (Condition.likePattern place.op s).toList = place.pattern s.toList := by
  cases place <;> simp [Condition.likePattern, op, pattern]

end Text.Place

/-- Patterns are compared with texts character by character. -/
def Sql.Collation.ReadsPatterns (k : Collation) : Prop :=
  ∀ text pattern, k.like (.text text) ⟨.text, .text pattern⟩ =
    Text.like (· == ·) pattern.toList text.toList

namespace Condition

/-- What an operator on texts and its opposite compile to. -/
theorem toExpr_place (place : Place) (reach : Reach) (qualify : Bool) (scope : Option Nat)
    (name : String) (field : FieldRef) (s : String) :
    let pattern : Param := ⟨.text, .text (likePattern place.op s)⟩
    (binary field place.op (.text s)).toExpr reach qualify scope name =
        .ok (.compare (columnOf qualify name field) .like pattern) ∧
      (binary field place.opposite (.text s)).toExpr reach qualify scope name =
        .ok (.compare (columnOf qualify name field) .notLike pattern) := by
  cases place <;> exact ⟨rfl, rfl⟩

section

variable {k : Collation}

theorem truth_notLike (v : Value) (p : Param) :
    Sql.Comparison.notLike.truth k v p = (Sql.Comparison.like.truth k v p).not := by
  unfold Sql.Comparison.truth
  split <;> rfl

theorem truth_like_eq_none {v : Value} {pattern : String} :
    Sql.Comparison.like.truth k v ⟨.text, .text pattern⟩ = none ↔ v.isNull = true := by
  have bound : (Value.text pattern).isNull = false := rfl
  simp only [Sql.Comparison.truth, bound, Bool.or_false, ite_eq_left_iff, reduceCtorEq, imp_false,
    not_not]

theorem truth_like (reads : k.ReadsPatterns) (place : Place) (s text : String) :
    Sql.Comparison.like.truth k (.text text) ⟨.text, .text (likePattern place.op s)⟩ = some true ↔
      Matches (· == ·) (place.pattern s.toList) text.toList := by
  rw [← Text.like_iff, ← place.toList_likePattern, ← reads]
  exact Option.some_inj

/-- An operator on texts is unknown for null alone, and its opposite is true where it is false. On a
text the operator asks whether some text that its operand stands for, as a pattern, is at the place;
that is the operand itself, for all texts, just where it has no character that stands for others. -/
theorem text_operators_read_patterns (reads : k.ReadsPatterns) (place : Place) (reach : Reach)
    (qualify : Bool) (scope : Option Nat) (name : String) (field : FieldRef) (s : String) :
    ∃ e e', (binary field place.op (.text s)).toExpr reach qualify scope name = .ok e ∧
      (binary field place.opposite (.text s)).toExpr reach qualify scope name = .ok e' ∧
      (∀ tables rows, e'.truth k tables rows = (e.truth k tables rows).not ∧
        (e.truth k tables rows = none ↔
          (Rows.value rows (columnOf qualify name field)).isNull = true)) ∧
      (∀ tables rows text, Rows.value rows (columnOf qualify name field) = .text text →
        (e.truth k tables rows = some true ↔
          ∃ part, Matches (· == ·) s.toList part ∧ place.At part text.toList)) ∧
      ((∀ tables rows text, Rows.value rows (columnOf qualify name field) = .text text →
        (e.truth k tables rows = some true ↔ place.At s.toList text.toList)) ↔ Plain s.toList) := by
  obtain ⟨asks, denies⟩ := toExpr_place place reach qualify scope name field s
  refine ⟨_, _, asks, denies, fun tables rows => ⟨?_, ?_⟩, fun tables rows text stored => ?_, ?_⟩
  · rw [Sql.Expr.truth, Sql.Expr.truth, truth_notLike]
  · rw [Sql.Expr.truth, truth_like_eq_none]
  · rw [Sql.Expr.truth, stored, truth_like reads, Place.matches_pattern]
  · rw [← Text.matches_pattern_literally place]
    constructor
    · intro literal text
      have stored := value_columnOf_inner qualify name (fun _ => .text (String.ofList text)) [] field
      have answer := literal (fun _ => []) _ _ stored
      rw [Sql.Expr.truth, stored, truth_like reads, String.toList_ofList] at answer
      exact answer
    · intro literal tables rows text stored
      rw [Sql.Expr.truth, stored, truth_like reads]
      exact literal text.toList

end

def notes : Entity :=
  ⟨⟨"Note", "notes"⟩, [(Field.named "id" .integer).asPrimaryKey, .named "title" .text]⟩

def title : FieldRef := notes.ref (.named "title" .text)

/-- Texts compare as they are, and with patterns character by character. -/
def byCharacter : Collation where
  equal v p := v.equals p.value
  less _ _ := false
  greater _ _ := false
  like
    | .text text, ⟨_, .text pattern⟩ => Text.like (· == ·) pattern.toList text.toList
    | _, _ => false
  same := Value.equals

theorem text_operators_read_patterns_notes :
    byCharacter.ReadsPatterns ∧
    ∃ e, (binary title .startsWith (.text "Jo")).toExpr .nested false none "notes" = .ok e ∧
      ∀ tables rows text, Rows.value rows ⟨none, "title"⟩ = .text text →
        (e.truth byCharacter tables rows = some true ↔ "Jo".toList <+: text.toList) := by
  have reads : byCharacter.ReadsPatterns := fun _ _ => rfl
  obtain ⟨e, e', asks, -, -, -, literal⟩ :=
    text_operators_read_patterns reads .start .nested false none "notes" title "Jo"
  exact ⟨reads, e, asks, literal.mpr (by decide)⟩

/-- Notes are found, and removed, for a text that their title does not contain. -/
theorem underscore_finds_other :
    let containing := (Query.all notes).restrict (binary title .contains (.text "a_b"))
    let stored : String → List Row := fun _ => [fun _ => .text "axb"]
    ¬ "a_b".toList <:+: "axb".toList ∧
    (∃ selection, containing.select = .ok selection ∧
      (selection.hits byCharacter stored).length = 1) ∧
    ∃ deletion, containing.delete = .ok deletion ∧
      (deletion.hits byCharacter stored).length = 1 := by
  refine ⟨by decide, ⟨_, rfl, ?_⟩, ⟨_, rfl, ?_⟩⟩
  · decide
  · decide

end Condition

end EntityStore
