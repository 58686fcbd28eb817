import EntityStore.Text.Like
import Mathlib.Data.List.Forall2
import Mathlib.Data.List.Infix

namespace EntityStore.Text

/-- The texts that a pattern stands for. -/
inductive Matches (same : Char → Char → Bool) : List Char → List Char → Prop
  | nil : Matches same [] []
  /-- Any run of characters. -/
  | run {pattern text : List Char} (skipped : List Char) :
      Matches same pattern text → Matches same ('%' :: pattern) (skipped ++ text)
  /-- Any one character. -/
  | one {pattern text : List Char} (d : Char) :
      Matches same pattern text → Matches same ('_' :: pattern) (d :: text)
  /-- A character for itself. -/
  | self {pattern text : List Char} {c d : Char} : c ≠ '%' → c ≠ '_' → same c d = true →
      Matches same pattern text → Matches same (c :: pattern) (d :: text)

section

variable {same : Char → Char → Bool}

theorem anySuffix_iff {p : List Char → Bool} {text : List Char} :
    like.anySuffix p text = true ↔ ∃ skipped rest, text = skipped ++ rest ∧ p rest = true := by
  induction text with
  | nil => simp [like.anySuffix]
  | cons d text ih =>
    rw [like.anySuffix, Bool.or_eq_true, ih]
    constructor
    · rintro (here | ⟨skipped, rest, rfl, found⟩)
      · exact ⟨[], d :: text, rfl, here⟩
      · exact ⟨d :: skipped, rest, rfl, found⟩
    · rintro ⟨skipped, rest, split, found⟩
      cases skipped with
      | nil => exact .inl (split ▸ found)
      | cons e skipped =>
        obtain ⟨rfl, rfl⟩ := List.cons.inj split
        exact .inr ⟨skipped, rest, rfl, found⟩

theorem matches_of_like {pattern text : List Char} (found : like same pattern text = true) :
    Matches same pattern text := by
  induction pattern generalizing text with
  | nil =>
    obtain rfl := List.isEmpty_iff.mp found
    exact .nil
  | cons c pattern ih =>
    by_cases percent : c = '%'
    · subst percent
      rw [like] at found
      obtain ⟨skipped, rest, rfl, reached⟩ := anySuffix_iff.mp found
      exact (ih reached).run skipped
    · cases text with
      | nil =>
        by_cases underscore : c = '_'
        · subst underscore
          rw [like] at found
          contradiction
        · rw [like] at found
          · contradiction
          · exact percent
          · exact underscore
      | cons d text =>
        by_cases underscore : c = '_'
        · subst underscore
          rw [like] at found
          exact (ih found).one d
        · rw [like, Bool.and_eq_true] at found
          · exact (ih found.2).self percent underscore found.1
          · exact percent
          · exact underscore

/-- The search for a match finds one where there is one. -/
theorem like_iff {pattern text : List Char} :
    like same pattern text = true ↔ Matches same pattern text := by
  refine ⟨matches_of_like, fun matched => ?_⟩
  induction matched with
  | nil => rfl
  | run skipped _ ih => exact anySuffix_iff.mpr ⟨skipped, _, rfl, ih⟩
  | one d _ ih => exact ih
  | self percent underscore equal _ ih =>
    rw [like, equal, ih]
    · rfl
    · exact percent
    · exact underscore

/-- Patterns behind one another match texts behind one another. -/
theorem matches_append {p q text : List Char} :
    Matches same (p ++ q) text ↔ ∃ a b, text = a ++ b ∧ Matches same p a ∧ Matches same q b := by
  constructor
  · intro matched
    induction p generalizing text with
    | nil => exact ⟨[], text, rfl, .nil, matched⟩
    | cons c p ih =>
      cases matched with
      | run skipped matched =>
        obtain ⟨a, b, rfl, before, behind⟩ := ih matched
        exact ⟨skipped ++ a, b, (List.append_assoc ..).symm, before.run skipped, behind⟩
      | one d matched =>
        obtain ⟨a, b, rfl, before, behind⟩ := ih matched
        exact ⟨d :: a, b, rfl, before.one d, behind⟩
      | self percent underscore equal matched =>
        obtain ⟨a, b, rfl, before, behind⟩ := ih matched
        exact ⟨_ :: a, b, rfl, before.self percent underscore equal, behind⟩
  · rintro ⟨a, b, rfl, before, behind⟩
    induction before with
    | nil => exact behind
    | run skipped _ ih =>
      rw [List.append_assoc]
      exact ih.run skipped
    | one d _ ih => exact ih.one d
    | self percent underscore equal _ ih => exact ih.self percent underscore equal

theorem matches_percent (text : List Char) : Matches same ['%'] text := by
  have all : Matches same ['%'] (text ++ []) := Matches.nil.run text
  rwa [List.append_nil] at all

end

/-- Where in a text something stands. -/
inductive Place where
  | start
  | finish
  | anywhere

namespace Place

/-- A part of a text that stands at a place. -/
def At (part text : List Char) : Place → Prop
  | .start => part <+: text
  | .finish => part <:+ text
  | .anywhere => part <:+: text

theorem at_self (place : Place) (text : List Char) : place.At text text := by
  cases place with
  | start => exact List.prefix_rfl
  | finish => exact List.suffix_rfl
  | anywhere => exact List.infix_rfl

theorem subset_of_at (place : Place) {part text : List Char} (stands : place.At part text) :
    part ⊆ text := by
  cases place with
  | start => exact List.IsPrefix.subset stands
  | finish => exact List.IsSuffix.subset stands
  | anywhere => exact List.IsInfix.subset stands

/-- The pattern of the texts that have a match of another pattern at a place. -/
def pattern (inner : List Char) : Place → List Char
  | .start => inner ++ ['%']
  | .finish => '%' :: inner
  | .anywhere => '%' :: (inner ++ ['%'])

variable {same : Char → Char → Bool} {inner text : List Char}

/-- What matches at a place is what a pattern with `%` beside it matches. -/
theorem matches_pattern (place : Place) :
    Matches same (place.pattern inner) text ↔
      ∃ part, Matches same inner part ∧ place.At part text := by
  cases place with
  | start =>
    rw [pattern, matches_append]
    constructor
    · rintro ⟨part, rest, rfl, matched, -⟩
      exact ⟨part, matched, List.prefix_append part rest⟩
    · rintro ⟨part, matched, rest, rfl⟩
      exact ⟨part, rest, rfl, matched, matches_percent rest⟩
  | finish =>
    rw [pattern, ← List.singleton_append, matches_append]
    constructor
    · rintro ⟨rest, part, rfl, -, matched⟩
      exact ⟨part, matched, List.suffix_append rest part⟩
    · rintro ⟨part, matched, rest, rfl⟩
      exact ⟨rest, part, rfl, matches_percent rest, matched⟩
  | anywhere =>
    rw [pattern, ← List.singleton_append, matches_append]
    constructor
    · rintro ⟨before, rest, rfl, -, matched⟩
      obtain ⟨part, behind, rfl, matched, -⟩ := matches_append.mp matched
      exact ⟨part, matched, before, behind, List.append_assoc ..⟩
    · rintro ⟨part, matched, before, behind, rfl⟩
      exact ⟨before, part ++ behind, List.append_assoc .., matches_percent before,
        matches_append.mpr ⟨part, behind, rfl, matched, matches_percent behind⟩⟩

end Place

/-- Without characters that stand for others. -/
def Plain (pattern : List Char) : Prop := '%' ∉ pattern ∧ '_' ∉ pattern

instance (pattern : List Char) : Decidable (Plain pattern) :=
  inferInstanceAs (Decidable (_ ∧ _))

theorem plain_cons {c : Char} {pattern : List Char} :
    Plain (c :: pattern) ↔ c ≠ '%' ∧ c ≠ '_' ∧ Plain pattern := by
  simp only [Plain, List.mem_cons, not_or]
  tauto

/-- A plain pattern stands for itself, character by character. -/
theorem matches_letters {same : Char → Char → Bool} {pattern text : List Char}
    (plain : Plain pattern) :
    Matches same pattern text ↔ List.Forall₂ (fun c d => same c d = true) pattern text := by
  induction pattern generalizing text with
  | nil =>
    constructor
    · rintro ⟨⟩
      exact .nil
    · rintro ⟨⟩
      exact .nil
  | cons c pattern ih =>
    obtain ⟨percent, underscore, plain⟩ := plain_cons.mp plain
    constructor
    · intro matched
      cases matched with
      | run => contradiction
      | one => contradiction
      | self _ _ equal matched => exact .cons equal ((ih plain).mp matched)
    · rintro (_ | ⟨equal, others⟩)
      exact .self percent underscore equal ((ih plain).mpr others)

theorem matches_plain {pattern text : List Char} (plain : Plain pattern) :
    Matches (· == ·) pattern text ↔ text = pattern := by
  rw [matches_letters plain, eq_comm, ← List.forall₂_eq_eq_eq]
  simp only [beq_iff_eq]

/-- A plain text that a pattern stands for. -/
def sample : List Char → List Char
  | [] => []
  | '%' :: pattern => sample pattern
  | '_' :: pattern => 'x' :: sample pattern
  | c :: pattern => c :: sample pattern

theorem plain_sample (pattern : List Char) : Plain (sample pattern) := by
  fun_induction sample pattern with
  | case1 => simp [Plain]
  | case2 pattern ih => exact ih
  | case3 pattern ih => exact plain_cons.mpr ⟨by decide, by decide, ih⟩
  | case4 c pattern percent underscore ih => exact plain_cons.mpr ⟨percent, underscore, ih⟩

theorem matches_sample (pattern : List Char) : Matches (· == ·) pattern (sample pattern) := by
  fun_induction sample pattern with
  | case1 => exact .nil
  | case2 pattern ih => exact ih.run []
  | case3 pattern ih => exact ih.one 'x'
  | case4 c pattern percent underscore ih => exact ih.self percent underscore (beq_self_eq_true c)

/-- A match at a place is the pattern itself at that place in every text, just where the pattern is
plain. -/
theorem matches_pattern_literally (place : Place) (inner : List Char) :
    (∀ text, Matches (· == ·) (place.pattern inner) text ↔ place.At inner text) ↔ Plain inner := by
  constructor
  · intro literal
    have stands : place.At inner (sample inner) := (literal (sample inner)).mp
      (place.matches_pattern.mpr ⟨sample inner, matches_sample inner, place.at_self _⟩)
    have among : inner ⊆ sample inner := place.subset_of_at stands
    exact ⟨fun there => (plain_sample inner).1 (among there),
      fun there => (plain_sample inner).2 (among there)⟩
  · intro plain text
    rw [Place.matches_pattern]
    simp only [matches_plain plain, exists_eq_left]

end EntityStore.Text
