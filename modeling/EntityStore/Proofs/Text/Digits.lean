import EntityStore.Json.Basic

namespace EntityStore.Text

open Numeral (digitsOf)

def AreDigits (ds : List Nat) : Prop := ∀ d ∈ ds, d < 10

/-- The text does not go on with a digit. -/
def NoDigitAhead (rest : List Char) : Prop := ∀ c ∈ rest.head?, digit? c = none

theorem digit?_digitChar {d : Nat} (digit : d < 10) : digit? d.digitChar = some d := by
  have isDigit : d.digitChar.isDigit = true := by simp [digit]
  rw [digit?, if_pos isDigit]
  exact congrArg some (Nat.toNat_digitChar_sub_48_of_lt_ten digit)

/-- Digits are taken as far as the limit, or as far as they go. -/
theorem takeDigits_digits {ds : List Nat} (areDigits : AreDigits ds) {limit : Nat}
    (fits : ds.length ≤ limit) {rest : List Char}
    (ends : ds.length = limit ∨ NoDigitAhead rest) :
    takeDigits limit (ds.map Nat.digitChar ++ rest) = (ds, rest) := by
  induction ds generalizing limit with
  | nil =>
    cases limit with
    | zero => rfl
    | succ limit =>
      have noDigit : NoDigitAhead rest := ends.resolve_left (by simp)
      cases rest with
      | nil => rfl
      | cons c cs =>
        have other : digit? c = none := noDigit c rfl
        simp only [List.map_nil, List.nil_append, takeDigits, other]
  | cons d ds ih =>
    obtain ⟨digit, others⟩ := List.forall_mem_cons.mp areDigits
    cases limit with
    | zero => simp at fits
    | succ limit =>
      have fits' : ds.length ≤ limit := by simpa using fits
      have ends' : ds.length = limit ∨ NoDigitAhead rest := ends.imp_left (by simp)
      rw [List.map_cons, List.cons_append, takeDigits, digit?_digitChar digit]
      simp only [ih others fits' ends']

theorem ofDigits_append_singleton (ds : List Nat) (d : Nat) :
    ofDigits (ds ++ [d]) = ofDigits ds * 10 + d := by
  rw [ofDigits, ofDigits, List.foldl_append, List.foldl_cons, List.foldl_nil]

theorem ofDigits_zeros_append (count : Nat) (ds : List Nat) :
    ofDigits (List.replicate count 0 ++ ds) = ofDigits ds := by
  induction count with
  | zero => rfl
  | succ count ih => exact ih

section DigitsOf

theorem digitsOf_eq (n : Nat) : digitsOf n = (Nat.toDigits 10 n).filterMap digit? := by
  rw [digitsOf, Nat.toList_repr]

theorem digitsOf_of_lt {n : Nat} (small : n < 10) : digitsOf n = [n] := by
  rw [digitsOf_eq, Nat.toDigits_of_lt_base small, List.filterMap_cons_some (digit?_digitChar small),
    List.filterMap_nil]

theorem digitsOf_of_le {n : Nat} (large : 10 ≤ n) :
    digitsOf n = digitsOf (n / 10) ++ [n % 10] := by
  have last : digit? (n % 10).digitChar = some (n % 10) := digit?_digitChar (by omega)
  rw [digitsOf_eq, digitsOf_eq, Nat.toDigits_of_base_le (by decide) large, List.filterMap_append,
    List.filterMap_cons_some last, List.filterMap_nil]

/-- Numbers by their digits: those of one digit, and those with a last digit behind others. -/
theorem digits_induction {motive : Nat → Prop} (one : ∀ n < 10, motive n)
    (more : ∀ n, 10 ≤ n → motive (n / 10) → motive n) (n : Nat) : motive n := by
  induction n using Nat.strongRecOn with
  | ind n ih =>
    by_cases small : n < 10
    · exact one n small
    · exact more n (by omega) (ih (n / 10) (by omega))

theorem areDigits_digitsOf (n : Nat) : AreDigits (digitsOf n) := by
  induction n using digits_induction with
  | one n small => simpa [digitsOf_of_lt small, AreDigits] using small
  | more n large ih =>
    rw [digitsOf_of_le large]
    intro d hd
    rcases List.mem_append.mp hd with before | last
    · exact ih d before
    · rw [List.mem_singleton.mp last]
      omega

theorem map_digitsOf (n : Nat) : (digitsOf n).map Nat.digitChar = (Nat.repr n).toList := by
  rw [Nat.toList_repr]
  induction n using digits_induction with
  | one n small => rw [digitsOf_of_lt small, Nat.toDigits_of_lt_base small, List.map_singleton]
  | more n large ih =>
    rw [digitsOf_of_le large, Nat.toDigits_of_base_le (by decide) large, List.map_append, ih,
      List.map_singleton]

theorem ofDigits_digitsOf (n : Nat) : ofDigits (digitsOf n) = n := by
  induction n using digits_induction with
  | one n small =>
    rw [digitsOf_of_lt small]
    exact Nat.zero_add n
  | more n large ih =>
    rw [digitsOf_of_le large, ofDigits_append_singleton, ih]
    omega

theorem digitsOf_ne_nil (n : Nat) : digitsOf n ≠ [] := by
  by_cases small : n < 10
  · simp [digitsOf_of_lt small]
  · simp [digitsOf_of_le (Nat.le_of_not_lt small)]

theorem length_digitsOf_le_iff {n width : Nat} (positive : 0 < width) :
    (digitsOf n).length ≤ width ↔ n < Nat.pow 10 width := by
  rw [← List.length_map (f := Nat.digitChar), map_digitsOf, Nat.toList_repr]
  exact Nat.length_toDigits_le_iff (by decide) positive

/-- Only zero itself begins with a zero. -/
theorem head_digitsOf_ne_zero {n : Nat} (positive : 0 < n) : (digitsOf n).head? ≠ some 0 := by
  induction n using digits_induction with
  | one n small =>
    rw [digitsOf_of_lt small]
    simpa using Nat.ne_of_gt positive
  | more n large ih =>
    obtain ⟨first, rest, before⟩ := List.exists_cons_of_ne_nil (digitsOf_ne_nil (n / 10))
    have noZero := ih (by omega)
    rw [before] at noZero
    rw [digitsOf_of_le large, before]
    exact noZero

end DigitsOf

section Padded

/-- The digits of a number with zeros before them, at least `width` in all. -/
def paddedDigits (width n : Nat) : List Nat :=
  List.replicate (width - (digitsOf n).length) 0 ++ digitsOf n

theorem toList_padded (width n : Nat) :
    (padded width n).toList = (paddedDigits width n).map Nat.digitChar := by
  have zero : Nat.digitChar 0 = '0' := rfl
  rw [padded, paddedDigits, String.toList_ofList, List.map_append, List.map_replicate, zero,
    ← map_digitsOf, List.length_map]

theorem areDigits_paddedDigits (width n : Nat) : AreDigits (paddedDigits width n) := by
  intro d hd
  rcases List.mem_append.mp hd with zero | digit
  · rw [List.eq_of_mem_replicate zero]
    decide
  · exact areDigits_digitsOf n d digit

theorem ofDigits_paddedDigits (width n : Nat) : ofDigits (paddedDigits width n) = n := by
  rw [paddedDigits, ofDigits_zeros_append, ofDigits_digitsOf]

theorem le_length_paddedDigits (width n : Nat) : width ≤ (paddedDigits width n).length := by
  rw [paddedDigits, List.length_append, List.length_replicate]
  omega

theorem length_paddedDigits {width n : Nat} (positive : 0 < width) (fits : n < Nat.pow 10 width) :
    (paddedDigits width n).length = width := by
  have short := (length_digitsOf_le_iff positive).mpr fits
  rw [paddedDigits, List.length_append, List.length_replicate]
  omega

end Padded

end EntityStore.Text
