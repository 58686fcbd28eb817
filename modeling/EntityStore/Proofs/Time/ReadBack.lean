import EntityStore.Proofs.Outcome
import EntityStore.Proofs.Text.Digits
import EntityStore.Proofs.Time.Calendar
import EntityStore.Time.Rfc3339

namespace EntityStore

namespace Time

open Text (AreDigits NoDigitAhead paddedDigits)

section Parts

variable {rest : List Char}

theorem digits_map {ds : List Nat} (areDigits : AreDigits ds) (some : ds ≠ []) {limit : Nat}
    (fits : ds.length ≤ limit) (ends : ds.length = limit ∨ NoDigitAhead rest) :
    digits limit (ds.map Nat.digitChar ++ rest) = .ok (Text.ofDigits ds, rest) := by
  unfold digits
  rw [Text.takeDigits_digits areDigits fits ends]
  cases ds with
  | nil => exact absurd rfl some
  | cons d ds => rfl

theorem isDigit_first {ds : List Nat} (areDigits : AreDigits ds) (some : ds ≠ []) {c : Char}
    {cs : List Char} (same : ds.map Nat.digitChar ++ rest = c :: cs) : c.isDigit = true := by
  cases ds with
  | nil => exact absurd rfl some
  | cons d ds =>
    have first : d.digitChar = c := (List.cons.inj same).1
    rw [← first, Nat.isDigit_digitChar, decide_eq_true_eq]
    exact areDigits d List.mem_cons_self

theorem skipBlanks_digits {ds : List Nat} (areDigits : AreDigits ds) (some : ds ≠ []) :
    skipBlanks (ds.map Nat.digitChar ++ rest) = ds.map Nat.digitChar ++ rest := by
  cases ds with
  | nil => exact absurd rfl some
  | cons d ds =>
    have plain : ∀ d < 10, isBlank (Nat.digitChar d) = false := by decide
    have first := plain d (areDigits d List.mem_cons_self)
    rw [skipBlanks, List.map_cons, List.cons_append, List.dropWhile_cons_of_neg]
    simp [first]

theorem paddedDigits_ne_nil {width : Nat} (positive : 0 < width) (n : Nat) :
    paddedDigits width n ≠ [] := by
  have long := Text.le_length_paddedDigits width n
  exact List.ne_nil_of_length_pos (by omega)

/-- A month, a day or a part of the time of day. -/
theorem number_padded {n : Nat} (small : n < 100) :
    number 2 ((Text.padded 2 n).toList ++ rest) = .ok (n, rest) := by
  have areDigits := Text.areDigits_paddedDigits 2 n
  have some := paddedDigits_ne_nil (show 0 < 2 by decide) n
  have length : (paddedDigits 2 n).length = 2 := Text.length_paddedDigits (by decide) small
  rw [number, Text.toList_padded, skipBlanks_digits areDigits some,
    digits_map areDigits some (Nat.le_of_eq length) (.inl length), Text.ofDigits_paddedDigits]

/-- A year before the dash that follows it. -/
theorem year_yearText (y : Int) :
    year ((yearText y).toList ++ '-' :: rest) = .ok (y, '-' :: rest) := by
  have areDigits := Text.areDigits_paddedDigits 4 y.natAbs
  have some := paddedDigits_ne_nil (show 0 < 4 by decide) y.natAbs
  have dash : NoDigitAhead ('-' :: rest) := by
    intro c first
    cases first
    rfl
  have signed : digits ((Text.padded 4 y.natAbs).toList ++ '-' :: rest).length
      ((Text.padded 4 y.natAbs).toList ++ '-' :: rest) = .ok (y.natAbs, '-' :: rest) := by
    rw [Text.toList_padded, digits_map areDigits some _ (.inr dash), Text.ofDigits_paddedDigits]
    rw [List.length_append, List.length_map]
    exact Nat.le_add_right _ _
  rw [yearText]
  by_cases short : 0 ≤ y ∧ y ≤ 9999
  · have four : (paddedDigits 4 y.natAbs).length = 4 :=
      Text.length_paddedDigits (by decide) (show y.natAbs < 10000 by omega)
    have unsigned := digits_map areDigits some (Nat.le_of_eq four) (.inr dash)
    have same : y.toNat = y.natAbs := by omega
    rw [if_pos short, same, Text.toList_padded]
    unfold year
    rw [skipBlanks_digits areDigits some]
    split
    next same => exact absurd (isDigit_first areDigits some same) (by decide)
    next same => exact absurd (isDigit_first areDigits some same) (by decide)
    next =>
      have value : ((Text.ofDigits (paddedDigits 4 y.natAbs) : Nat) : Int) = y := by
        rw [Text.ofDigits_paddedDigits]
        omega
      rw [unsigned]
      change Except.ok ((Text.ofDigits (paddedDigits 4 y.natAbs) : Int), '-' :: rest) = _
      rw [value]
  · rw [if_neg short]
    by_cases negative : y < 0
    · have minus : -(y.natAbs : Int) = y := by omega
      have sign (cs : List Char) : year ('-' :: cs) =
          (digits cs.length cs).map fun p => (-(p.1 : Int), p.2) := rfl
      rw [if_pos negative, String.toList_append]
      change year ('-' :: ((Text.padded 4 y.natAbs).toList ++ '-' :: rest)) = _
      rw [sign, signed]
      change Except.ok (-(y.natAbs : Int), '-' :: rest) = _
      rw [minus]
    · have plus : (y.natAbs : Int) = y := by omega
      have sign (cs : List Char) : year ('+' :: cs) =
          (digits cs.length cs).map fun p => ((p.1 : Int), p.2) := rfl
      rw [if_neg negative, String.toList_append]
      change year ('+' :: ((Text.padded 4 y.natAbs).toList ++ '-' :: rest)) = _
      rw [sign, signed]
      change Except.ok ((y.natAbs : Int), '-' :: rest) = _
      rw [plus]

/-- A fraction before the mark of the zero offset. -/
theorem fraction_padded {width n : Nat} (positive : 0 < width) (fits : width ≤ 9)
    (small : n < Nat.pow 10 width) :
    fraction ((Text.padded width n).toList ++ ['Z']) =
      .ok (n * Nat.pow 10 (9 - width), ['Z']) := by
  have length : (paddedDigits width n).length = width := Text.length_paddedDigits positive small
  have zone : NoDigitAhead ['Z'] := by
    intro c first
    cases first
    rfl
  unfold fraction
  rw [Text.toList_padded, Text.takeDigits_digits (Text.areDigits_paddedDigits width n)
    (by rw [length]; exact fits) (.inr zone)]
  cases digits : paddedDigits width n with
  | nil => exact absurd digits (paddedDigits_ne_nil positive n)
  | cons d ds =>
    rw [digits] at length
    have value : Text.ofDigits (d :: ds) = n := by rw [← digits, Text.ofDigits_paddedDigits]
    simp only [value, length]
    rfl

end Parts

/-- A fraction is left out where it is zero, and has three, six or nine digits elsewhere. -/
theorem fractionText_cases {nanos : Nat} (small : nanos < 1000000000) :
    nanos = 0 ∧ (fractionText nanos).toList = [] ∨
      ∃ digits, (fractionText nanos).toList = '.' :: digits ∧
        fraction (digits ++ ['Z']) = .ok (nanos, ['Z']) := by
  have millis : nanos % 1000000 = 0 → nanos / 1000000 * Nat.pow 10 (9 - 3) = nanos := by
    intro whole
    change nanos / 1000000 * 1000000 = nanos
    omega
  have micros : nanos % 1000 = 0 → nanos / 1000 * Nat.pow 10 (9 - 6) = nanos := by
    intro whole
    change nanos / 1000 * 1000 = nanos
    omega
  fun_cases fractionText nanos with
  | case1 zero => exact .inl ⟨zero, rfl⟩
  | case2 _ whole =>
    have read := fraction_padded (show 0 < 3 by decide) (by decide)
      (show nanos / 1000000 < 1000 by omega)
    rw [millis whole] at read
    exact .inr ⟨_, String.toList_append, read⟩
  | case3 _ _ whole =>
    have read := fraction_padded (show 0 < 6 by decide) (by decide)
      (show nanos / 1000 < 1000000 by omega)
    rw [micros whole] at read
    exact .inr ⟨_, String.toList_append, read⟩
  | case4 =>
    have read := fraction_padded (show 0 < 9 by decide) (by decide) small
    rw [show nanos * Nat.pow 10 (9 - 9) = nanos from Nat.mul_one nanos] at read
    exact .inr ⟨_, String.toList_append, read⟩

/-- The parts of a date that exists have two digits at most. -/
theorem Date.bounds {d : Date} (there : d.exists = true) : d.month ≤ 12 ∧ d.day ≤ 31 := by
  rw [Date.exists, decide_eq_true_eq] at there
  have length : daysInMonth d.year d.month ≤ 31 ∧
      (12 < d.month → daysInMonth d.year d.month = 0) := by
    fun_cases daysInMonth d.year d.month <;> omega
  omega

/-- The characters of a written instant, part by part. -/
theorem toList_text (t : Instant) :
    (text "Z" t).toList = (yearText t.date.year).toList ++ '-' ::
      ((Text.padded 2 t.date.month).toList ++ '-' :: ((Text.padded 2 t.date.day).toList ++ 'T' ::
      ((Text.padded 2 (t.secondOfDay / 3600)).toList ++ ':' ::
      ((Text.padded 2 (t.secondOfDay / 60 % 60)).toList ++ ':' ::
      ((Text.padded 2 (t.secondOfDay % 60 + t.nanos / 1000000000)).toList ++
      ((fractionText (t.nanos % 1000000000)).toList ++ ['Z'])))))) := by
  simp [text]

end Time

namespace Instant

open Time

/-- An instant that the calendar reaches. A leap second stands at the end of a minute; programs can
make others by setting nanoseconds, which are left out. -/
structure Known (t : Instant) : Prop where
  reached : inRange t.seconds = true
  nanos : t.nanos < 2000000000
  leap : 1000000000 ≤ t.nanos → t.seconds % 60 = 59

namespace Known

variable {t : Instant}

theorem second_le (known : t.Known) : t.secondOfDay % 60 + t.nanos / 1000000000 ≤ 60 := by
  have nanos := known.nanos
  omega

/-- The parts of an instant put together. -/
theorem assemble_eq (known : t.Known) :
    assemble t.date (t.secondOfDay / 3600) (t.secondOfDay / 60 % 60)
      (t.secondOfDay % 60 + t.nanos / 1000000000) (t.nanos % 1000000000) 0 = t := by
  have nanos := known.nanos
  have day : t.date.dayNumber = t.dayNumber := Date.dayNumber_ofDayNumber t.dayNumber
  have time : t.seconds = t.dayNumber * 86400 + t.secondOfDay := by
    rw [dayNumber, secondOfDay]
    omega
  rw [assemble, day]
  by_cases leap : 1000000000 ≤ t.nanos
  · have ends : t.secondOfDay % 60 = 59 := by
      have minute := known.leap leap
      rw [secondOfDay]
      omega
    have one : t.nanos / 1000000000 = 1 := by omega
    rw [ends, one]
    apply congr (congrArg Instant.mk _)
    · change t.nanos % 1000000000 + 1000000000 = t.nanos
      omega
    · rw [if_pos rfl]
      omega
  · have none : t.nanos / 1000000000 = 0 := by omega
    have noLeap : ¬ t.secondOfDay % 60 + 0 = 60 := by omega
    rw [none, if_neg noLeap, if_neg noLeap]
    apply congr (congrArg Instant.mk _)
    · omega
    · omega

/-- Reading undoes writing. -/
theorem readLenient_text (known : t.Known) : readLenient (text "Z" t) = .ok t := by
  have seconds : t.secondOfDay < 86400 := by
    rw [secondOfDay]
    omega
  have there : t.date.exists = true := Date.exists_ofDayNumber t.dayNumber
  obtain ⟨month, day⟩ := Date.bounds there
  rw [readLenient, toList_text]
  refine Except.bind_eq_ok.mpr ⟨_, year_yearText _, ?_⟩
  refine Except.bind_eq_ok.mpr ⟨_, rfl, ?_⟩
  refine Except.bind_eq_ok.mpr ⟨_, number_padded (by omega), ?_⟩
  refine Except.bind_eq_ok.mpr ⟨_, rfl, ?_⟩
  refine Except.bind_eq_ok.mpr ⟨_, number_padded (by omega), ?_⟩
  refine Except.bind_eq_ok.mpr ⟨_, rfl, ?_⟩
  refine Except.bind_eq_ok.mpr ⟨_, number_padded (by omega), ?_⟩
  refine Except.bind_eq_ok.mpr ⟨_, rfl, ?_⟩
  refine Except.bind_eq_ok.mpr ⟨_, number_padded (by omega), ?_⟩
  refine Except.bind_eq_ok.mpr ⟨_, rfl, ?_⟩
  refine Except.bind_eq_ok.mpr ⟨_, number_padded (by have := known.second_le; omega), ?_⟩
  have checked (failed : Except TextFault Instant) :
      (if (!t.date.exists) = true ∨ t.date.year < firstYear ∨ lastYear < t.date.year ∨
        24 ≤ t.secondOfDay / 3600 ∨ 60 ≤ t.secondOfDay / 60 % 60 ∨
        61 ≤ t.secondOfDay % 60 + t.nanos / 1000000000 ∨ 86400 ≤ (0 : Int).natAbs then failed
      else if inRange (assemble t.date (t.secondOfDay / 3600) (t.secondOfDay / 60 % 60)
          (t.secondOfDay % 60 + t.nanos / 1000000000) (t.nanos % 1000000000) 0).seconds then
        .ok (assemble t.date (t.secondOfDay / 3600) (t.secondOfDay / 60 % 60)
          (t.secondOfDay % 60 + t.nanos / 1000000000) (t.nanos % 1000000000) 0)
      else .error .outOfRange) = .ok t := by
    rw [known.assemble_eq, if_pos known.reached, if_neg]
    obtain ⟨first, last⟩ := year_of_inRange known.reached
    have second := known.second_le
    simp only [there, Bool.not_true, Bool.false_eq_true, false_or, Int.natAbs_zero]
    omega
  rcases fractionText_cases (show t.nanos % 1000000000 < 1000000000 by omega) with
    ⟨zero, written⟩ | ⟨digits, written, read⟩
  · rw [zero] at checked
    rw [written]
    exact checked _
  · rw [written]
    refine Except.bind_eq_ok.mpr ⟨_, read, ?_⟩
    exact checked _

end Known

end Instant

end EntityStore
