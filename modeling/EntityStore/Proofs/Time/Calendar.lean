import EntityStore.Time.Instant

namespace EntityStore

namespace Time

theorem isLeapYear_iff {y : Int} :
    isLeapYear y = true ↔ y % 4 = 0 ∧ y % 100 ≠ 0 ∨ y % 400 = 0 := by
  simp [isLeapYear]

/-- The place of a day in its era of 400 years: its year, which begins in March, and the days of
that year before it. -/
theorem exists_yearOfEra {ofEra : Nat} (within : ofEra < 146097) :
    ∃ year ofYear, (ofEra - ofEra / 1460 + ofEra / 36524 - ofEra / 146096) / 365 = year ∧
      ofEra = 365 * year + year / 4 - year / 100 + ofYear ∧ year ≤ 399 ∧ ofYear ≤ 365 ∧
      (ofYear = 365 → (year + 1) % 4 = 0 ∧ (year + 1) % 100 ≠ 0 ∨ year + 1 = 400) := by
  obtain ⟨century, ofCentury, split, small⟩ :
      ∃ century ofCentury, ofEra = 36524 * century + ofCentury ∧ ofCentury < 36524 :=
    ⟨ofEra / 36524, ofEra % 36524, by omega, by omega⟩
  obtain ⟨cycle, ofCycle, split', small'⟩ :
      ∃ cycle ofCycle, ofCentury = 1461 * cycle + ofCycle ∧ ofCycle < 1461 :=
    ⟨ofCentury / 1461, ofCentury % 1461, by omega, by omega⟩
  have estimate : ofEra / 36524 = century := by omega
  by_cases last : ofEra = 146096
  · exact ⟨399, 365, by omega, by omega, by omega, by omega, by omega⟩
  · have noEnd : ofEra / 146096 = 0 := by omega
    have early : century ≤ 3 := by omega
    by_cases leap : ofCycle = 1460
    · refine ⟨100 * century + 4 * cycle + 3, 365, ?_, ?_, ?_, ?_, ?_⟩
      all_goals omega
    · obtain ⟨ofYear, year, split'', small''⟩ :
          ∃ ofYear year, ofCycle = 365 * year + ofYear ∧ ofYear < 365 :=
        ⟨ofCycle % 365, ofCycle / 365, by omega, by omega⟩
      have quarter : (100 * century + 4 * cycle + year) / 4 = 25 * century + cycle := by omega
      have hundred : (100 * century + 4 * cycle + year) / 100 = century := by omega
      refine ⟨100 * century + 4 * cycle + year, ofYear, ?_, ?_, ?_, ?_, ?_⟩
      · have leapDays : ofEra / 1460 = 25 * century + cycle ∨
            ofEra / 1460 = 25 * century + cycle + 1 ∧ 1 ≤ ofYear := by omega
        rw [noEnd, estimate]
        omega
      · rw [quarter, hundred]
        omega
      · omega
      · omega
      · omega

/-- The months from March to January: the days before each of them, and its own. -/
theorem daysInMonth_of_lt (y : Int) {shifted : Nat} (other : shifted < 11) :
    (153 * shifted + 2) / 5 + daysInMonth y (if shifted < 10 then shifted + 3 else shifted - 9) =
      (153 * (shifted + 1) + 2) / 5 := by
  match shifted, other with
  | 0, _ | 1, _ | 2, _ | 3, _ | 4, _ | 5, _ | 6, _ | 7, _ | 8, _ | 9, _ | 10, _ => rfl

/-- February, the last month of a year that begins in March. -/
theorem daysInMonth_february {y : Int} {ofYear : Nat} (within : ofYear ≤ 365)
    (leap : ofYear = 365 → isLeapYear y = true) : ofYear - 337 + 1 ≤ daysInMonth y 2 := by
  rw [daysInMonth, if_pos rfl]
  by_cases last : ofYear = 365
  · rw [leap last, last]
    decide
  · have short : ofYear - 337 + 1 ≤ 28 := by omega
    split
    · exact Nat.le_succ_of_le short
    · exact short

theorem daysBeforeMarch_era {year : Nat} (bound : year ≤ 399) (era : Int) :
    daysBeforeMarch (year + era * 400) =
      146097 * era + (365 * year + year / 4 - year / 100 : Nat) := by
  have quarter : ((year : Int) + era * 400) / 4 = year / 4 + 100 * era := by omega
  have hundred : ((year : Int) + era * 400) / 100 = year / 100 + 4 * era := by omega
  have four : ((year : Int) + era * 400) / 400 = era := by omega
  rw [daysBeforeMarch, quarter, hundred, four]
  omega

theorem daysBeforeMarch_mono {y z : Int} (before : y ≤ z) :
    daysBeforeMarch y ≤ daysBeforeMarch z := by
  rw [daysBeforeMarch, daysBeforeMarch]
  omega

namespace Date

/-- The date of a day number, by the year that begins in March and the days of it before the day. -/
theorem ofDayNumber_spec (n : Int) :
    ∃ (y : Int) (ofYear shifted : Nat), n + 719468 = daysBeforeMarch y + ofYear ∧ ofYear ≤ 365 ∧
      (ofYear = 365 → isLeapYear (y + 1) = true) ∧ (5 * ofYear + 2) / 153 = shifted ∧
      ofDayNumber n = ⟨if shifted < 10 then y else y + 1,
        if shifted < 10 then shifted + 3 else shifted - 9,
        ofYear - (153 * shifted + 2) / 5 + 1⟩ := by
  obtain ⟨year, ofYear, found, split, bound, within, leap⟩ :=
    exists_yearOfEra (show ((n + 719468) % 146097).toNat < 146097 by omega)
  have behind : ((n + 719468) % 146097).toNat - (365 * year + year / 4 - year / 100) = ofYear := by
    omega
  refine ⟨year + (n + 719468) / 146097 * 400, ofYear, (5 * ofYear + 2) / 153, ?_, within, ?_, rfl,
    ?_⟩
  · rw [daysBeforeMarch_era bound, ← behind]
    omega
  · intro last
    have ends := leap last
    rw [isLeapYear_iff]
    omega
  · have early : (if (5 * ofYear + 2) / 153 < 10 then (5 * ofYear + 2) / 153 + 3
        else (5 * ofYear + 2) / 153 - 9) ≤ 2 ↔ ¬ (5 * ofYear + 2) / 153 < 10 := by
      split <;> omega
    have era : (ofDayNumber n).year = if (5 * ofYear + 2) / 153 < 10 then
        (year : Int) + (n + 719468) / 146097 * 400 else year + (n + 719468) / 146097 * 400 + 1 := by
      simp only [ofDayNumber, found, behind, early]
      exact ite_not ..
    rw [← era]
    simp only [ofDayNumber, found, behind]

theorem dayNumber_ofDayNumber (n : Int) : (ofDayNumber n).dayNumber = n := by
  obtain ⟨y, ofYear, shifted, total, within, -, month, date⟩ := ofDayNumber_spec n
  have months : shifted ≤ 11 := by omega
  have day : (153 * shifted + 2) / 5 + (ofYear - (153 * shifted + 2) / 5 + 1) - 1 = ofYear := by
    omega
  rw [date, dayNumber]
  by_cases early : shifted < 10
  · have back : (shifted + 3 + 9) % 12 = shifted := by omega
    have late : ¬ shifted + 3 ≤ 2 := by omega
    simp only [if_pos early, back, if_neg late, day]
    omega
  · have back : (shifted - 9 + 9) % 12 = shifted := by omega
    have first : shifted - 9 ≤ 2 := by omega
    simp only [if_neg early, back, if_pos first, day]
    rw [Int.add_sub_cancel]
    omega

theorem exists_ofDayNumber (n : Int) : (ofDayNumber n).exists = true := by
  obtain ⟨y, ofYear, shifted, -, within, leap, month, date⟩ := ofDayNumber_spec n
  rw [date, Date.exists, decide_eq_true_eq]
  refine ⟨Nat.le_add_left 1 _, ?_⟩
  by_cases other : shifted < 11
  · have length := daysInMonth_of_lt (if shifted < 10 then y else y + 1) other
    dsimp only
    omega
  · have february : shifted = 11 := by omega
    rw [february]
    exact daysInMonth_february within leap

end Date

end Time

namespace Instant

open Time (firstYear lastYear daysBeforeMarch daysBeforeMarch_mono)

theorem inRange_iff {seconds : Int} :
    inRange seconds = true ↔ -8334601228800 ≤ seconds ∧ seconds < 8210266876800 := by
  have first : (⟨firstYear, 1, 1⟩ : Time.Date).dayNumber = -96465292 := by decide
  have beyond : (⟨lastYear + 1, 1, 1⟩ : Time.Date).dayNumber = 95026237 := by decide
  rw [inRange, first, beyond, decide_eq_true_eq]
  omega

/-- The years of instants. -/
theorem year_of_inRange {t : Instant} (reached : inRange t.seconds = true) :
    firstYear ≤ t.date.year ∧ t.date.year ≤ lastYear := by
  have within := inRange_iff.mp reached
  have first : -96465292 ≤ t.dayNumber := by
    rw [dayNumber]
    omega
  have last : t.dayNumber ≤ 95026236 := by
    rw [dayNumber]
    omega
  obtain ⟨y, ofYear, shifted, total, days, -, month, date⟩ := Time.Date.ofDayNumber_spec t.dayNumber
  rw [Instant.date, date, firstYear, lastYear]
  dsimp only
  constructor
  · by_cases early : shifted < 10
    · rw [if_pos early]
      have below : y ≤ -262144 → daysBeforeMarch y ≤ -95746130 := daysBeforeMarch_mono
      omega
    · rw [if_neg early]
      have below : y ≤ -262145 → daysBeforeMarch y ≤ -95746496 := daysBeforeMarch_mono
      omega
  · by_cases early : shifted < 10
    · rw [if_pos early]
      have above : 262143 ≤ y → 95745764 ≤ daysBeforeMarch y := daysBeforeMarch_mono
      omega
    · rw [if_neg early]
      have above : 262142 ≤ y → 95745399 ≤ daysBeforeMarch y := daysBeforeMarch_mono
      omega

end Instant

end EntityStore
