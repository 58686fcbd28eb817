namespace EntityStore.Time

/-- A date of the calendar: a year, a month from 1 and a day from 1. -/
structure Date where
  year : Int
  month : Nat
  day : Nat
  deriving DecidableEq

/-- A year with a 29th of February. -/
def isLeapYear (y : Int) : Bool := (y % 4 == 0 && y % 100 != 0) || y % 400 == 0

/-- Length of a month, zero where there is no such month. -/
def daysInMonth (y : Int) (m : Nat) : Nat :=
  if m = 2 then (if isLeapYear y then 29 else 28)
  else if m = 4 ∨ m = 6 ∨ m = 9 ∨ m = 11 then 30
  else if 1 ≤ m ∧ m ≤ 12 then 31 else 0

/-- Whether the calendar has the date. -/
def Date.exists (d : Date) : Bool := decide (1 ≤ d.day ∧ d.day ≤ daysInMonth d.year d.month)

/-- Days before the first of March of a year, counted from the first of March of year 0. -/
def daysBeforeMarch (y : Int) : Int := 365 * y + y / 4 - y / 100 + y / 400

/-- Days from the first of January 1970 to a date. -/
def Date.dayNumber (d : Date) : Int :=
  let shifted : Nat := (d.month + 9) % 12
  let y := if d.month ≤ 2 then d.year - 1 else d.year
  daysBeforeMarch y + ((153 * shifted + 2) / 5 + d.day - 1 : Nat) - 719468

/-- The date of a day number. -/
def Date.ofDayNumber (n : Int) : Date :=
  let z := n + 719468
  let era := z / 146097
  let ofEra := (z % 146097).toNat
  let yearOfEra := (ofEra - ofEra / 1460 + ofEra / 36524 - ofEra / 146096) / 365
  let ofYear := ofEra - (365 * yearOfEra + yearOfEra / 4 - yearOfEra / 100)
  let shifted := (5 * ofYear + 2) / 153
  let month := if shifted < 10 then shifted + 3 else shifted - 9
  let y : Int := yearOfEra + era * 400
  ⟨if month ≤ 2 then y + 1 else y, month, ofYear - (153 * shifted + 2) / 5 + 1⟩

/-- Years that instants may fall in. -/
def firstYear : Int := -262143

def lastYear : Int := 262142

end EntityStore.Time
