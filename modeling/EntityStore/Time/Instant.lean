import EntityStore.Time.Calendar

namespace EntityStore

/-- A point in time: whole seconds since the epoch, rounded down, and nanoseconds after them. A leap
second belongs to the second before it and counts its nanoseconds on from one billion. -/
structure Instant where
  seconds : Int
  nanos : Nat
  deriving DecidableEq, Inhabited

namespace Instant

def epoch : Instant := ⟨0, 0⟩

/-- Milliseconds since the epoch, rounded down. -/
def millis (t : Instant) : Int := t.seconds * 1000 + (t.nanos / 1000000 : Nat)

def dayNumber (t : Instant) : Int := t.seconds / 86400

def date (t : Instant) : Time.Date := Time.Date.ofDayNumber t.dayNumber

/-- Whole seconds since midnight. -/
def secondOfDay (t : Instant) : Nat := (t.seconds % 86400).toNat

/-- Seconds since the epoch that have a date in the calendar's range. -/
def inRange (seconds : Int) : Bool :=
  decide ((⟨Time.firstYear, 1, 1⟩ : Time.Date).dayNumber * 86400 ≤ seconds ∧
    seconds < (⟨Time.lastYear + 1, 1, 1⟩ : Time.Date).dayNumber * 86400)

/-- The instant of a number of milliseconds, where the calendar reaches it. -/
def ofMillis? (ms : Int) : Option Instant :=
  if inRange (ms / 1000) then some ⟨ms / 1000, (ms % 1000).toNat * 1000000⟩ else none

/-- Earlier seconds first, then fewer nanoseconds. -/
def le (s t : Instant) : Bool :=
  decide (s.seconds < t.seconds ∨ (s.seconds = t.seconds ∧ s.nanos ≤ t.nanos))

end Instant

end EntityStore
