import EntityStore.Engine.Connection
import EntityStore.Proofs.Time.Calendar

namespace EntityStore

namespace Instant

/-- An instant that the calendar reaches, leap seconds apart. -/
structure Regular (t : Instant) : Prop where
  reached : inRange t.seconds = true
  noLeap : t.nanos < 1000000000

/-- The instant rounded down to a whole millisecond. -/
def toMillisecond (t : Instant) : Instant := ⟨t.seconds, t.nanos / 1000000 * 1000000⟩

variable {s t : Instant}

theorem le_iff :
    s.le t = true ↔ s.seconds < t.seconds ∨ s.seconds = t.seconds ∧ s.nanos ≤ t.nanos := by
  rw [le, decide_eq_true_eq]

/-- The whole milliseconds up to an instant are those up to the rounded one. -/
theorem le_toMillisecond (r : Instant) (whole : r.nanos % 1000000 = 0) :
    r.le t.toMillisecond = true ↔ r.le t = true := by
  have nanos : r.nanos ≤ t.nanos / 1000000 * 1000000 ↔ r.nanos ≤ t.nanos := by omega
  rw [le_iff, le_iff, toMillisecond, nanos]

namespace Regular

theorem millis_fits (regular : t.Regular) :
    Int64.minValue.toInt ≤ t.millis ∧ t.millis ≤ Int64.maxValue.toInt := by
  have least : Int64.minValue.toInt = -9223372036854775808 := by decide
  have most : Int64.maxValue.toInt = 9223372036854775807 := by decide
  have reached := inRange_iff.mp regular.reached
  have noLeap := regular.noLeap
  rw [least, most, millis]
  omega

/-- Seconds and nanoseconds are taken apart again as they were put together. -/
theorem ofMillis?_millis (regular : t.Regular) : ofMillis? t.millis = some t.toMillisecond := by
  have noLeap := regular.noLeap
  have seconds : t.millis / 1000 = t.seconds := by
    rw [millis]
    omega
  have nanos : (t.millis % 1000).toNat * 1000000 = t.nanos / 1000000 * 1000000 := by
    rw [millis]
    omega
  rw [ofMillis?, seconds, if_pos regular.reached, nanos]
  rfl

/-- The numbers are ordered as the rounded instants. -/
theorem decide_millis_le (hs : s.Regular) (ht : t.Regular) :
    decide (s.millis ≤ t.millis) = s.toMillisecond.le t.toMillisecond := by
  have noLeap := hs.noLeap
  have noLeap' := ht.noLeap
  have ordered : s.millis ≤ t.millis ↔ s.seconds < t.seconds ∨
      s.seconds = t.seconds ∧ s.nanos / 1000000 * 1000000 ≤ t.nanos / 1000000 * 1000000 := by
    rw [millis, millis]
    omega
  rw [Bool.eq_iff_iff, decide_eq_true_eq, le_iff, ordered]
  rfl

theorem decide_millis_lt (hs : s.Regular) (ht : t.Regular) :
    decide (s.millis < t.millis) = !t.toMillisecond.le s.toMillisecond := by
  rw [← decide_millis_le ht hs, ← decide_not]
  simp

theorem millis_eq_iff (hs : s.Regular) (ht : t.Regular) :
    s.millis = t.millis ↔ s.toMillisecond = t.toMillisecond := by
  have noLeap := hs.noLeap
  have noLeap' := ht.noLeap
  simp only [millis, toMillisecond, mk.injEq]
  omega

theorem millis_mono (hs : s.Regular) (ht : t.Regular) (before : s.le t = true) :
    s.millis ≤ t.millis := by
  have noLeap := hs.noLeap
  have noLeap' := ht.noLeap
  rw [le_iff] at before
  rw [millis, millis]
  omega

end Regular

end Instant

namespace Engine

open Sql (ColumnRef)

namespace Scope

/-- The column was declared for dates, and the row holds an instant in it as dates are stored. -/
structure HoldsDate (row : Scope) (c : ColumnRef) (t : Instant) : Prop where
  declared : ∀ type, TypeMap.sqlite.columnType .date = .ok type → row.affinity c = .ofType type
  stored : Connection.stored .sqlite ⟨.date, .time t⟩ = .ok (row.cell c)

variable {row : Scope} {c : ColumnRef} {t : Instant}

theorem HoldsDate.cell (holds : row.HoldsDate c t) : row.cell c = .int t.millis :=
  (Except.ok.inj holds.stored).symm

/-- Numbers stay numbers on their way into a comparison with dates. -/
theorem HoldsDate.operand (holds : row.HoldsDate c t) (op : Sql.Comparison) (n : Int) :
    row.operand c op (.int n) = .int n := by
  have numeric : row.affinity c = .numeric := holds.declared _ rfl
  cases op <;> simp only [Scope.operand, numeric] <;> rfl

end Scope

section

variable (m n : Int)

theorem compareCells_eq_int : compareCells .eq (.int m) (.int n) = some (decide (m = n)) := by
  have same : (compare m n == .eq) = decide (m = n) := by
    rw [Bool.eq_iff_iff, beq_iff_eq, decide_eq_true_eq, Int.compare_eq_eq]
  exact congrArg some same

theorem compareCells_lt_int : compareCells .lt (.int m) (.int n) = some (decide (m < n)) := by
  have less : (compare m n == .lt) = decide (m < n) := by
    rw [Bool.eq_iff_iff, beq_iff_eq, decide_eq_true_eq, Int.compare_eq_lt]
  exact congrArg some less

theorem compareCells_ge_int : compareCells .ge (.int m) (.int n) = some (decide (n ≤ m)) := by
  have least : (compare m n != .lt) = decide (n ≤ m) := by
    rw [Bool.eq_iff_iff, bne_iff_ne, decide_eq_true_eq, Int.compare_ne_lt]
  exact congrArg some least

theorem compareCells_le_int : compareCells .le (.int m) (.int n) = some (decide (m ≤ n)) := by
  have most : (compare m n != .gt) = decide (m ≤ n) := by
    rw [Bool.eq_iff_iff, bne_iff_ne, decide_eq_true_eq, Int.compare_ne_gt]
  exact congrArg some most

end

/-- Rows in the order of a column that holds integers. -/
theorem inOrder_int {row other : Scope} {c : ColumnRef} {m n : Int} (held : row.cell c = .int m)
    (held' : other.cell c = .int n) :
    inOrder [(c, .asc)] row other = decide (m ≤ n) ∧
      inOrder [(c, .desc)] row other = decide (n ≤ m) := by
  have cells : (row.cell c).compare (other.cell c) = compare m n := by
    rw [held, held']
    rfl
  simp only [inOrder, cells]
  cases order : compare m n with
  | lt =>
    have less := Int.compare_eq_lt.mp order
    simp [Int.le_of_lt less, less]
  | eq =>
    have same := Int.compare_eq_eq.mp order
    simp [same]
  | gt =>
    have more := Int.compare_eq_gt.mp order
    simp [Int.le_of_lt more, more]

/-- Dates keep their time and their order. An instant is stored as an integer of 64 bits and read
back as the greatest whole millisecond that is not after it; later instants have no smaller numbers;
and conditions and orders on a column of dates see the instants to the millisecond. -/
theorem dates_keep_time_and_order {s t u : Instant} (hs : s.Regular) (ht : t.Regular)
    (hu : u.Regular) :
    (∃ n, TypeMap.sqlite.encode .date (.time s) = .ok (.int n) ∧
      Int64.minValue.toInt ≤ n ∧ n ≤ Int64.maxValue.toInt ∧
      Value.toInstant (.int n) = .ok s.toMillisecond) ∧
    (∀ r : Instant, r.nanos % 1000000 = 0 → (r.le s.toMillisecond = true ↔ r.le s = true)) ∧
    (s.le t = true → ∃ m n, TypeMap.sqlite.encode .date (.time s) = .ok (.int m) ∧
      TypeMap.sqlite.encode .date (.time t) = .ok (.int n) ∧ m ≤ n) ∧
    (∀ db (row : Scope) c p q, row.HoldsDate c s →
      Connection.stored .sqlite ⟨.date, .time t⟩ = .ok p →
      Connection.stored .sqlite ⟨.date, .time u⟩ = .ok q →
      Value.toInstant (row.cell c).toValue = .ok s.toMillisecond ∧
      evaluate db row (.compare c .eq p) = some (decide (s.toMillisecond = t.toMillisecond)) ∧
      evaluate db row (.compare c .lt p) = some (!t.toMillisecond.le s.toMillisecond) ∧
      evaluate db row (.between c p q) =
        some (t.toMillisecond.le s.toMillisecond && s.toMillisecond.le u.toMillisecond)) ∧
    ∀ (row other : Scope) c, row.HoldsDate c s → other.HoldsDate c t →
      inOrder [(c, .asc)] row other = s.toMillisecond.le t.toMillisecond ∧
      inOrder [(c, .desc)] row other = t.toMillisecond.le s.toMillisecond := by
  have readBack : Value.toInstant (.int s.millis) = .ok s.toMillisecond := by
    rw [Value.toInstant, hs.ofMillis?_millis]
  refine ⟨⟨s.millis, rfl, hs.millis_fits.1, hs.millis_fits.2, readBack⟩, Instant.le_toMillisecond,
    ?_, ?_, ?_⟩
  · intro before
    exact ⟨s.millis, t.millis, rfl, rfl, hs.millis_mono ht before⟩
  · intro db row c p q holds low high
    have first : p = .int t.millis := (Except.ok.inj low).symm
    have second : q = .int u.millis := (Except.ok.inj high).symm
    rw [first, second]
    refine ⟨?_, ?_, ?_, ?_⟩
    · rw [holds.cell]
      exact readBack
    · have same : decide (s.millis = t.millis) = decide (s.toMillisecond = t.toMillisecond) :=
        decide_eq_decide.mpr (hs.millis_eq_iff ht)
      rw [evaluate, holds.operand, holds.cell, compareCells_eq_int, same]
    · rw [evaluate, holds.operand, holds.cell, compareCells_lt_int, hs.decide_millis_lt ht]
    · rw [evaluate, holds.operand, holds.operand, holds.cell, compareCells_ge_int,
        compareCells_le_int, ht.decide_millis_le hs, hs.decide_millis_le hu]
      cases t.toMillisecond.le s.toMillisecond <;> cases s.toMillisecond.le u.toMillisecond <;> rfl
  · intro row other c holds holds'
    rw [← hs.decide_millis_le ht, ← ht.decide_millis_le hs]
    exact inOrder_int holds.cell holds'.cell

/-- A row of a table with one column of dates. -/
def visit (stored : Int) : Scope :=
  [⟨"visits", ⟨"visits", [⟨"at", "INTEGER", false, none, true, []⟩], []⟩, [.int stored]⟩]

/-- The last nanosecond before the epoch, between the first instant and the last. -/
theorem dates_keep_time_and_order_eve :
    Instant.Regular ⟨-1, 999999999⟩ ∧ Instant.Regular ⟨-8334601228800, 0⟩ ∧
    Instant.Regular ⟨8210266876799, 999999999⟩ ∧
    (visit (-1)).HoldsDate ⟨none, "at"⟩ ⟨-1, 999999999⟩ ∧
    (∃ n, TypeMap.sqlite.encode .date (.time ⟨-1, 999999999⟩) = .ok (.int n) ∧
      Value.toInstant (.int n) = .ok ⟨-1, 999000000⟩) ∧
    evaluate .empty (visit (-1))
      (.between ⟨none, "at"⟩ (.int (-8334601228800000)) (.int 8210266876799999)) = some true := by
  have eve : Instant.Regular ⟨-1, 999999999⟩ := ⟨by decide, by decide⟩
  have first : Instant.Regular ⟨-8334601228800, 0⟩ := ⟨by decide, by decide⟩
  have last : Instant.Regular ⟨8210266876799, 999999999⟩ := ⟨by decide, by decide⟩
  have holds : (visit (-1)).HoldsDate ⟨none, "at"⟩ ⟨-1, 999999999⟩ := by
    refine ⟨?_, rfl⟩
    intro type declared
    cases declared
    rfl
  obtain ⟨⟨n, encoded, -, -, read⟩, -, -, conditions, -⟩ := dates_keep_time_and_order eve first last
  obtain ⟨-, -, -, within⟩ := conditions .empty (visit (-1)) ⟨none, "at"⟩ _ _ holds rfl rfl
  exact ⟨eve, first, last, holds, ⟨n, encoded, read⟩, within⟩

end Engine

end EntityStore
