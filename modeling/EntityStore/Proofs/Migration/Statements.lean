import EntityStore.Proofs.Migration.Definitions
import EntityStore.Proofs.Migration.Target

namespace EntityStore

open Sql (Command)

namespace Planner

variable {p : Planner} {expected actual : Schema} {d : Dialect}

/-- A column that one of the schemas has in the table of a name. -/
def Known (expected actual : Schema) (name : String) (c : Column) : Prop :=
  (∃ t, expected.table? name = some t ∧ c ∈ t.columns) ∨
    ∃ t, actual.table? name = some t ∧ c ∈ t.columns

/-- What a plan passes through: the tables and the columns of the two schemas, under their names. -/
structure Between (expected actual : Schema) (c : Catalog) : Prop where
  tables : ∀ name t, c name = some t →
    (expected.table? name).isSome ∨ (actual.table? name).isSome
  columns : ∀ name t, c name = some t → ∀ col ∈ t.columns, Known expected actual name col

/-- A step that a planner takes for two schemas. -/
def Grounded (expected actual : Schema) : Step → Prop
  | .createTable t | .rebuildTable t _ => expected.table? t.name = some t
  | .dropTable _ => True
  | .addColumn name c =>
    c.primaryKey = false ∧ ∃ t, expected.table? name = some t ∧ c ∈ t.columns
  | .dropColumn name column =>
    (∀ t, expected.table? name = some t → t.column? column = none) ∧
      ∀ t, actual.table? name = some t → ∀ c ∈ t.columns, c.name = column → c.primaryKey = false

theorem Between.update {c : Catalog} (between : Between expected actual c) {name : String}
    {t : Option Table} (table : ∀ t', t = some t' →
      (expected.table? name).isSome ∨ (actual.table? name).isSome)
    (columns : ∀ t', t = some t' → ∀ col ∈ t'.columns, Known expected actual name col) :
    Between expected actual (Function.update c name t) := by
  refine ⟨fun other t' h => ?_, fun other t' h => ?_⟩
  · by_cases same : other = name
    · subst same
      rw [Function.update_self] at h
      exact table t' h
    · rw [Function.update_of_ne same] at h
      exact between.tables other t' h
  · by_cases same : other = name
    · subst same
      rw [Function.update_self] at h
      exact columns t' h
    · rw [Function.update_of_ne same] at h
      exact between.columns other t' h

/-- A step keeps to the tables and the columns of the two schemas. -/
theorem Between.apply {c c' : Catalog} (between : Between expected actual c) {step : Step}
    (grounded : Grounded expected actual step) (taken : step.apply c = some c') :
    Between expected actual c' := by
  have own {t : Table} (some : expected.table? t.name = some t) :
      Between expected actual (Function.update c t.name (Option.some t)) := by
    refine between.update (fun _ _ => .inl (some ▸ rfl)) fun t' same col hcol => ?_
    cases same
    exact .inl ⟨t, some, hcol⟩
  cases Step.takes_of_apply taken with
  | created _ => exact own grounded
  | droppedTable _ => exact between.update (fun _ none => by cases none) fun _ none => by cases none
  | @addedColumn name t column there _ =>
    refine between.update (fun _ _ => between.tables name t there) fun t' same col hcol => ?_
    cases same
    rcases List.mem_append.mp hcol with old | new
    · exact between.columns name t there col old
    · cases List.mem_singleton.mp new
      exact .inl grounded.2
  | @droppedColumn name column t there _ =>
    refine between.update (fun _ _ => between.tables name t there) fun t' same col hcol => ?_
    cases same
    exact between.columns name t there col (List.mem_filter.mp hcol).1
  | rebuilt _ _ => exact own grounded

theorem Between.scratch {c : Catalog} (between : Between expected actual c) {name : String}
    (free : expected.table? name = none ∧ actual.table? name = none) : c name = none := by
  cases there : c name with
  | none => rfl
  | some t =>
    have known := between.tables name t there
    simp [free.1, free.2] at known

/-- A plan can be run to its end. -/
theorem plan_runs (ne : expected.Named) (na : actual.Named) (de : expected.Distinct)
    (da : actual.Distinct) {plan : Plan} (h : p.plan expected actual = .ok plan) :
    ∃ final, Plan.run actual.table? plan = some final := by
  obtain ⟨steps, treated, rfl⟩ := plan_ok h
  have start : ∀ name ∈ TableOrder.all expected actual, (expected.table? name).isSome →
      (if name ∈ p.unknownTables expected actual then none else actual.table? name) =
        actual.table? name := by
    intro name _ known
    refine if_neg fun unknown => ?_
    rw [(mem_unknownTables.mp unknown).2.1] at known
    cases known
  obtain ⟨final, run, -⟩ :=
    run_tables ne na de da (TableOrder.all_nodup expected actual) treated start
  exact ⟨final, by rw [Plan.run_append (run_unknownTables p expected actual), run]⟩

end Planner

end EntityStore
