import EntityStore.Migration.Plan
import EntityStore.Text.Ascii
import Mathlib.Data.List.Nodup
import Mathlib.Logic.Function.Basic

namespace EntityStore

namespace Table

variable {t : Table} {name : String} {c : Column}

theorem column?_eq_some (h : t.column? name = some c) : c ∈ t.columns ∧ c.name = name := by
  refine ⟨List.mem_of_find?_eq_some h, ?_⟩
  simpa using List.find?_some h

theorem column?_eq_none : t.column? name = none ↔ name ∉ t.columns.map (·.name) := by
  simp [column?]

theorem column?_isSome : (t.column? name).isSome ↔ name ∈ t.columns.map (·.name) := by
  simp [column?]

theorem column?_of_mem (distinct : (t.columns.map (·.name)).Nodup) (h : c ∈ t.columns) :
    t.column? c.name = some c := by
  obtain ⟨found, hf⟩ := Option.isSome_iff_exists.mp (column?_isSome.mpr (List.mem_map_of_mem h))
  obtain ⟨member, same⟩ := column?_eq_some hf
  rw [hf, List.inj_on_of_nodup_map distinct member h same]

end Table

/-- The table of each name, where there is one. -/
abbrev Catalog := String → Option Table

/-- A rule for a column of a rebuilt table fills a column that is there from one that was there. -/
def ColumnCopy.Fits (t current : Table) (r : ColumnCopy) : Prop :=
  (t.column? r.column).isSome ∧
    match r.source with
    | .existing | .existingOr _ => (current.column? r.column).isSome
    | .constant _ => True

instance (t current : Table) (r : ColumnCopy) : Decidable (r.Fits t current) := by
  unfold ColumnCopy.Fits
  cases r.source <;> exact inferInstance

namespace Step

/-- The catalog after a step, if the step can be taken. -/
def apply (catalog : Catalog) : Step → Option Catalog
  | .createTable t =>
    match catalog t.name with
    | none => some (Function.update catalog t.name (some t))
    | some _ => none
  | .dropTable name =>
    match catalog name with
    | none => none
    | some _ => some (Function.update catalog name none)
  | .addColumn name c =>
    match catalog name with
    | none => none
    | some t =>
      if (t.column? c.name).isSome then none
      else some (Function.update catalog name (some { t with columns := t.columns ++ [c] }))
  | .dropColumn name column =>
    match catalog name with
    | none => none
    | some t =>
      if (t.column? column).isSome then
        some (Function.update catalog name
          (some { t with columns := t.columns.filter fun c => c.name != column }))
      else none
  | .rebuildTable t copies =>
    match catalog t.name with
    | none => none
    | some current =>
      if ∀ r ∈ copies, r.Fits t current then some (Function.update catalog t.name (some t))
      else none

/-- What a step that can be taken finds, and what it leaves. -/
inductive Takes (c : Catalog) : Step → Catalog → Prop
  | created {t : Table} : c t.name = none →
      Takes c (.createTable t) (Function.update c t.name (some t))
  | droppedTable {name : String} {t : Table} : c name = some t →
      Takes c (.dropTable name) (Function.update c name none)
  | addedColumn {name : String} {t : Table} {column : Column} : c name = some t →
      t.column? column.name = none → Takes c (.addColumn name column)
        (Function.update c name (some { t with columns := t.columns ++ [column] }))
  | droppedColumn {name column : String} {t : Table} : c name = some t →
      (t.column? column).isSome → Takes c (.dropColumn name column) (Function.update c name
        (some { t with columns := t.columns.filter fun c => c.name != column }))
  | rebuilt {t current : Table} {copies : List ColumnCopy} : c t.name = some current →
      (∀ r ∈ copies, r.Fits t current) →
      Takes c (.rebuildTable t copies) (Function.update c t.name (some t))

theorem takes_of_apply {c c' : Catalog} {step : Step} (h : step.apply c = some c') :
    Takes c step c' := by
  cases step with
  | createTable t =>
    simp only [apply] at h
    split at h
    · rename_i absent
      cases h
      exact .created absent
    · cases h
  | dropTable name =>
    simp only [apply] at h
    split at h
    · cases h
    · rename_i t there
      cases h
      exact .droppedTable there
  | addColumn name column =>
    simp only [apply] at h
    split at h
    · cases h
    · rename_i t there
      split at h
      · cases h
      · rename_i fresh
        cases h
        exact .addedColumn there (Option.not_isSome_iff_eq_none.mp fresh)
  | dropColumn name column =>
    simp only [apply] at h
    split at h
    · cases h
    · rename_i t there
      split at h
      · rename_i found
        cases h
        exact .droppedColumn there found
      · cases h
  | rebuildTable t copies =>
    simp only [apply] at h
    split at h
    · cases h
    · rename_i current there
      split at h
      · rename_i fits
        cases h
        exact .rebuilt there fits
      · cases h

theorem isSome_update {c : Catalog} {table name : String} {t t' : Table} (there : c table = some t) :
    (Function.update c table (some t') name).isSome ↔ (c name).isSome := by
  by_cases same : name = table
  · subst same
    simp [there]
  · rw [Function.update_of_ne same]

/-- What tables are there after a step: the one it creates, and those that were there but for the one
it drops. -/
theorem isSome_of_apply {c c' : Catalog} {step : Step} (h : step.apply c = some c')
    (name : String) :
    (c' name).isSome ↔ (∃ t, step = .createTable t ∧ t.name = name) ∨
      step ≠ .dropTable name ∧ (c name).isSome := by
  cases takes_of_apply h with
  | @created t absent =>
    by_cases same : name = t.name
    · subst same
      simp
    · rw [Function.update_of_ne same]
      simp [Ne.symm same]
  | @droppedTable dropped _ _ =>
    by_cases same : name = dropped
    · subst same
      simp
    · rw [Function.update_of_ne same]
      simp [Ne.symm same]
  | addedColumn there _ => simp [isSome_update there]
  | droppedColumn there _ => simp [isSome_update there]
  | rebuilt there _ => simp [isSome_update there]

end Step

namespace Plan

/-- The catalog after all steps, if each can be taken in its turn. -/
def run (catalog : Catalog) (steps : List Step) : Option Catalog :=
  steps.foldlM Step.apply catalog

theorem run_append {c c' : Catalog} {steps : List Step} (h : run c steps = some c')
    (more : List Step) : run c (steps ++ more) = run c' more := by
  rw [run, List.foldlM_append]
  exact congrArg (· >>= fun c => more.foldlM Step.apply c) h

theorem run_cons {c c' : Catalog} {step : Step} (h : step.apply c = some c')
    (more : List Step) : run c (step :: more) = run c' more := by
  rw [run, List.foldlM_cons, h]
  rfl

/-- A table that no step drops is there in the end if it was created or there before. -/
theorem isSome_of_run {c c' : Catalog} {steps : List Step} (h : run c steps = some c') {name : String}
    (kept : .dropTable name ∉ steps) :
    (c' name).isSome ↔ (∃ t, .createTable t ∈ steps ∧ t.name = name) ∨ (c name).isSome := by
  induction steps generalizing c with
  | nil =>
    cases h
    simp
  | cons first steps ih =>
    obtain ⟨other, kept⟩ := List.ne_and_not_mem_of_not_mem_cons kept
    rw [run, List.foldlM_cons] at h
    obtain ⟨c₁, taken, h⟩ := Option.bind_eq_some_iff.mp h
    rw [ih h kept, Step.isSome_of_apply taken]
    simp only [List.mem_cons, other.symm, ne_eq, not_false_eq_true, true_and, or_and_right,
      exists_or, eq_comm (a := first)]
    exact or_assoc.symm.trans (or_congr_left or_comm)

/-- Tables that are there are dropped. -/
theorem run_drops {c : Catalog} {names : List String} (distinct : names.Nodup)
    (there : ∀ name ∈ names, (c name).isSome) :
    run c (names.map .dropTable) = some fun name => if name ∈ names then none else c name := by
  induction names generalizing c with
  | nil => simp [run]
  | cons first names ih =>
    obtain ⟨fresh, distinct⟩ := List.nodup_cons.mp distinct
    obtain ⟨t, ht⟩ := Option.isSome_iff_exists.mp (there first List.mem_cons_self)
    have step : (Step.dropTable first).apply c = some (Function.update c first none) := by
      simp [Step.apply, ht]
    have others : ∀ name ∈ names, (Function.update c first none name).isSome := by
      intro name hn
      have other : name ≠ first := by
        rintro rfl
        exact fresh hn
      rw [Function.update_of_ne other]
      exact there name (List.mem_cons_of_mem _ hn)
    rw [List.map_cons, run_cons step, ih distinct others]
    congr 1
    funext name
    by_cases same : name = first
    · subst same
      simp
    · simp [same]

/-- Columns of new names are added at the end. -/
theorem run_addColumns {c : Catalog} {name : String} {t : Table} (ht : c name = some t)
    {columns : List Column} (fresh : ∀ col ∈ columns, t.column? col.name = none)
    (distinct : (columns.map (·.name)).Nodup) :
    run c (columns.map (.addColumn name)) =
      some (Function.update c name (some { t with columns := t.columns ++ columns })) := by
  induction columns generalizing c t with
  | nil =>
    have same : Function.update c name (some t) = c := by rw [← ht, Function.update_eq_self]
    simp [run, same]
  | cons first columns ih =>
    obtain ⟨other, distinct⟩ := List.nodup_cons.mp distinct
    have step : (Step.addColumn name first).apply c =
        some (Function.update c name (some { t with columns := t.columns ++ [first] })) := by
      simp [Step.apply, ht, fresh first List.mem_cons_self]
    have later : ∀ col ∈ columns,
        Table.column? { t with columns := t.columns ++ [first] } col.name = none := by
      intro col hcol
      have old := Table.column?_eq_none.mp (fresh col (List.mem_cons_of_mem _ hcol))
      have new : col.name ≠ first.name := fun same =>
        other (List.mem_map.mpr ⟨col, hcol, same⟩)
      rw [Table.column?_eq_none]
      simpa [new] using old
    have rest := ih (Function.update_self name _ c) later distinct
    rw [List.map_cons, run_cons step, rest, Function.update_idem]
    simp

/-- Columns that are there are dropped. -/
theorem run_dropColumns {c : Catalog} {name : String} {t : Table} (ht : c name = some t)
    {columns : List String} (there : ∀ col ∈ columns, (t.column? col).isSome)
    (distinct : columns.Nodup) :
    run c (columns.map (.dropColumn name)) = some (Function.update c name
      (some { t with columns := t.columns.filter fun c => c.name ∉ columns })) := by
  induction columns generalizing c t with
  | nil =>
    have same : Function.update c name (some t) = c := by rw [← ht, Function.update_eq_self]
    simp [run, same]
  | cons first columns ih =>
    obtain ⟨other, distinct⟩ := List.nodup_cons.mp distinct
    have step : (Step.dropColumn name first).apply c = some (Function.update c name
        (some { t with columns := t.columns.filter fun c => c.name != first })) := by
      simp [Step.apply, ht, there first List.mem_cons_self]
    have later : ∀ col ∈ columns, (Table.column?
        { t with columns := t.columns.filter fun c => c.name != first } col).isSome := by
      intro col hcol
      have new : col ≠ first := fun same => other (same ▸ hcol)
      have old := Table.column?_isSome.mp (there col (List.mem_cons_of_mem _ hcol))
      rw [Table.column?_isSome]
      obtain ⟨found, hf, rfl⟩ := List.mem_map.mp old
      exact List.mem_map_of_mem (List.mem_filter.mpr ⟨hf, by simpa using new⟩)
    have rest := ih (Function.update_self name _ c) later distinct
    rw [List.map_cons, run_cons step, rest, Function.update_idem, List.filter_filter]
    congr 4
    refine List.filter_congr fun col _ => ?_
    by_cases same : col.name = first <;> simp [same]

end Plan

end EntityStore
