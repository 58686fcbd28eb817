import EntityStore.Proofs.Migration.Steps
import EntityStore.Proofs.Query.Compile

namespace EntityStore

open Sql (Command Fill)

namespace ColumnCopy

/-- Whether a default, where a column takes one, comes with the type that decides how it is stored. -/
def Typed (c : ColumnCopy) : Prop := c.source = .existing ∨ c.fieldType.isSome = true

theorem Typed.fill {c : ColumnCopy} (typed : c.Typed) : ∃ fill, c.fill = .ok fill := by
  rcases typed with kept | typed
  · rw [ColumnCopy.fill, kept]
    exact ⟨_, rfl⟩
  · obtain ⟨type, typed⟩ := Option.isSome_iff_exists.mp typed
    have param (v : Value) : c.param v = .ok ⟨type, v⟩ := by rw [ColumnCopy.param, typed]
    unfold ColumnCopy.fill
    cases c.source with
    | existing => exact ⟨_, rfl⟩
    | existingOr v => exact ⟨_, congrArg (Except.map _) (param v)⟩
    | constant v => exact ⟨_, congrArg (Except.map _) (param v)⟩

end ColumnCopy

namespace Step

variable {d : Dialect} {step : Step} {commands : List (Command Param)}

/-- The table that a step makes. -/
def made? : Step → Option Table
  | .createTable t | .rebuildTable t _ => some t
  | .dropTable _ | .addColumn .. | .dropColumn .. => none

/-- Whether all rules of a step are typed. -/
def Typed : Step → Prop
  | .rebuildTable _ copies => ∀ c ∈ copies, c.Typed
  | .createTable _ | .dropTable _ | .addColumn .. | .dropColumn .. => True

/-- How many statements a step has: one, but a rebuild creates, copies where some column is filled,
drops and renames. -/
def size : Step → Nat
  | .rebuildTable _ copies => if copies.isEmpty then 3 else 4
  | .createTable _ | .dropTable _ | .addColumn .. | .dropColumn .. => 1

/-- A step that makes a table needs columns. -/
def faults (step : Step) : List Error :=
  match step.made? with
  | some t => if t.columns.isEmpty then [.planning (.noColumns t.name)] else []
  | none => []

theorem mem_faults {e : Error} : e ∈ step.faults ↔
    ∃ t, step.made? = some t ∧ t.columns = [] ∧ e = .planning (.noColumns t.name) := by
  unfold faults
  cases step.made? with
  | none => simp
  | some t => cases columns : t.columns <;> simp [columns]

theorem faults_eq_nil : step.faults = [] ↔ ∀ t, step.made? = some t → t.columns ≠ [] := by
  rw [List.eq_nil_iff_forall_not_mem]
  constructor
  · intro none t made bare
    exact none _ (mem_faults.mpr ⟨t, made, bare, rfl⟩)
  · intro columns e among
    obtain ⟨t, made, bare, -⟩ := mem_faults.mp among
    exact columns t made bare

theorem create_reports (d : Dialect) (name : String) (t : Table) :
    (t.create d name).Reports
      (if t.columns.isEmpty then [.planning (.noColumns t.name)] else []) := by
  unfold Table.create
  split
  · rfl
  · exact ⟨_, rfl⟩

theorem commands_reports (d : Dialect) (typed : step.Typed) :
    (step.commands d).Reports step.faults := by
  cases step with
  | createTable t => exact (create_reports d t.name t).map _
  | dropTable name => exact ⟨_, rfl⟩
  | addColumn t c => exact ⟨_, rfl⟩
  | dropColumn t c => exact ⟨_, rfl⟩
  | rebuildTable t copies =>
    obtain ⟨fills, filled⟩ := Except.mapM_succeeds.mpr fun c hc => (typed c hc).fill
    rw [commands, rebuild_eq, filled]
    exact (create_reports d (d.scratchName t.name) t).bind_ok fun create => ⟨_, rfl⟩

theorem commands_length (h : step.commands d = .ok commands) : commands.length = step.size := by
  cases step with
  | createTable t =>
    obtain ⟨create, -, rfl⟩ := Except.map_eq_ok.mp h
    rfl
  | dropTable name => cases h; rfl
  | addColumn t c => cases h; rfl
  | dropColumn t c => cases h; rfl
  | rebuildTable t copies =>
    obtain ⟨fills, filled, rfl⟩ := rebuild_ok h
    have same := (Except.mapM_forall₂ filled).length_eq
    unfold size copyCommand
    cases copies with
    | nil =>
      obtain rfl := List.length_eq_zero_iff.mp same.symm
      rfl
    | cons c rest =>
      obtain ⟨fill, others, rfl⟩ := List.exists_cons_of_length_eq_add_one same.symm
      rfl

end Step

namespace Plan

variable {d : Dialect} {plan : Plan} {statements : List Statement}

theorem statements_reports (d : Dialect) (typed : ∀ step ∈ plan, step.Typed) :
    (Plan.statements d plan).Reports (plan.flatMap Step.faults) :=
  (Except.reports_mapM fun step hs => Step.commands_reports d (typed step hs)).map _

theorem statements_single {step : Step} {commands : List (Command Param)}
    (h : step.commands d = .ok commands) :
    Plan.statements d [step] = .ok (commands.map (Statement.ofCommand d)) := by
  rw [statements, List.mapM_cons, h]
  exact congrArg (fun all => Except.ok (all.map (Statement.ofCommand d))) (List.append_nil commands)

/-- Every step has its statements in one place, in the order of the steps. -/
theorem statements_parts (h : Plan.statements d plan = .ok statements) :
    ∃ parts, statements = parts.flatten ∧ List.Forall₂ (fun step part =>
      Plan.statements d [step] = .ok part ∧ part.length = step.size) plan parts := by
  obtain ⟨commands, each, rfl⟩ := Except.map_eq_ok.mp h
  refine ⟨commands.map (List.map (Statement.ofCommand d)), List.map_flatten, ?_⟩
  rw [List.forall₂_map_right_iff]
  refine (Except.mapM_forall₂ each).imp fun step part written => ⟨statements_single written, ?_⟩
  rw [List.length_map]
  exact Step.commands_length written

end Plan

namespace Planner

variable {p : Planner} {expected actual : Schema} {plan : Plan}

theorem Rule.typed {current : Table} {c : Column} {copy : ColumnCopy}
    (h : Rule p current c (some copy)) : copy.Typed := by
  cases h with
  | kept _ _ _ => exact .inl rfl
  | replaced _ _ _ _ _ _ _ => exact .inr rfl
  | filled _ _ _ _ _ => exact .inr rfl

theorem typed_of_copyRules {t current : Table} {copies : List ColumnCopy}
    (h : p.copyRules t current = .ok copies) : ∀ c ∈ copies, c.Typed := by
  obtain ⟨rules, each, rfl⟩ := Except.map_eq_ok.mp h
  intro copy hc
  obtain ⟨rule, hr, rfl : rule = some copy⟩ := List.mem_filterMap.mp hc
  obtain ⟨c, -, treated⟩ := Except.mapM_mem each hr
  exact (rule_of_copyRule treated).typed

theorem Treated.typed {name : String} {steps : List Step}
    (h : Treated p expected actual name steps) : ∀ step ∈ steps, step.Typed := by
  cases h with
  | unexpected _ => exact List.forall_mem_nil _
  | created _ _ _ => exact List.forall_mem_singleton.mpr trivial
  | rebuilt t current copies _ _ rules =>
    exact List.forall_mem_singleton.mpr (typed_of_copyRules rules)
  | altered t current _ _ _ =>
    intro step hs
    rcases List.mem_append.mp hs with add | drop
    · obtain ⟨c, -, rfl⟩ := List.mem_map.mp add
      trivial
    · obtain ⟨c, -, rfl⟩ := List.mem_map.mp drop
      trivial

/-- The planner leaves no default without a type. -/
theorem typed_of_plan (planned : p.plan expected actual = .ok plan) :
    ∀ step ∈ plan, step.Typed := by
  obtain ⟨steps, treated, rfl⟩ := plan_ok planned
  intro step hs
  rcases List.mem_append.mp hs with drop | change
  · obtain ⟨name, -, rfl⟩ := List.mem_map.mp drop
    trivial
  · obtain ⟨name, there, change⟩ := List.mem_flatMap.mp change
    exact (treated name there).typed step change

/-- A planned migration can be written down in every dialect unless it makes a table without columns;
the first such step is to blame, never a default without a type. What is written down is what each
step is written as by itself, step after step. -/
theorem written_of_plan (planned : p.plan expected actual = .ok plan) (d : Dialect) :
    ((∃ e, Plan.statements d plan = .error e) ↔
      ∃ step ∈ plan, ∃ t, step.made? = some t ∧ t.columns = []) ∧
    (∀ e, Plan.statements d plan = .error e → ∃ before step after t,
      plan = before ++ step :: after ∧
      (∀ s ∈ before, ∀ t', s.made? = some t' → t'.columns ≠ []) ∧
      step.made? = some t ∧ t.columns = [] ∧ e = .planning (.noColumns t.name)) ∧
    (∀ column, Plan.statements d plan ≠ .error (.planning (.untypedDefault column))) ∧
    ∀ statements, Plan.statements d plan = .ok statements →
      ∃ parts, statements = parts.flatten ∧ List.Forall₂ (fun step part =>
        Plan.statements d [step] = .ok part ∧ part.length = step.size) plan parts := by
  have reports := Plan.statements_reports d (typed_of_plan planned)
  have first (e : Error) (refused : Plan.statements d plan = .error e) : ∃ before step after t,
      plan = before ++ step :: after ∧
      (∀ s ∈ before, ∀ t', s.made? = some t' → t'.columns ≠ []) ∧
      step.made? = some t ∧ t.columns = [] ∧ e = .planning (.noColumns t.name) := by
    rw [refused] at reports
    obtain ⟨before, step, after, split, fine, here⟩ :=
      List.head?_flatMap_eq_some reports.head_of_error
    obtain ⟨t, made, bare, same⟩ := Step.mem_faults.mp (List.mem_of_head? here)
    exact ⟨before, step, after, t, split, fun s hs => Step.faults_eq_nil.mp (fine s hs), made, bare,
      same⟩
  refine ⟨?_, first, fun column refused => ?_, fun statements => Plan.statements_parts⟩
  · rw [reports.error_iff]
    constructor
    · rintro ⟨e, among⟩
      obtain ⟨step, hs, own⟩ := List.mem_flatMap.mp among
      obtain ⟨t, made, bare, -⟩ := Step.mem_faults.mp own
      exact ⟨step, hs, t, made, bare⟩
    · rintro ⟨step, hs, t, made, bare⟩
      have own := Step.mem_faults.mpr ⟨t, made, bare, rfl⟩
      exact ⟨_, List.mem_flatMap.mpr ⟨step, hs, own⟩⟩
  · obtain ⟨-, -, -, t, -, -, -, -, same⟩ := first _ refused
    cases same

theorem written_wanted : ∃ parts : List (List Statement),
    Plan.statements .sqlite wantedSteps = .ok parts.flatten ∧
    parts.map List.length = [1, 4, 1, 1] := by
  obtain ⟨refused, -, -, parts⟩ := written_of_plan plan_wanted .sqlite
  cases written : Plan.statements .sqlite wantedSteps with
  | error e =>
    obtain ⟨step, hs, t, made, bare⟩ := refused.mp ⟨e, written⟩
    simp only [wantedSteps, List.mem_cons, List.not_mem_nil, or_false] at hs
    rcases hs with rfl | rfl | rfl | rfl
    all_goals cases made
    cases bare
  | ok statements =>
    obtain ⟨parts, rfl, each⟩ := parts statements written
    have sizes : wantedSteps.map Step.size = parts.map List.length := by
      rw [← List.forall₂_eq_eq_eq, List.forall₂_map_left_iff, List.forall₂_map_right_iff]
      exact each.imp fun step part written => written.2.symm
    exact ⟨parts, rfl, sizes.symm⟩

/-- A plan from elsewhere can lack the type of a default. -/
example : Plan.statements .generic
    [.rebuildTable ⟨"logs", [.named "at" "TEXT"]⟩ [⟨"at", none, .constant .null⟩]] =
      .error (.planning (.untypedDefault "at")) := by
  rfl

end Planner

end EntityStore
