import EntityStore.Proofs.Migration.Rebuild
import EntityStore.Proofs.Migration.Statements
import EntityStore.Proofs.Migration.Sequence

namespace EntityStore.Planner

open Sql (Command)

variable {p : Planner} {expected actual : Schema} {plan : Plan} {t : Table} {copies : List ColumnCopy}

/-- Before a table is rebuilt come all drops, and the steps of the tables that are ordered before. -/
theorem before_rebuild (ne : expected.Named) (planned : p.plan expected actual = .ok plan)
    {before after : List Step} (split : plan = before ++ .rebuildTable t copies :: after) :
    ∃ (steps : String → List Step) (earlier later : List String),
      (∀ name ∈ earlier, Treated p expected actual name (steps name)) ∧
      TableOrder.all expected actual = earlier ++ t.name :: later ∧
      before = (p.unknownTables expected actual).map .dropTable ++ earlier.flatMap steps := by
  obtain ⟨steps, treated, rfl⟩ := plan_ok planned
  rcases append_split split with ⟨drop, -⟩ | ⟨_, rfl, tail⟩
  · obtain ⟨name, -, drop⟩ := List.mem_map.mp drop
    cases drop
  · obtain ⟨earlier, name, later, mine, rest, order, own, rfl⟩ := flatMap_split tail
    rw [order] at treated
    have change : .rebuildTable t copies ∈ steps name :=
      own ▸ List.mem_append_right _ List.mem_cons_self
    obtain ⟨alone, current, wanted, -, -⟩ := (treated name (by simp)).rebuilt_of_mem change
    have first : mine = [] := by
      rw [alone] at own
      cases mine with
      | nil => rfl
      | cons _ mine => simp at own
    refine ⟨steps, earlier, later, fun n hn => treated n (List.mem_append_left _ hn), ?_, ?_⟩
    · rw [order, ne name t wanted]
    · rw [first, List.append_nil]

/-- The steps of some tables create those of them that are expected and new. -/
theorem mem_created (ne : expected.Named) {steps : String → List Step} {names : List String}
    (treated : ∀ n ∈ names, Treated p expected actual n (steps n)) {name : String} :
    (∃ t, .createTable t ∈ names.flatMap steps ∧ t.name = name) ↔
      name ∈ names ∧ (expected.table? name).isSome ∧ actual.table? name = none := by
  constructor
  · rintro ⟨t, creates, rfl⟩
    obtain ⟨n, listed, creates⟩ := List.mem_flatMap.mp creates
    obtain ⟨wanted, absent⟩ := (treated n listed).created_of_mem creates
    obtain rfl := ne n t wanted
    exact ⟨listed, wanted ▸ rfl, absent⟩
  · rintro ⟨listed, known, absent⟩
    obtain ⟨t, same, own⟩ := (treated name listed).created_of_new ne known absent
    exact ⟨t, List.mem_flatMap.mpr ⟨name, listed, own ▸ List.mem_cons_self⟩, same⟩

/-- The tables that are there when a table is rebuilt: the stored ones that stay, and the expected ones
that are ordered before it. -/
theorem there_at_rebuild (ne : expected.Named) (planned : p.plan expected actual = .ok plan)
    {before after : List Step} (split : plan = before ++ .rebuildTable t copies :: after) :
    ∃ earlier later, TableOrder.all expected actual = earlier ++ t.name :: later ∧
      ∀ c, Plan.run actual.table? before = some c → ∀ name, (c name).isSome ↔
        ((actual.table? name).isSome ∧
          ((expected.table? name).isSome ∨ p.preserveUnknownTables = true)) ∨
        ((expected.table? name).isSome ∧ name ∈ earlier) := by
  obtain ⟨steps, earlier, later, treated, order, rfl⟩ := before_rebuild ne planned split
  refine ⟨earlier, later, order, fun c run name => ?_⟩
  rw [Plan.run_append (run_unknownTables p expected actual)] at run
  have kept : .dropTable name ∉ earlier.flatMap steps := by
    intro among
    obtain ⟨n, listed, drop⟩ := List.mem_flatMap.mp among
    exact (treated n listed).not_drop name drop
  rw [Plan.isSome_of_run run kept, mem_created ne treated]
  have stays : (if name ∈ p.unknownTables expected actual then none
      else actual.table? name).isSome ↔ (actual.table? name).isSome ∧
        ((expected.table? name).isSome ∨ p.preserveUnknownTables = true) := by
    by_cases unknown : name ∈ p.unknownTables expected actual
    · obtain ⟨drops, unexpected, -⟩ := mem_unknownTables.mp unknown
      simp [unknown, drops, unexpected]
    · rw [if_neg unknown, iff_self_and]
      intro there
      by_contra neither
      rw [not_or, Option.not_isSome_iff_eq_none, Bool.not_eq_true] at neither
      exact unknown (mem_unknownTables.mpr ⟨neither.2, neither.1, there⟩)
  rw [stays]
  cases actual.table? name <;> cases expected.table? name <;> simp

/-- The statements of a rebuild that can be taken fail exactly where a table has the scratch name. -/
theorem rebuild_fails_iff {d : Dialect} {c c' : Catalog} {commands : List (Command Param)}
    (rendered : Step.rebuild d t copies = .ok commands)
    (taken : (Step.rebuildTable t copies).apply c = some c') :
    Command.defineAll (c.declared d) commands = none ↔ (c (d.scratchName t.name)).isSome := by
  cases Step.takes_of_apply taken with
  | rebuilt there fits =>
    cases free : c (d.scratchName t.name) with
    | none => simp [Step.define_rebuild rendered there fits free]
    | some other =>
      obtain ⟨fills, -, rfl⟩ := Step.rebuild_ok rendered
      have found : c.declared d (t.definition d (d.scratchName t.name)).name =
          some (other.definition d (d.scratchName t.name)) := Catalog.declared_some d free
      have blocked : (Command.createTable (α := Param)
          (t.definition d (d.scratchName t.name))).define (c.declared d) = none := by
        simp only [Command.define, found]
      rw [Command.defineAll, List.foldlM_cons, blocked]
      simp

/-- A rebuild creates a table of a name that is there already, and so fails, exactly where a stored
table of that name stays or an expected one has been created before. -/
theorem scratch_name_taken (d : Dialect) (types : TypeMap) (options : PlannerOptions)
    (expected actual : Schema) (ne : expected.Named) (na : actual.Named) (plan : Plan)
    (planned : (Planner.of d types options).plan expected actual = .ok plan)
    (before after : List Step) (t : Table) (copies : List ColumnCopy)
    (split : plan = before ++ .rebuildTable t copies :: after) (commands : List (Command Param))
    (rendered : Step.commands d (.rebuildTable t copies) = .ok commands) :
    ∃ scratch rest earlier later, commands = .createTable scratch :: rest ∧
      scratch.name = d.scratchName t.name ∧
      TableOrder.all expected actual = earlier ++ t.name :: later ∧
      (∀ c, Plan.run actual.table? before = some c →
        ((c scratch.name).isSome ↔
          ((actual.table? scratch.name).isSome ∧
            ((expected.table? scratch.name).isSome ∨ options.preserveUnknownTables = true)) ∨
          ((expected.table? scratch.name).isSome ∧ scratch.name ∈ earlier))) ∧
      (expected.Distinct → actual.Distinct → ∃ c, Plan.run actual.table? before = some c ∧
        (Command.defineAll (c.declared d) commands = none ↔ (c scratch.name).isSome)) := by
  obtain ⟨earlier, later, order, there⟩ := there_at_rebuild ne planned split
  obtain ⟨fills, -, whole⟩ := Step.rebuild_ok rendered
  refine ⟨_, _, earlier, later, whole, rfl, order, fun c run => there c run _, fun de da => ?_⟩
  obtain ⟨final, run⟩ := plan_runs ne na de da planned
  rw [split, Plan.run, List.foldlM_append] at run
  obtain ⟨c, first, run⟩ := Option.bind_eq_some_iff.mp run
  rw [List.foldlM_cons] at run
  obtain ⟨_, taken, -⟩ := Option.bind_eq_some_iff.mp run
  exact ⟨c, first, rebuild_fails_iff rendered taken⟩

theorem scratch_name_taken_roles :
    wanted.Named ∧ stored.Named ∧
      (Planner.of .generic .generic .default).plan wanted stored = .ok wantedSteps ∧
      wantedSteps = [.dropTable "visits"] ++
        .rebuildTable roles [⟨"id", some .integer, .existingOr (.int 0)⟩] :: wantedSteps.drop 2 ∧
      Step.commands .generic (.rebuildTable roles [⟨"id", some .integer, .existingOr (.int 0)⟩]) =
        .ok rolesRebuild ∧
      ∃ c, Plan.run stored.table? [.dropTable "visits"] = some c ∧ c "roles__rebuild" = none ∧
        Command.defineAll (c.declared .generic) rolesRebuild ≠ none := by
  have ne : wanted.Named := Schema.named_of_entries (by decide)
  have na : stored.Named := Schema.named_of_entries (by decide)
  have de : wanted.Distinct := Schema.distinct_of_entries (by decide)
  have da : stored.Distinct := Schema.distinct_of_entries (by decide)
  obtain ⟨scratch, rest, earlier, later, whole, name, order, taken, runs⟩ :=
    scratch_name_taken .generic .generic .default wanted stored ne na wantedSteps plan_wanted
      [.dropTable "visits"] (wantedSteps.drop 2) roles
      [⟨"id", some .integer, .existingOr (.int 0)⟩] rfl rolesRebuild rfl
  obtain ⟨c, run, fails⟩ := runs de da
  have free : ¬ (c scratch.name).isSome := by
    rw [taken c run, name]
    rintro (⟨there, -⟩ | ⟨there, -⟩) <;> exact absurd there (by decide)
  have named : scratch.name = "roles__rebuild" := name
  exact ⟨ne, na, plan_wanted, rfl, rfl, c, run,
    named ▸ Option.not_isSome_iff_eq_none.mp free, fails.not.mpr free⟩

/-- Builds, and what is built again. -/
def built : Schema :=
  (Schema.empty.add ⟨"builds", [(Column.named "id" "INTEGER").asPrimaryKey]⟩).add
    ⟨"builds__rebuild", [(Column.named "id" "INTEGER").asPrimaryKey]⟩

/-- The table of builds is to have notes. -/
def annotated : Schema :=
  built.add ⟨"builds", [(Column.named "id" "INTEGER").asPrimaryKey,
    ((Column.named "note" "TEXT").typed .text).notNull]⟩

/-- A rebuild of builds meets a table that both schemas have. -/
theorem scratch_name_meets_table :
    annotated.Named ∧ built.Named ∧ ∃ t copies commands c,
      (Planner.of .sqlite .sqlite .default).plan annotated built = .ok [.rebuildTable t copies] ∧
      Step.commands .sqlite (.rebuildTable t copies) =
        .ok (.createTable (t.definition .sqlite "builds__rebuild") :: commands) ∧
      Plan.run built.table? [] = some c ∧
      (c (t.definition .sqlite "builds__rebuild").name).isSome := by
  have order : TableOrder.all annotated built = ["builds", "builds__rebuild"] := by decide +kernel
  refine ⟨Schema.named_of_entries (by decide), Schema.named_of_entries (by decide),
    ⟨"builds", [(Column.named "id" "INTEGER").asPrimaryKey,
      ((Column.named "note" "TEXT").typed .text).notNull]⟩,
    [⟨"id", none, .existing⟩, ⟨"note", some .text, .constant (.text "")⟩], _, built.table?, ?_, rfl,
    rfl, rfl⟩
  rw [plan_of_order order]
  rfl

end EntityStore.Planner
