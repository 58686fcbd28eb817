import EntityStore.Proofs.Outcome
import EntityStore.Proofs.Migration.Order
import EntityStore.Migration.Planner

namespace EntityStore.Planner

variable {p : Planner} {expected actual : Schema}

/-- The value that fills a column of existing rows. -/
def defaultOf? (p : Planner) (c : Column) : Option Value :=
  c.fieldType.bind fun type => (p.types type).map (·.default)

/-- How an expected column is filled, by what the old table has of it. -/
inductive Rule (p : Planner) (current : Table) (c : Column) : Option ColumnCopy → Prop
  | kept (old : Column) : current.column? c.name = some old →
      (old.nullable && !c.nullable) = false → Rule p current c (some ⟨c.name, c.fieldType, .existing⟩)
  | replaced (old : Column) (type : FieldType) (v : Value) : current.column? c.name = some old →
      old.nullable = true → c.nullable = false → p.defaultOf? c = some v →
      Rule p current c (some ⟨c.name, some type, .existingOr v⟩)
  | filled (type : FieldType) (v : Value) : current.column? c.name = none →
      (c.nullable || c.autoIncrement) = false → p.defaultOf? c = some v →
      Rule p current c (some ⟨c.name, some type, .constant v⟩)
  | unset : current.column? c.name = none → (c.nullable || c.autoIncrement) = true →
      Rule p current c none

theorem filler_ok {table : String} {c : Column} {v : Value} (h : p.filler table c = .ok v) :
    ∃ type, c.fieldType = some type ∧ p.defaultOf? c = some v := by
  unfold filler at h
  split at h
  · cases h
  · rename_i type typed
    split at h
    · cases h
    · rename_i mapping mapped
      cases h
      refine ⟨type, typed, ?_⟩
      rw [defaultOf?, typed, Option.bind_some, mapped]
      rfl

theorem rule_of_copyRule {current : Table} {table : String} {c : Column}
    {rule : Option ColumnCopy} (h : p.copyRule current table c = .ok rule) :
    Rule p current c rule := by
  unfold copyRule at h
  split at h
  · rename_i old found
    split at h
    · rename_i becomes
      rw [Bool.and_eq_true, Bool.not_eq_true'] at becomes
      obtain ⟨v, filler, h⟩ := Except.bind_eq_ok.mp h
      cases h
      obtain ⟨type, typed, default⟩ := filler_ok filler
      rw [typed]
      exact .replaced old type v found becomes.1 becomes.2 default
    · rename_i stays
      cases h
      exact .kept old found (Bool.eq_false_iff.mpr stays)
  · rename_i absent
    split at h
    · rename_i free
      cases h
      exact .unset absent free
    · rename_i required
      obtain ⟨v, filler, h⟩ := Except.bind_eq_ok.mp h
      cases h
      obtain ⟨type, typed, default⟩ := filler_ok filler
      rw [typed]
      exact .filled type v absent (Bool.eq_false_iff.mpr required) default

theorem copyRules_ok {t current : Table} {copies : List ColumnCopy}
    (h : p.copyRules t current = .ok copies) :
    ∃ rules, List.Forall₂ (Rule p current) t.columns rules ∧ copies = rules.filterMap id := by
  obtain ⟨rules, each, rfl⟩ := Except.map_eq_ok.mp h
  exact ⟨rules, (Except.mapM_forall₂ each).imp fun _ _ => rule_of_copyRule, rfl⟩

/-- The steps for a table by what the two schemas have of it. -/
inductive Treated (p : Planner) (expected actual : Schema) (name : String) : List Step → Prop
  | unexpected : expected.table? name = none → Treated p expected actual name []
  | created (t : Table) : expected.table? name = some t → actual.table? name = none →
      Treated p expected actual name [.createTable t]
  | rebuilt (t current : Table) (copies : List ColumnCopy) : expected.table? name = some t →
      actual.table? name = some current → p.copyRules t current = .ok copies →
      Treated p expected actual name [.rebuildTable t copies]
  | altered (t current : Table) : expected.table? name = some t →
      actual.table? name = some current → p.needsRebuild t current = false →
      Treated p expected actual name ((added t current).map (.addColumn t.name) ++
        (dropped t current).map fun c => .dropColumn t.name c.name)

theorem treated_of_steps {name : String} {steps : List Step}
    (h : p.steps expected actual name = .ok steps) : Treated p expected actual name steps := by
  unfold Planner.steps at h
  split at h
  · rename_i none
    cases h
    exact .unexpected none
  · rename_i t some
    split at h
    · rename_i none
      cases h
      exact .created t some none
    · rename_i current found
      unfold tableSteps at h
      split at h
      · obtain ⟨copies, rules, rfl⟩ := Except.map_eq_ok.mp h
        exact .rebuilt t current copies some found rules
      · rename_i keep
        cases h
        exact .altered t current some found (by simpa using keep)

/-- The tables that a plan drops, in the order in which it does. -/
def unknownTables (p : Planner) (expected actual : Schema) : List String :=
  if p.preserveUnknownTables then []
  else (TableOrder.all expected actual).reverse.filter fun name =>
    (expected.table? name).isNone && (actual.table? name).isSome

theorem drops_eq (p : Planner) (expected actual : Schema) :
    p.drops expected actual (TableOrder.all expected actual) =
      (p.unknownTables expected actual).map .dropTable := by
  unfold drops unknownTables
  cases p.preserveUnknownTables <;> rfl

/-- A plan drops tables, then takes the steps of each table in order. -/
theorem plan_eq_ok {plan : Plan} :
    p.plan expected actual = .ok plan ↔ ∃ steps : String → List Step,
      (∀ name ∈ TableOrder.all expected actual, p.steps expected actual name = .ok (steps name)) ∧
      plan = (p.unknownTables expected actual).map .dropTable ++
        (TableOrder.all expected actual).flatMap steps := by
  constructor
  · intro h
    obtain ⟨changes, hc, h⟩ := Except.bind_eq_ok.mp h
    cases h
    obtain ⟨steps, each, rfl⟩ := Except.mapM_eq_map hc
    exact ⟨steps, each, by rw [drops_eq, List.flatMap_def]⟩
  · rintro ⟨steps, each, rfl⟩
    refine Except.bind_eq_ok.mpr ⟨_, Except.mapM_of_forall each, ?_⟩
    rw [drops_eq, List.flatMap_def]
    rfl

/-- The steps of each table by what the two schemas have of it. -/
theorem plan_ok {plan : Plan} (h : p.plan expected actual = .ok plan) :
    ∃ steps : String → List Step,
      (∀ name ∈ TableOrder.all expected actual, Treated p expected actual name (steps name)) ∧
      plan = (p.unknownTables expected actual).map .dropTable ++
        (TableOrder.all expected actual).flatMap steps := by
  obtain ⟨steps, each, whole⟩ := plan_eq_ok.mp h
  exact ⟨steps, fun name hn => treated_of_steps (each name hn), whole⟩

theorem plan_of_order {names : List String} (order : TableOrder.all expected actual = names) :
    p.plan expected actual = (do
      let changes ← names.mapM (p.steps expected actual)
      .ok (p.drops expected actual names ++ changes.flatten)) := by
  rw [← order]
  rfl

theorem Treated.created_of_mem {name : String} {steps : List Step}
    (h : Treated p expected actual name steps) {t : Table} (creates : .createTable t ∈ steps) :
    expected.table? name = some t ∧ actual.table? name = none := by
  cases h with
  | unexpected _ => cases creates
  | created t' wanted absent =>
    cases List.mem_singleton.mp creates
    exact ⟨wanted, absent⟩
  | rebuilt _ _ _ _ _ _ => cases List.mem_singleton.mp creates
  | altered _ _ _ _ _ => simp at creates

theorem Treated.rebuilt_of_mem {name : String} {steps : List Step}
    (h : Treated p expected actual name steps) {t : Table} {copies : List ColumnCopy}
    (rebuilds : .rebuildTable t copies ∈ steps) :
    steps = [.rebuildTable t copies] ∧ ∃ current, expected.table? name = some t ∧
      actual.table? name = some current ∧ p.copyRules t current = .ok copies := by
  cases h with
  | unexpected _ => cases rebuilds
  | created _ _ _ => cases List.mem_singleton.mp rebuilds
  | rebuilt t' current copies' wanted stored rules =>
    cases List.mem_singleton.mp rebuilds
    exact ⟨rfl, current, wanted, stored, rules⟩
  | altered _ _ _ _ _ => simp at rebuilds

/-- A table that is rebuilt is in both schemas, and has its rules from the two. -/
theorem rebuilt_of_mem (named : expected.Named) {plan : Plan} (h : p.plan expected actual = .ok plan)
    {t : Table} {copies : List ColumnCopy} (rebuilds : .rebuildTable t copies ∈ plan) :
    ∃ current, expected.table? t.name = some t ∧ actual.table? t.name = some current ∧
      p.copyRules t current = .ok copies := by
  obtain ⟨steps, treated, rfl⟩ := plan_ok h
  rcases List.mem_append.mp rebuilds with drop | change
  · obtain ⟨name, -, drop⟩ := List.mem_map.mp drop
    cases drop
  · obtain ⟨name, there, change⟩ := List.mem_flatMap.mp change
    obtain ⟨-, current, wanted, stored, rules⟩ := (treated name there).rebuilt_of_mem change
    have same : t.name = name := named name t wanted
    exact ⟨current, same ▸ wanted, same ▸ stored, rules⟩

theorem mem_unknownTables {name : String} :
    name ∈ p.unknownTables expected actual ↔ p.preserveUnknownTables = false ∧
      expected.table? name = none ∧ (actual.table? name).isSome := by
  unfold unknownTables
  cases p.preserveUnknownTables with
  | true => simp
  | false =>
    simp only [List.mem_filter, List.mem_reverse, TableOrder.mem_all, Bool.and_eq_true,
      Option.isNone_iff_eq_none, true_and, Bool.false_eq_true, if_false]
    exact and_iff_right_of_imp fun h => .inr h.2

theorem unknownTables_nodup (p : Planner) (expected actual : Schema) :
    (p.unknownTables expected actual).Nodup := by
  unfold unknownTables
  split
  · exact List.nodup_nil
  · exact (List.nodup_reverse.mpr (TableOrder.all_nodup expected actual)).filter _

/-- The expected tables that are not there, in the order in which a plan comes to them. -/
def missing (expected actual : Schema) : List Table :=
  (TableOrder.all expected actual).filterMap fun name =>
    if (actual.table? name).isSome then none else expected.table? name

theorem mem_missing {t : Table} : t ∈ missing expected actual ↔
    ∃ name, expected.table? name = some t ∧ actual.table? name = none := by
  rw [missing, List.mem_filterMap]
  refine exists_congr fun name => ?_
  cases there : actual.table? name with
  | some current => simp
  | none =>
    simp only [Option.isSome_none, Bool.false_eq_true, if_false, and_true, and_iff_right_iff_imp]
    exact fun some => TableOrder.mem_all.mpr (.inl (some ▸ rfl))

/-- Where nothing unknown is there and nothing is to be done about what is there, the plan creates
what is missing. -/
theorem plan_of_settled (known : ∀ name, (actual.table? name).isSome → (expected.table? name).isSome)
    (settled : ∀ name t current, expected.table? name = some t → actual.table? name = some current →
      p.tableSteps t current = .ok []) :
    p.plan expected actual = .ok ((missing expected actual).map .createTable) := by
  have unknown : p.unknownTables expected actual = [] := by
    refine List.eq_nil_iff_forall_not_mem.mpr fun name there => ?_
    obtain ⟨-, unexpected, stored⟩ := mem_unknownTables.mp there
    have wanted := known name stored
    rw [unexpected] at wanted
    cases wanted
  refine plan_eq_ok.mpr ⟨fun name => (if (actual.table? name).isSome then none
    else expected.table? name).toList.map .createTable, fun name listed => ?_, ?_⟩
  · unfold Planner.steps
    cases some : expected.table? name with
    | none => simp [some]
    | some t =>
      cases there : actual.table? name with
      | none => simp [some, there]
      | some current => simpa [there] using settled name t current some there
  · rw [unknown, List.map_nil, List.nil_append, missing, List.filterMap_eq_flatMap_toList,
      List.map_flatMap]

/-- Users in roles. -/
def wanted : Schema :=
  (Schema.empty.add ⟨"roles", [((Column.named "id" "BIGINT").typed .integer).asPrimaryKey]⟩).add
    ⟨"users", [(Column.named "id" "BIGINT").asPrimaryKey, .named "name" "TEXT",
      (Column.named "role_id" "BIGINT").referencing "roles" "id"]⟩

/-- Roles without a key, users without roles, and a table that is not wanted any more. -/
def stored : Schema :=
  ((Schema.empty.add ⟨"users", [(Column.named "id" "bigint").asPrimaryKey, .named "email" "TEXT",
      .named "name" "text"]⟩).add ⟨"roles", [Column.named "id" "BIGINT"]⟩).add
    ⟨"visits", [(Column.named "user_id" "BIGINT").referencing "users" "id"]⟩

def wantedSteps : Plan :=
  [.dropTable "visits",
    .rebuildTable ⟨"roles", [((Column.named "id" "BIGINT").typed .integer).asPrimaryKey]⟩
      [⟨"id", some .integer, .existingOr (.int 0)⟩],
    .addColumn "users" ((Column.named "role_id" "BIGINT").referencing "roles" "id"),
    .dropColumn "users" "email"]

theorem plan_wanted :
    (Planner.of .generic .generic .default).plan wanted stored = .ok wantedSteps := by
  have order : TableOrder.all wanted stored = ["roles", "users", "visits"] := by
    decide +kernel
  rw [plan_of_order order]
  rfl

end EntityStore.Planner
