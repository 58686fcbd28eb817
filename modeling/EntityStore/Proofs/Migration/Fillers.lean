import EntityStore.Proofs.Migration.Steps

namespace EntityStore.Planner

variable {p : Planner} {types : TypeMap} {expected actual : Schema} {t current : Table} {c : Column}
  {table : String} {fault : PlanFault}

/-- Whether rows that exist have to be given a value in an expected column: in a new one that is
required and not generated, or in one that could be null and cannot be any more. -/
def needsFiller (current : Table) (c : Column) : Bool :=
  match current.column? c.name with
  | none => !c.nullable && !c.autoIncrement
  | some old => old.nullable && !c.nullable

/-- Why there is no value for a column of a table: its type is not known, or has no mapping. -/
inductive NoFiller (types : TypeMap) (table : String) (c : Column) : PlanFault → Prop
  | untyped : c.fieldType = none → NoFiller types table c (.untypedColumn table c.name)
  | unmapped (type : FieldType) : c.fieldType = some type → types type = none →
      NoFiller types table c (.unmappedColumn table c.name type)

/-- The rows of a table that is in both schemas need a value in a column, and there is none. -/
structure Unfilled (types : TypeMap) (t current : Table) (c : Column) (fault : PlanFault) : Prop where
  needed : needsFiller current c = true
  missing : NoFiller types t.name c fault

theorem NoFiller.message (h : NoFiller types table c fault) : ∃ lead tail,
    (Error.planning fault).message =
      "migration planning failed: " ++ lead ++ table ++ "." ++ c.name ++ tail := by
  cases h with
  | untyped _ =>
    refine ⟨"", " needs a default value but its field type is unknown", ?_⟩
    unfold Error.message PlanFault.message
    simp only [String.append_assoc, String.empty_append]
  | unmapped type _ _ =>
    refine ⟨"no default value for ", ": " ++ unmappedMessage type, ?_⟩
    unfold Error.message PlanFault.message
    simp only [String.append_assoc]

/-- A table with a column that needs a value is rebuilt. -/
theorem needsRebuild_of_needsFiller (hc : c ∈ t.columns) (needed : needsFiller current c = true) :
    p.needsRebuild t current = true := by
  rw [needsRebuild, Bool.or_eq_true, List.any_eq_true]
  refine .inl ⟨c, hc, ?_⟩
  unfold needsFiller at needed
  cases found : current.column? c.name with
  | none =>
    rw [found] at needed
    simp_all [addable]
  | some old =>
    rw [found] at needed
    simp_all [changed]

/-- The fault of a column that needs a value, where there is none. -/
def columnFaults (types : TypeMap) (current : Table) (table : String) (c : Column) : List Error :=
  if needsFiller current c then
    match c.fieldType with
    | none => [.planning (.untypedColumn table c.name)]
    | some type =>
      if (types type).isNone then [.planning (.unmappedColumn table c.name type)] else []
  else []

/-- The faults of a table's columns, for a table that is in both schemas. -/
def tableFaults (types : TypeMap) (expected actual : Schema) (name : String) : List Error :=
  match expected.table? name, actual.table? name with
  | some t, some current => t.columns.flatMap (columnFaults types current t.name)
  | _, _ => []

theorem mem_columnFaults {e : Error} : e ∈ columnFaults types current t.name c ↔
    ∃ fault, Unfilled types t current c fault ∧ e = .planning fault := by
  unfold columnFaults
  constructor
  · intro among
    split at among
    · rename_i needed
      split at among
      · rename_i untyped
        exact ⟨_, ⟨needed, .untyped untyped⟩, List.mem_singleton.mp among⟩
      · rename_i type typed
        split at among
        · rename_i unmapped
          have none := Option.isNone_iff_eq_none.mp unmapped
          exact ⟨_, ⟨needed, .unmapped type typed none⟩, List.mem_singleton.mp among⟩
        · cases among
    · cases among
  · rintro ⟨fault, ⟨needed, missing⟩, rfl⟩
    rw [if_pos needed]
    cases missing with
    | untyped untyped => simp [untyped]
    | unmapped type typed unmapped => simp [typed, unmapped]

theorem columnFaults_eq_nil : columnFaults types current t.name c = [] ↔
    ∀ fault, ¬ Unfilled types t current c fault := by
  rw [List.eq_nil_iff_forall_not_mem]
  constructor
  · intro none fault unfilled
    exact none _ (mem_columnFaults.mpr ⟨fault, unfilled, rfl⟩)
  · intro none e among
    obtain ⟨fault, unfilled, -⟩ := mem_columnFaults.mp among
    exact none fault unfilled

theorem filler_reports (p : Planner) (needed : needsFiller current c = true) (table : String) :
    (p.filler table c).Reports (columnFaults p.types current table c) := by
  unfold filler columnFaults
  rw [if_pos needed]
  cases c.fieldType with
  | none => rfl
  | some type =>
    cases mapped : p.types type with
    | none => simp [Except.Reports, mapped]
    | some mapping => simp [Except.Reports, mapped]

theorem copyRule_reports (p : Planner) (current : Table) (table : String) (c : Column) :
    (p.copyRule current table c).Reports (columnFaults p.types current table c) := by
  have fine (no : needsFiller current c = false) : columnFaults p.types current table c = [] := by
    rw [columnFaults, no, if_neg Bool.false_ne_true]
  unfold copyRule
  cases found : current.column? c.name with
  | none =>
    have needed : needsFiller current c = !(c.nullable || c.autoIncrement) := by
      rw [needsFiller, found, Bool.not_or]
    dsimp only
    split
    · rename_i free
      rw [fine (by rw [needed, free]; rfl)]
      exact ⟨_, rfl⟩
    · rename_i required
      exact (p.filler_reports (by simpa [needed] using required) table).bind_ok fun v => ⟨_, rfl⟩
  | some old =>
    have needed : needsFiller current c = (old.nullable && !c.nullable) := by
      rw [needsFiller, found]
    dsimp only
    split
    · rename_i becomes
      exact (p.filler_reports (needed.trans becomes) table).bind_ok fun v => ⟨_, rfl⟩
    · rename_i stays
      rw [fine (by rw [needed]; simpa using stays)]
      exact ⟨_, rfl⟩

theorem tableSteps_reports (p : Planner) (t current : Table) :
    (p.tableSteps t current).Reports (t.columns.flatMap (columnFaults p.types current t.name)) := by
  unfold tableSteps
  split
  · have rules := Except.reports_mapM fun c (_ : c ∈ t.columns) =>
      p.copyRule_reports current t.name c
    exact (rules.map fun rules => rules.filterMap id).map _
  · rename_i keep
    have fine : t.columns.flatMap (columnFaults p.types current t.name) = [] := by
      refine List.flatMap_eq_nil_iff.mpr fun c hc => if_neg fun needed => ?_
      exact keep (needsRebuild_of_needsFiller hc needed)
    rw [fine]
    exact ⟨_, rfl⟩

theorem steps_reports (p : Planner) (expected actual : Schema) (name : String) :
    (p.steps expected actual name).Reports (tableFaults p.types expected actual name) := by
  unfold steps tableFaults
  cases expected.table? name with
  | none => exact ⟨_, rfl⟩
  | some t =>
    cases actual.table? name with
    | none => exact ⟨_, rfl⟩
    | some current => exact p.tableSteps_reports t current

/-- A plan is refused for the first fault of its tables, in the order in which they are planned. -/
theorem plan_reports (p : Planner) (expected actual : Schema) :
    (p.plan expected actual).Reports
      ((TableOrder.all expected actual).flatMap (tableFaults p.types expected actual)) :=
  (Except.reports_mapM fun name _ => p.steps_reports expected actual name).bind_ok
    fun _ => ⟨_, rfl⟩

theorem mem_tableFaults {name : String} {e : Error} : e ∈ tableFaults types expected actual name ↔
    ∃ t current c fault, expected.table? name = some t ∧ actual.table? name = some current ∧
      c ∈ t.columns ∧ Unfilled types t current c fault ∧ e = .planning fault := by
  unfold tableFaults
  cases wanted : expected.table? name with
  | none => simp
  | some t =>
    cases stored : actual.table? name with
    | none => simp
    | some current => simp [List.mem_flatMap, mem_columnFaults]

/-- The first fault of a table is that of its first column that cannot be filled. -/
theorem head_tableFaults {name : String} {e : Error}
    (h : (tableFaults types expected actual name).head? = some e) :
    ∃ t current before c after fault, expected.table? name = some t ∧
      actual.table? name = some current ∧ t.columns = before ++ c :: after ∧
      (∀ c' ∈ before, ∀ f, ¬ Unfilled types t current c' f) ∧
      Unfilled types t current c fault ∧ e = .planning fault := by
  unfold tableFaults at h
  split at h
  · rename_i t current wanted stored
    obtain ⟨before, c, after, split, filled, first⟩ := List.head?_flatMap_eq_some h
    obtain ⟨fault, unfilled, same⟩ := mem_columnFaults.mp (List.mem_of_head? first)
    exact ⟨t, current, before, c, after, fault, wanted, stored, split,
      fun c' hc' => columnFaults_eq_nil.mp (filled c' hc'), unfilled, same⟩
  · cases h

/-- There is no plan exactly where some table that is in both schemas has a column that rows need a
value in, and that has none. The first such column in the order of the plan is named; its table would
have been rebuilt. -/
theorem plan_refused_for_unfilled (d : Dialect) (types : TypeMap) (options : PlannerOptions)
    (expected actual : Schema) :
    ((∃ e, (Planner.of d types options).plan expected actual = .error e) ↔
      ∃ name t current, expected.table? name = some t ∧ actual.table? name = some current ∧
        ∃ c ∈ t.columns, ∃ fault, Unfilled types t current c fault) ∧
    ∀ e, (Planner.of d types options).plan expected actual = .error e →
      ∃ earlier name later t current before c after fault,
        TableOrder.all expected actual = earlier ++ name :: later ∧
        (∀ n ∈ earlier, ∀ t' current', expected.table? n = some t' →
          actual.table? n = some current' → ∀ c' ∈ t'.columns, ∀ f,
            ¬ Unfilled types t' current' c' f) ∧
        expected.table? name = some t ∧ actual.table? name = some current ∧
        (Planner.of d types options).needsRebuild t current = true ∧
        t.columns = before ++ c :: after ∧
        (∀ c' ∈ before, ∀ f, ¬ Unfilled types t current c' f) ∧
        Unfilled types t current c fault ∧ e = .planning fault ∧
        ∃ lead tail, e.message =
          "migration planning failed: " ++ lead ++ t.name ++ "." ++ c.name ++ tail := by
  have reports := plan_reports (.of d types options) expected actual
  refine ⟨?_, fun e refused => ?_⟩
  · rw [reports.error_iff]
    constructor
    · rintro ⟨e, among⟩
      obtain ⟨name, -, own⟩ := List.mem_flatMap.mp among
      obtain ⟨t, current, c, fault, wanted, stored, hc, unfilled, -⟩ := mem_tableFaults.mp own
      exact ⟨name, t, current, wanted, stored, c, hc, fault, unfilled⟩
    · rintro ⟨name, t, current, wanted, stored, c, hc, fault, unfilled⟩
      have listed : name ∈ TableOrder.all expected actual :=
        TableOrder.mem_all.mpr (.inl (wanted ▸ rfl))
      have own := mem_tableFaults.mpr ⟨t, current, c, fault, wanted, stored, hc, unfilled, rfl⟩
      exact ⟨_, List.mem_flatMap.mpr ⟨name, listed, own⟩⟩
  · rw [refused] at reports
    obtain ⟨earlier, name, later, order, fine, first⟩ :=
      List.head?_flatMap_eq_some reports.head_of_error
    obtain ⟨t, current, before, c, after, fault, wanted, stored, split, filled, unfilled, rfl⟩ :=
      head_tableFaults first
    have column : c ∈ t.columns := split ▸ List.mem_append_right _ List.mem_cons_self
    refine ⟨earlier, name, later, t, current, before, c, after, fault, order,
      fun n hn t' current' wanted' stored' c' hc' f unfilled' => ?_, wanted, stored,
      needsRebuild_of_needsFiller column unfilled.needed, split, filled, unfilled, rfl,
      unfilled.missing.message⟩
    have own := mem_tableFaults.mpr ⟨t', current', c', f, wanted', stored', hc', unfilled', rfl⟩
    exact List.eq_nil_iff_forall_not_mem.mp (fine n hn) _ own

/-- Users who have to have an age, of a type that nothing is known of. -/
def usersWithAge : Table :=
  ⟨"users", [(Column.named "id" "BIGINT").asPrimaryKey, (Column.named "age" "INT").notNull]⟩

theorem plan_refused_for_unfilled_age : ∃ e,
    (Planner.of .sqlite .sqlite .default).plan (Schema.empty.add usersWithAge) stored = .error e := by
  have unfilled : Unfilled .sqlite usersWithAge
      ⟨"users", [(Column.named "id" "bigint").asPrimaryKey, .named "email" "TEXT",
        .named "name" "text"]⟩
      (Column.named "age" "INT").notNull (.untypedColumn "users" "age") :=
    ⟨rfl, .untyped rfl⟩
  exact (plan_refused_for_unfilled .sqlite .sqlite .default (Schema.empty.add usersWithAge) stored).1.mpr
    ⟨"users", usersWithAge, _, rfl, rfl, _, .tail _ (.head _), _, unfilled⟩

end EntityStore.Planner
