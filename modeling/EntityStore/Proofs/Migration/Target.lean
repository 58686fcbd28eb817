import EntityStore.Proofs.Migration.Catalog
import EntityStore.Proofs.Migration.Steps

namespace EntityStore

/-- Columns that the database cannot tell apart. -/
structure Column.Agrees (expected actual : Column) : Prop where
  name : actual.name = expected.name
  sqlType : Text.sameIgnoringCase expected.sqlType actual.sqlType = true
  nullable : actual.nullable = expected.nullable
  primaryKey : actual.primaryKey = expected.primaryKey
  references : actual.references = expected.references

/-- Tables with the same set of columns, in whatever order. -/
structure Table.Agrees (expected actual : Table) : Prop where
  name : actual.name = expected.name
  distinct : (actual.columns.map (·.name)).Nodup
  covered : ∀ c ∈ expected.columns, ∃ c' ∈ actual.columns, c.Agrees c'
  covers : ∀ c' ∈ actual.columns, ∃ c ∈ expected.columns, c.Agrees c'

theorem Column.agrees_refl (c : Column) : c.Agrees c :=
  ⟨rfl, Text.sameIgnoringCase_refl c.sqlType, rfl, rfl, rfl⟩

theorem Table.agrees_refl {t : Table} (distinct : (t.columns.map (·.name)).Nodup) : t.Agrees t :=
  ⟨rfl, distinct, fun c hc => ⟨c, hc, c.agrees_refl⟩, fun c hc => ⟨c, hc, c.agrees_refl⟩⟩

namespace Planner

variable {p : Planner} {t current : Table}

theorem agrees_of_unchanged {c c' : Column} (same : c'.name = c.name) (h : changed c c' = false) :
    c.Agrees c' := by
  simp only [changed, Bool.or_eq_false_iff, Bool.not_eq_false', bne_eq_false_iff_eq] at h
  obtain ⟨⟨⟨type, nullable⟩, key⟩, references⟩ := h
  exact ⟨same, type, nullable.symm, key.symm, references.symm⟩

/-- A table that needs no rebuild has every expected column unchanged or not at all. -/
theorem agrees_of_kept (keep : p.needsRebuild t current = false) {c c' : Column}
    (hc : c ∈ t.columns) (found : current.column? c.name = some c') : c.Agrees c' := by
  simp only [needsRebuild, Bool.or_eq_false_iff] at keep
  have column := List.any_eq_false.mp keep.1 c hc
  rw [found] at column
  exact agrees_of_unchanged (Table.column?_eq_some found).2 (by simpa using column)

theorem mem_added {c : Column} :
    c ∈ added t current ↔ c ∈ t.columns ∧ current.column? c.name = none := by
  simp [added]

theorem mem_dropped {c : Column} :
    c ∈ dropped t current ↔ c ∈ current.columns ∧ t.column? c.name = none := by
  simp [dropped]

/-- Columns that are added or dropped in place are outside of the key. -/
theorem plain_of_kept (keep : p.needsRebuild t current = false) {c : Column}
    (h : c ∈ added t current ∨ c ∈ dropped t current) : c.primaryKey = false := by
  simp only [needsRebuild, Bool.or_eq_false_iff] at keep
  rcases h with new | old
  · obtain ⟨hc, absent⟩ := mem_added.mp new
    have add := List.any_eq_false.mp keep.1 c hc
    simp only [absent, addable] at add
    simp_all
  · have drop := List.any_eq_false.mp keep.2 c old
    simp_all

/-- The columns of a table that is altered in place. -/
def alteredColumns (t current : Table) : List Column :=
  (current.columns ++ added t current).filter fun c =>
    c.name ∉ (dropped t current).map (·.name)

theorem mem_alteredColumns {c : Column} :
    c ∈ alteredColumns t current ↔
      (c ∈ current.columns ∨ c ∈ added t current) ∧ (t.column? c.name).isSome := by
  have stays : c ∈ current.columns ∨ c ∈ added t current →
      (c.name ∉ (dropped t current).map (·.name) ↔ (t.column? c.name).isSome) := by
    intro there
    constructor
    · intro stays
      rw [Option.isSome_iff_ne_none]
      intro unexpected
      rcases there with old | new
      · exact stays (List.mem_map_of_mem (mem_dropped.mpr ⟨old, unexpected⟩))
      · exact Table.column?_eq_none.mp unexpected (List.mem_map_of_mem (mem_added.mp new).1)
    · intro expected drop
      obtain ⟨c', hc', same⟩ := List.mem_map.mp drop
      rw [← same, (mem_dropped.mp hc').2] at expected
      cases expected
  rw [alteredColumns, List.mem_filter, List.mem_append, decide_eq_true_iff]
  exact and_congr_right stays

theorem agrees_altered (distinct : (t.columns.map (·.name)).Nodup)
    (distinct' : (current.columns.map (·.name)).Nodup) (same : current.name = t.name)
    (keep : p.needsRebuild t current = false) :
    t.Agrees { current with columns := alteredColumns t current } := by
  refine ⟨same, ?_, fun c hc => ?_, fun c' hc' => ?_⟩
  · have apart : ((current.columns ++ added t current).map (·.name)).Nodup := by
      rw [List.map_append, List.nodup_append']
      refine ⟨distinct', distinct.sublist (List.filter_sublist.map _), fun name old new => ?_⟩
      obtain ⟨c, hc, rfl⟩ := List.mem_map.mp new
      exact Table.column?_eq_none.mp (mem_added.mp hc).2 old
    exact apart.sublist (List.filter_sublist.map _)
  · have expected := Table.column?_of_mem distinct hc
    cases found : current.column? c.name with
    | none =>
      have new := mem_added.mpr ⟨hc, found⟩
      exact ⟨c, mem_alteredColumns.mpr ⟨.inr new, expected ▸ rfl⟩, c.agrees_refl⟩
    | some c' =>
      obtain ⟨old, name⟩ := Table.column?_eq_some found
      refine ⟨c', mem_alteredColumns.mpr ⟨.inl old, ?_⟩, agrees_of_kept keep hc found⟩
      rw [name, expected]
      rfl
  · obtain ⟨there, expected⟩ := mem_alteredColumns.mp hc'
    rcases there with old | new
    · obtain ⟨c, found⟩ := Option.isSome_iff_exists.mp expected
      obtain ⟨hc, name⟩ := Table.column?_eq_some found
      refine ⟨c, hc, agrees_of_kept keep hc ?_⟩
      rw [name]
      exact Table.column?_of_mem distinct' old
    · exact ⟨c', (mem_added.mp new).1, c'.agrees_refl⟩

/-- The rules of a rebuild fill expected columns from columns that are there. -/
theorem fits_of_copyRules {copies : List ColumnCopy} (h : p.copyRules t current = .ok copies) :
    ∀ r ∈ copies, r.Fits t current := by
  intro r hr
  obtain ⟨rules, hrules, rfl⟩ := Except.map_eq_ok.mp h
  obtain ⟨rule, hrule, rfl⟩ := List.mem_filterMap.mp hr
  obtain ⟨c, hc, made⟩ := Except.mapM_mem hrules hrule
  have expected : (t.column? c.name).isSome :=
    Table.column?_isSome.mpr (List.mem_map_of_mem hc)
  cases rule_of_copyRule made with
  | kept old found _ => exact ⟨expected, by simp [found]⟩
  | replaced old type v found _ _ _ => exact ⟨expected, by simp [found]⟩
  | filled type v _ _ _ => exact ⟨expected, trivial⟩

section

variable {expected actual : Schema}

/-- The drops of a plan can be run, and leave the other tables. -/
theorem run_unknownTables (p : Planner) (expected actual : Schema) :
    Plan.run actual.table? ((p.unknownTables expected actual).map .dropTable) =
      some fun name =>
        if name ∈ p.unknownTables expected actual then none else actual.table? name :=
  Plan.run_drops (unknownTables_nodup p expected actual) fun _ hn => (mem_unknownTables.mp hn).2.2

theorem reached_of_update {name : String} {t t' : Table} (some : expected.table? name = some t)
    (agrees : t.Agrees t') (c : Catalog) :
    (∀ other ≠ name, Function.update c name (Option.some t') other = c other) ∧
      (expected.table? name = none → Function.update c name (Option.some t') name = c name) ∧
      ∀ u, expected.table? name = Option.some u →
        ∃ u', Function.update c name (Option.some t') name = Option.some u' ∧ u.Agrees u' := by
  refine ⟨fun other ho => Function.update_of_ne ho _ c, fun none => ?_, fun u hu => ?_⟩
  · rw [some] at none
    cases none
  · rw [some] at hu
    cases hu
    exact ⟨t', Function.update_self name _ c, agrees⟩

/-- The steps for one table take it to what is expected and leave the others alone. -/
theorem run_treated (ne : expected.Named) (na : actual.Named) (de : expected.Distinct)
    (da : actual.Distinct) {name : String} {steps : List Step}
    (treated : Treated p expected actual name steps) {c : Catalog}
    (start : (expected.table? name).isSome → c name = actual.table? name) :
    ∃ c', Plan.run c steps = some c' ∧ (∀ other ≠ name, c' other = c other) ∧
      (expected.table? name = none → c' name = c name) ∧
      ∀ t, expected.table? name = some t → ∃ t', c' name = some t' ∧ t.Agrees t' := by
  cases treated with
  | unexpected none =>
    refine ⟨c, rfl, fun _ _ => rfl, fun _ => rfl, fun t ht => ?_⟩
    rw [none] at ht
    cases ht
  | created t some none =>
    have missing : c name = Option.none := by rw [start (by simp [some]), none]
    refine ⟨_, ?_, reached_of_update some (Table.agrees_refl (de name t some)) c⟩
    simp [Plan.run, Step.apply, ne name t some, missing]
  | rebuilt t current copies some found rules =>
    have there : c name = Option.some current := by rw [start (by simp [some]), found]
    have fits := fits_of_copyRules rules
    have step : (Step.rebuildTable t copies).apply c =
        Option.some (Function.update c name t) := by
      simp only [Step.apply, ne name t some, there, if_pos fits]
    refine ⟨_, ?_, reached_of_update some (Table.agrees_refl (de name t some)) c⟩
    rw [Plan.run_cons step]
    rfl
  | altered t current some found keep =>
    have there : c name = Option.some current := by rw [start (by simp [some]), found]
    have named := ne name t some
    have distinct := de name t some
    have distinct' := da name current found
    have same : current.name = t.name := by rw [na name current found, named]
    have adds := Plan.run_addColumns there (fun col hcol => (mem_added.mp hcol).2)
      (distinct.sublist (List.filter_sublist.map _) : ((added t current).map (·.name)).Nodup)
    have old : ∀ col ∈ (dropped t current).map (·.name), (Table.column?
        { current with columns := current.columns ++ added t current } col).isSome := by
      intro col hcol
      obtain ⟨c', hc', rfl⟩ := List.mem_map.mp hcol
      rw [Table.column?_isSome, List.map_append]
      exact List.mem_append_left _ (List.mem_map_of_mem (mem_dropped.mp hc').1)
    have drops := Plan.run_dropColumns (Function.update_self name _ c) old
      (distinct'.sublist (List.filter_sublist.map _))
    rw [List.map_map, Function.update_idem] at drops
    refine ⟨_, ?_, reached_of_update some (agrees_altered distinct distinct' same keep) c⟩
    rw [named, Plan.run_append adds]
    exact drops

/-- The steps of several tables, one table after another. -/
theorem run_tables (ne : expected.Named) (na : actual.Named) (de : expected.Distinct)
    (da : actual.Distinct) {steps : String → List Step} {names : List String}
    (distinct : names.Nodup)
    (treated : ∀ name ∈ names, Treated p expected actual name (steps name)) {c : Catalog}
    (start : ∀ name ∈ names, (expected.table? name).isSome → c name = actual.table? name) :
    ∃ c', Plan.run c (names.flatMap steps) = some c' ∧
      (∀ name, name ∉ names ∨ expected.table? name = none → c' name = c name) ∧
      ∀ name ∈ names, ∀ t, expected.table? name = some t →
        ∃ t', c' name = some t' ∧ t.Agrees t' := by
  induction names generalizing c with
  | nil => exact ⟨c, rfl, fun _ _ => rfl, fun _ h => by cases h⟩
  | cons first names ih =>
    obtain ⟨fresh, distinct⟩ := List.nodup_cons.mp distinct
    obtain ⟨c₁, run₁, others₁, kept₁, reached₁⟩ := run_treated ne na de da
      (treated first List.mem_cons_self) (start first List.mem_cons_self)
    have later : ∀ name ∈ names, (expected.table? name).isSome → c₁ name = actual.table? name := by
      intro name hn known
      have other : name ≠ first := fun same => fresh (same ▸ hn)
      rw [others₁ name other]
      exact start name (List.mem_cons_of_mem _ hn) known
    obtain ⟨c₂, run₂, others₂, reached₂⟩ := ih distinct
      (fun name hn => treated name (List.mem_cons_of_mem _ hn)) later
    refine ⟨c₂, ?_, fun name outside => ?_, fun name hn t ht => ?_⟩
    · rw [List.flatMap_cons, Plan.run_append run₁, run₂]
    · have away : name ∉ names ∨ expected.table? name = none :=
        outside.imp_left fun h inside => h (List.mem_cons_of_mem _ inside)
      rw [others₂ name away]
      by_cases same : name = first
      · subst same
        rcases outside with h | none
        · exact absurd List.mem_cons_self h
        · exact kept₁ none
      · exact others₁ name same
    · rcases List.mem_cons.mp hn with rfl | hn
      · rw [others₂ name (.inl fresh)]
        exact reached₁ t ht
      · exact reached₂ name hn t ht

/-- A plan can be run to its end, where the tables are the expected ones, besides those of the old
tables that were to be kept. -/
theorem plan_reaches_target (d : Dialect) (types : TypeMap) (options : PlannerOptions)
    (expected actual : Schema) (ne : expected.Named) (na : actual.Named) (de : expected.Distinct)
    (da : actual.Distinct) (plan : Plan)
    (planned : (Planner.of d types options).plan expected actual = .ok plan) :
    ∃ final, Plan.run actual.table? plan = some final ∧
      (∀ name t, expected.table? name = some t → ∃ t', final name = some t' ∧ t.Agrees t') ∧
      ∀ name, expected.table? name = none →
        final name = if options.preserveUnknownTables then actual.table? name else none := by
  obtain ⟨steps, treated, rfl⟩ := plan_ok planned
  have cleared := Plan.run_drops (unknownTables_nodup (.of d types options) expected actual)
    fun name hn => (mem_unknownTables.mp hn).2.2
  have start : ∀ name ∈ TableOrder.all expected actual, (expected.table? name).isSome →
      (if name ∈ (Planner.of d types options).unknownTables expected actual then none
        else actual.table? name) = actual.table? name := by
    intro name _ known
    have stays : name ∉ (Planner.of d types options).unknownTables expected actual := by
      intro h
      rw [(mem_unknownTables.mp h).2.1] at known
      cases known
    rw [if_neg stays]
  obtain ⟨final, run, others, reached⟩ :=
    run_tables ne na de da (TableOrder.all_nodup expected actual) treated start
  refine ⟨final, ?_, fun name t ht => ?_, fun name none => ?_⟩
  · rw [Plan.run_append cleared, run]
  · exact reached name (TableOrder.mem_all.mpr (.inl (ht ▸ rfl))) t ht
  · have kept : (Planner.of d types options).preserveUnknownTables =
        options.preserveUnknownTables := rfl
    rw [others name (.inr none)]
    cases preserve : options.preserveUnknownTables with
    | true => simp [mem_unknownTables, kept, preserve]
    | false =>
      cases old : actual.table? name <;> simp [mem_unknownTables, kept, preserve, none, old]

end

theorem plan_reaches_target_wanted :
    wanted.Named ∧ stored.Named ∧ wanted.Distinct ∧ stored.Distinct ∧
      ∃ final, Plan.run stored.table? wantedSteps = some final ∧
        (∀ name t, wanted.table? name = some t → ∃ t', final name = some t' ∧ t.Agrees t') ∧
        ∀ name, wanted.table? name = none →
          final name = if PlannerOptions.default.preserveUnknownTables then stored.table? name
            else none := by
  have ne : wanted.Named := Schema.named_of_entries (by decide)
  have na : stored.Named := Schema.named_of_entries (by decide)
  have de : wanted.Distinct := Schema.distinct_of_entries (by decide)
  have da : stored.Distinct := Schema.distinct_of_entries (by decide)
  exact ⟨ne, na, de, da,
    plan_reaches_target .generic .generic .default wanted stored ne na de da wantedSteps
      plan_wanted⟩

end Planner

end EntityStore
