import EntityStore.Proofs.Migration.Sequence
import EntityStore.Proofs.Migration.Target

namespace EntityStore

namespace Planner

variable {p : Planner} {t t' : Table}

theorem changed_of_agrees {c c' : Column} (agrees : c.Agrees c') : changed c c' = false := by
  simp [changed, agrees.sqlType, agrees.nullable, agrees.primaryKey, agrees.references]

/-- A table that agrees with the expected one is left alone. -/
theorem tableSteps_of_agrees (distinct : (t.columns.map (·.name)).Nodup) (agrees : t.Agrees t') :
    p.tableSteps t t' = .ok [] := by
  have found : ∀ c ∈ t.columns, ∃ c', t'.column? c.name = some c' ∧ c.Agrees c' := by
    intro c hc
    obtain ⟨c', hc', same⟩ := agrees.covered c hc
    exact ⟨c', same.name ▸ Table.column?_of_mem agrees.distinct hc', same⟩
  have add : added t t' = [] := by
    refine List.eq_nil_iff_forall_not_mem.mpr fun c hc => ?_
    obtain ⟨hc, absent⟩ := mem_added.mp hc
    obtain ⟨c', there, -⟩ := found c hc
    rw [absent] at there
    cases there
  have drop : dropped t t' = [] := by
    refine List.eq_nil_iff_forall_not_mem.mpr fun c' hc' => ?_
    obtain ⟨hc', unexpected⟩ := mem_dropped.mp hc'
    obtain ⟨c, hc, same⟩ := agrees.covers c' hc'
    rw [same.name, Table.column?_of_mem distinct hc] at unexpected
    cases unexpected
  have keep : p.needsRebuild t t' = false := by
    rw [needsRebuild, drop, List.any_nil, Bool.or_false, List.any_eq_false]
    intro c hc
    obtain ⟨c', there, same⟩ := found c hc
    simp [there, changed_of_agrees same]
  simp [tableSteps, keep, add, drop]

/-- A table with nothing to be done about it is kept, gains no column and loses none. -/
theorem tableSteps_nil (h : p.tableSteps t t' = .ok []) :
    p.needsRebuild t t' = false ∧ added t t' = [] ∧ dropped t t' = [] := by
  unfold tableSteps at h
  split at h
  · obtain ⟨copies, -, rebuilds⟩ := Except.map_eq_ok.mp h
    cases rebuilds
  · rename_i keep
    obtain ⟨add, drop⟩ := List.append_eq_nil_iff.mp (Except.ok.inj h)
    exact ⟨by simpa using keep, List.map_eq_nil_iff.mp add, List.map_eq_nil_iff.mp drop⟩

theorem agrees_of_tableSteps (distinct : (t'.columns.map (·.name)).Nodup) (same : t'.name = t.name)
    (h : p.tableSteps t t' = .ok []) : t.Agrees t' := by
  obtain ⟨keep, add, drop⟩ := tableSteps_nil h
  refine ⟨same, distinct, fun c hc => ?_, fun c' hc' => ?_⟩
  · cases found : t'.column? c.name with
    | none =>
      have new := mem_added.mpr ⟨hc, found⟩
      rw [add] at new
      cases new
    | some c' =>
      exact ⟨c', (Table.column?_eq_some found).1, agrees_of_kept keep hc found⟩
  · cases known : t.column? c'.name with
    | none =>
      have old := mem_dropped.mpr ⟨hc', known⟩
      rw [drop] at old
      cases old
    | some c =>
      obtain ⟨hc, name⟩ := Table.column?_eq_some known
      have found : t'.column? c.name = some c' := name ▸ Table.column?_of_mem distinct hc'
      exact ⟨c, hc, agrees_of_kept keep hc found⟩

/-- There is nothing to be done about a table: a wanted one is there with the wanted columns, and one
that is there is wanted or may stay. -/
structure UpToDate (p : Planner) (expected actual : Schema) (name : String) : Prop where
  there : (expected.table? name).isSome → (actual.table? name).isSome
  wanted : (actual.table? name).isSome →
    (expected.table? name).isSome ∨ p.preserveUnknownTables = true
  agrees : ∀ t t', expected.table? name = some t → actual.table? name = some t' → t.Agrees t'

section

variable {expected actual : Schema} {name : String}

theorem steps_nil_iff (ne : expected.Named) (na : actual.Named) (de : expected.Distinct)
    (da : actual.Distinct) :
    p.steps expected actual name = .ok [] ↔ ∀ t, expected.table? name = some t →
      ∃ t', actual.table? name = some t' ∧ t.Agrees t' := by
  unfold steps
  cases wanted : expected.table? name with
  | none => simp
  | some t =>
    cases found : actual.table? name with
    | none => simp
    | some t' =>
      have same : t'.name = t.name := (na name t' found).trans (ne name t wanted).symm
      have nothing : p.tableSteps t t' = .ok [] ↔ t.Agrees t' :=
        ⟨agrees_of_tableSteps (da name t' found) same, tableSteps_of_agrees (de name t wanted)⟩
      simpa using nothing

/-- Steps for a table are of one of two kinds. -/
theorem upToDate_iff (ne : expected.Named) (na : actual.Named) (de : expected.Distinct)
    (da : actual.Distinct) :
    p.UpToDate expected actual name ↔
      name ∉ p.unknownTables expected actual ∧ p.steps expected actual name = .ok [] := by
  rw [mem_unknownTables, steps_nil_iff ne na de da]
  constructor
  · intro h
    refine ⟨fun ⟨drops, unexpected, there⟩ => ?_, fun t wanted => ?_⟩
    · rcases h.wanted there with known | preserved
      · simp [unexpected] at known
      · simp [preserved] at drops
    · obtain ⟨t', found⟩ := Option.isSome_iff_exists.mp (h.there (wanted ▸ rfl))
      exact ⟨t', found, h.agrees t t' wanted found⟩
  · rintro ⟨kept, each⟩
    refine ⟨fun known => ?_, fun there => ?_, fun t t' wanted found => ?_⟩
    · obtain ⟨t, wanted⟩ := Option.isSome_iff_exists.mp known
      obtain ⟨t', found, -⟩ := each t wanted
      exact found ▸ rfl
    · by_contra neither
      rw [not_or, Option.not_isSome_iff_eq_none, Bool.not_eq_true] at neither
      exact kept ⟨neither.2, neither.1, there⟩
    · obtain ⟨t'', found', agrees⟩ := each t wanted
      rw [found] at found'
      cases found'
      exact agrees

theorem upToDate_of_unlisted (unlisted : name ∉ TableOrder.all expected actual) :
    p.UpToDate expected actual name := by
  rw [TableOrder.mem_all, not_or, Option.not_isSome_iff_eq_none,
    Option.not_isSome_iff_eq_none] at unlisted
  obtain ⟨unexpected, absent⟩ := unlisted
  exact ⟨by simp [unexpected], by simp [absent], by simp [absent]⟩

theorem plan_nil_iff (ne : expected.Named) (na : actual.Named) (de : expected.Distinct)
    (da : actual.Distinct) :
    p.plan expected actual = .ok [] ↔ ∀ name, p.UpToDate expected actual name := by
  constructor
  · intro h name
    by_cases listed : name ∈ TableOrder.all expected actual
    · obtain ⟨steps, each, whole⟩ := plan_eq_ok.mp h
      obtain ⟨drops, changes⟩ := List.append_eq_nil_iff.mp whole.symm
      have own : steps name = [] := List.flatMap_eq_nil_iff.mp changes name listed
      rw [upToDate_iff ne na de da, each name listed, own, List.map_eq_nil_iff.mp drops]
      exact ⟨List.not_mem_nil, rfl⟩
    · exact upToDate_of_unlisted listed
  · intro all
    have parts name := (upToDate_iff ne na de da).mp (all name)
    have kept : p.unknownTables expected actual = [] :=
      List.eq_nil_iff_forall_not_mem.mpr fun name => (parts name).1
    exact plan_eq_ok.mpr ⟨fun _ => [], fun name _ => (parts name).2, by simp [kept]⟩

/-- The steps of a plan for one table are its drop and its own steps. -/
theorem hasStep_iff (ne : expected.Named) {steps : String → List Step}
    (treated : ∀ n ∈ TableOrder.all expected actual, Treated p expected actual n (steps n)) :
    (∃ step ∈ (p.unknownTables expected actual).map .dropTable ++
        (TableOrder.all expected actual).flatMap steps, step.table = name) ↔
      name ∈ p.unknownTables expected actual ∨
        name ∈ TableOrder.all expected actual ∧ steps name ≠ [] := by
  constructor
  · rintro ⟨step, among, rfl⟩
    rcases List.mem_append.mp among with drop | change
    · obtain ⟨n, hn, rfl⟩ := List.mem_map.mp drop
      exact .inl hn
    · obtain ⟨n, listed, own⟩ := List.mem_flatMap.mp change
      have same := ((treated n listed).oneTable ne).table step own
      exact .inr ⟨same ▸ listed, same ▸ List.ne_nil_of_mem own⟩
  · rintro (drop | ⟨listed, some⟩)
    · exact ⟨.dropTable name, List.mem_append_left _ (List.mem_map_of_mem drop), rfl⟩
    · obtain ⟨step, own⟩ := List.exists_mem_of_ne_nil _ some
      exact ⟨step, List.mem_append_right _ (List.mem_flatMap.mpr ⟨name, listed, own⟩),
        ((treated name listed).oneTable ne).table step own⟩

theorem hasStep_of_plan (ne : expected.Named) (na : actual.Named) (de : expected.Distinct)
    (da : actual.Distinct) {plan : Plan} (planned : p.plan expected actual = .ok plan) :
    (∃ step ∈ plan, step.table = name) ↔ ¬ p.UpToDate expected actual name := by
  obtain ⟨steps, each, rfl⟩ := plan_eq_ok.mp planned
  rw [hasStep_iff ne fun n listed => treated_of_steps (each n listed)]
  by_cases listed : name ∈ TableOrder.all expected actual
  · rw [upToDate_iff ne na de da, each name listed, Except.ok.injEq]
    tauto
  · have fine : p.UpToDate expected actual name := upToDate_of_unlisted listed
    have kept := ((upToDate_iff ne na de da).mp fine).1
    simp [listed, kept, fine]

theorem upToDate_self (de : expected.Distinct) : p.UpToDate expected expected name := by
  refine ⟨id, .inl, fun t t' wanted found => ?_⟩
  rw [wanted] at found
  cases found
  exact Table.agrees_refl (de name t wanted)

/-- A plan is made and is empty exactly where every table is up to date, and otherwise has steps for
exactly the tables that are not. -/
theorem steps_where_schemas_differ (p : Planner) (expected actual : Schema) (ne : expected.Named)
    (na : actual.Named) (de : expected.Distinct) (da : actual.Distinct) :
    (p.plan expected actual = .ok [] ↔ ∀ name, p.UpToDate expected actual name) ∧
      (∀ plan, p.plan expected actual = .ok plan → ∀ name,
        (∃ step ∈ plan, step.table = name) ↔ ¬ p.UpToDate expected actual name) ∧
      p.plan expected expected = .ok [] :=
  ⟨plan_nil_iff ne na de da, fun _ planned _ => hasStep_of_plan ne na de da planned,
    (plan_nil_iff ne ne de de).mpr fun _ => upToDate_self de⟩

end

/-- The wanted schema as a database may report it: columns in another order, types in other letters,
logical types unknown. -/
def reported : Schema :=
  (Schema.empty.add ⟨"roles", [(Column.named "id" "bigint").asPrimaryKey.asAutoIncrement]⟩).add
    ⟨"users", [.named "name" "text", (Column.named "role_id" "BigInt").referencing "roles" "id",
      (Column.named "id" "BIGINT").asPrimaryKey]⟩

theorem steps_where_schemas_differ_reported :
    wanted.Named ∧ wanted.Distinct ∧
      (reported.Named ∧ reported.Distinct ∧
        (Planner.of .generic .generic .default).plan wanted reported = .ok [] ∧
        ∀ name, (Planner.of .generic .generic .default).UpToDate wanted reported name) ∧
      stored.Named ∧ stored.Distinct ∧
        (Planner.of .generic .generic .default).plan wanted stored = .ok wantedSteps ∧
        ∀ name, (∃ step ∈ wantedSteps, step.table = name) ↔
          ¬ (Planner.of .generic .generic .default).UpToDate wanted stored name := by
  have ne : wanted.Named := Schema.named_of_entries (by decide)
  have de : wanted.Distinct := Schema.distinct_of_entries (by decide)
  have nr : reported.Named := Schema.named_of_entries (by decide)
  have dr : reported.Distinct := Schema.distinct_of_entries (by decide)
  have ns : stored.Named := Schema.named_of_entries (by decide)
  have ds : stored.Distinct := Schema.distinct_of_entries (by decide)
  have order : TableOrder.all wanted reported = ["roles", "users"] := by decide +kernel
  have planned : (Planner.of .generic .generic .default).plan wanted reported = .ok [] := by
    rw [plan_of_order order]
    rfl
  have same := steps_where_schemas_differ (.of .generic .generic .default) wanted reported ne nr de dr
  have other := steps_where_schemas_differ (.of .generic .generic .default) wanted stored ne ns de ds
  exact ⟨ne, de, ⟨nr, dr, planned, same.1.mp planned⟩, ns, ds, plan_wanted,
    other.2.1 wantedSteps plan_wanted⟩

end Planner

end EntityStore
