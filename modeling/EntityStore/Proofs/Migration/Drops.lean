import EntityStore.Proofs.Migration.Catalog
import EntityStore.Proofs.Migration.Sequence

namespace EntityStore

/-- A table of the catalog has a foreign key that points at another. -/
def Catalog.Refers (c : Catalog) (a b : String) : Prop := ∃ t, c a = some t ∧ b ∈ t.referenced

theorem Catalog.refers_without {c : Catalog} {gone : List String} {a b : String} :
    Catalog.Refers (fun name => if name ∈ gone then none else c name) a b ↔
      a ∉ gone ∧ c.Refers a b := by
  unfold Catalog.Refers
  by_cases h : a ∈ gone <;> simp [h]

namespace Planner

variable {p : Planner} {expected actual : Schema} {plan : Plan} {name : String}

/-- All that comes before a drop are drops, of tables that the plan drops earlier. -/
theorem drops_before (planned : p.plan expected actual = .ok plan) {before after : List Step}
    (split : plan = before ++ .dropTable name :: after) :
    ∃ earlier later, p.unknownTables expected actual = earlier ++ name :: later ∧
      before = earlier.map .dropTable := by
  obtain ⟨steps, treated, rfl⟩ := plan_ok planned
  rcases append_split split with ⟨-, rest, drops⟩ | ⟨_, -, tail⟩
  · obtain ⟨earlier, others, unknown, rfl, same⟩ := List.map_eq_append_iff.mp drops
    obtain ⟨first, later, rfl, same, -⟩ := List.map_eq_cons_iff.mp same
    cases same
    exact ⟨earlier, later, unknown, rfl⟩
  · have among : .dropTable name ∈ (TableOrder.all expected actual).flatMap steps :=
      tail ▸ List.mem_append_right _ List.mem_cons_self
    obtain ⟨n, listed, drop⟩ := List.mem_flatMap.mp among
    exact absurd drop ((treated n listed).not_drop name)

/-- A dropped table that refers to another one is dropped before it. -/
theorem earlier_of_refers (ce : expected.Closed) (ae : expected.Acyclic) (aa : actual.Acyclic)
    {earlier later : List String}
    (unknown : p.unknownTables expected actual = earlier ++ name :: later) {other : String}
    (drop : other ∈ p.unknownTables expected actual) (refers : actual.Refers other name) :
    other ∈ earlier := by
  have here : name ∈ p.unknownTables expected actual :=
    unknown ▸ List.mem_append_right _ List.mem_cons_self
  have sooner := unknownTables_sorted ce ae aa drop here refers
  have once := unknown ▸ unknownTables_nodup p expected actual
  have absent : name ∉ earlier := fun h =>
    (List.nodup_append.mp once).2.2 name h name List.mem_cons_self rfl
  rw [unknown, List.idxOf_append_of_notMem absent, List.idxOf_cons_self] at sooner
  by_contra behind
  rw [List.idxOf_append_of_notMem behind] at sooner
  omega

/-- When a table is dropped, the tables that point at it are those that pointed at it all along and
stay: the plan changes them later, and no expected table points at it. -/
theorem pointers_at_drop (d : Dialect) (types : TypeMap) (options : PlannerOptions)
    (expected actual : Schema) (ce : expected.Closed) (ae : expected.Acyclic) (aa : actual.Acyclic)
    (plan : Plan) (planned : (Planner.of d types options).plan expected actual = .ok plan)
    (before after : List Step) (name : String)
    (split : plan = before ++ .dropTable name :: after) :
    ∃ c, Plan.run actual.table? before = some c ∧ c name = actual.table? name ∧
      (c name).isSome ∧
      ∀ other, (c.Refers other name ↔
          (expected.table? other).isSome ∧ actual.Refers other name) ∧
        ¬ expected.Refers other name := by
  obtain ⟨earlier, later, unknown, rfl⟩ := drops_before planned split
  have once := unknown ▸ unknownTables_nodup (.of d types options) expected actual
  obtain ⟨first, -, apart⟩ := List.nodup_append.mp once
  have dropped {n : String} (h : n ∈ earlier ++ name :: later) :=
    mem_unknownTables.mp (unknown ▸ h)
  have here := dropped (List.mem_append_right earlier List.mem_cons_self)
  have gone := Plan.run_drops first fun n hn => (dropped (List.mem_append_left _ hn)).2.2
  have stays : name ∉ earlier := fun h => apart name h name List.mem_cons_self rfl
  refine ⟨_, gone, if_neg stays, (if_neg stays).symm ▸ here.2.2, fun other => ⟨?_, fun refers => ?_⟩⟩
  · rw [Catalog.refers_without]
    refine ⟨fun ⟨left, refers⟩ => ⟨?_, refers⟩, fun ⟨known, refers⟩ => ⟨fun h => ?_, refers⟩⟩
    · rw [Option.isSome_iff_ne_none]
      intro unexpected
      obtain ⟨t, found, points⟩ := refers
      have drop : other ∈ (Planner.of d types options).unknownTables expected actual :=
        mem_unknownTables.mpr ⟨here.1, unexpected, found ▸ rfl⟩
      exact left (earlier_of_refers ce ae aa unknown drop ⟨t, found, points⟩)
    · rw [(dropped (List.mem_append_left _ h)).2.1] at known
      cases known
  · have known := ce other name refers
    rw [here.2.1] at known
    cases known

/-- Users who are in no team any more. -/
def teamless : Schema :=
  Schema.empty.add ⟨"users", [(Column.named "id" "BIGINT").asPrimaryKey]⟩

/-- Users in teams, and badges that teams have. -/
def teamed : Schema :=
  ((Schema.empty.add ⟨"teams", [(Column.named "id" "BIGINT").asPrimaryKey]⟩).add
    ⟨"users", [(Column.named "id" "BIGINT").asPrimaryKey,
      (Column.named "team_id" "BIGINT").referencing "teams" "id"]⟩).add
    ⟨"badges", [(Column.named "team_id" "BIGINT").referencing "teams" "id"]⟩

def teamlessSteps : Plan :=
  [.dropTable "badges", .dropTable "teams",
    .rebuildTable ⟨"users", [(Column.named "id" "BIGINT").asPrimaryKey]⟩
      [⟨"id", none, .existing⟩]]

theorem plan_teamless :
    (Planner.of .generic .generic .default).plan teamless teamed = .ok teamlessSteps := by
  have order : TableOrder.all teamless teamed = ["teams", "badges", "users"] := by
    decide +kernel
  rw [plan_of_order order]
  rfl

theorem acyclic_teamed : teamed.Acyclic :=
  Schema.acyclic_of_rank (fun name => if name = "teams" then 0 else 1) (by decide)

theorem pointers_at_drop_teams :
    teamless.Closed ∧ teamless.Acyclic ∧ teamed.Acyclic ∧
      (Planner.of .generic .generic .default).plan teamless teamed = .ok teamlessSteps ∧
      teamlessSteps = [.dropTable "badges"] ++ .dropTable "teams" :: teamlessSteps.drop 2 ∧
      ∃ c, Plan.run teamed.table? [.dropTable "badges"] = some c ∧ c "teams" = teamed.table? "teams" ∧
        (c "teams").isSome ∧
        ∀ other, (c.Refers other "teams" ↔
            (teamless.table? other).isSome ∧ teamed.Refers other "teams") ∧
          ¬ teamless.Refers other "teams" := by
  have ce : teamless.Closed := Schema.closed_of_entries (by decide)
  have ae : teamless.Acyclic := Schema.acyclic_of_rank (fun _ => 0) (by decide)
  exact ⟨ce, ae, acyclic_teamed, plan_teamless, rfl,
    pointers_at_drop .generic .generic .default teamless teamed ce ae acyclic_teamed teamlessSteps
      plan_teamless [.dropTable "badges"] (teamlessSteps.drop 2) "teams" rfl⟩

/-- The teams are dropped while users, who stay, still point at them. -/
theorem users_point_at_dropped_teams :
    teamless.Named ∧ teamed.Named ∧ teamless.Closed ∧ teamed.Closed ∧ teamless.Acyclic ∧
      teamed.Acyclic ∧
      (Planner.of .generic .generic .default).plan teamless teamed = .ok teamlessSteps ∧
      teamlessSteps = [.dropTable "badges"] ++ .dropTable "teams" :: teamlessSteps.drop 2 ∧
      ∃ c, Plan.run teamed.table? [.dropTable "badges"] = some c ∧ c.Refers "users" "teams" := by
  refine ⟨Schema.named_of_entries (by decide), Schema.named_of_entries (by decide),
    Schema.closed_of_entries (by decide), Schema.closed_of_entries (by decide),
    Schema.acyclic_of_rank (fun _ => 0) (by decide), acyclic_teamed, plan_teamless, rfl, _, rfl,
    ?_⟩
  exact ⟨⟨"users", [(Column.named "id" "BIGINT").asPrimaryKey,
    (Column.named "team_id" "BIGINT").referencing "teams" "id"]⟩, rfl, by decide⟩

end Planner

end EntityStore
