import EntityStore.Proofs.Engine.Reshaping
import EntityStore.Proofs.Migration.Difference

namespace EntityStore.Engine

open Schema (ofEntities_ok)
open Sql (TableDef)

namespace Store

variable {s : Store} {entities : List Entity} {plan : Plan} {w w' : World Connection}

/-- What becomes of a connection in the hands of a store: schemas are created and upgraded, and
statements run that drop no column. -/
inductive Reached (s : Store) : World Connection → Prop
  | opened (enforced writable : Bool) (journal : List Event) :
      Reached s ⟨.fresh enforced writable, journal⟩
  | created {w w' : World Connection} (entities : List Entity) (plan : Plan) :
      Reached s w → (s.create entities).on w = (.ok plan, w') → Reached s w'
  | upgraded {w w' : World Connection} (entities : List Entity) (plan : Plan) :
      Reached s w → (s.upgrade entities).on w = (.ok plan, w') → Reached s w'
  | executed {w w' : World Connection} (statement : Statement) (a : Outcome × List String) :
      Reached s w → statement.command.Plain →
      (Connection.execute s.repository.types statement).on w = (.ok a, w') → Reached s w'
  /-- Whatever leaves the tables and rows as they were, failures among it. -/
  | kept {w w' : World Connection} :
      Reached s w → w'.state.database = w.state.database → Reached s w'

theorem plan_ok {actual : Schema} (h : s.repository.plan entities actual = .ok plan) :
    ∃ expected, s.repository.expected entities = .ok expected ∧
      (Planner.of s.repository.dialect s.repository.types s.repository.options).plan expected
        actual = .ok plan :=
  Except.bind_eq_ok.mp h

/-- A change of the schema that succeeds ran the steps of a plan for what was found. -/
theorem ran_of_change (plain : s.repository = .of .sqlite)
    (tidy : Tidy w.state.database.definitions)
    (h : (s.create entities).on w = (.ok plan, w') ∨ (s.upgrade entities).on w = (.ok plan, w')) :
    ∃ expected actual enforced, Schema.ofEntities entities .sqlite = .ok expected ∧
      (Planner.of .sqlite .sqlite .default).plan expected actual = .ok plan ∧
      (∀ name current, actual.table? name = some current →
        ∃ d ∈ w.state.database.definitions, d.name = name ∧ readTable d = current) ∧
      Ran enforced w.state.database plan w'.state.database := by
  rcases h with created | upgraded
  · obtain ⟨planned, applied⟩ := create_ok created
    obtain ⟨expected, wanted, planned⟩ := plan_ok planned
    rw [plain] at wanted planned
    refine ⟨expected, .empty, _, wanted, planned, fun name current found => ?_,
      .of_applied plain applied⟩
    cases found
  · obtain ⟨actual, found, planned, applied, -⟩ := upgrade_ok upgraded
    obtain ⟨expected, wanted, planned⟩ := plan_ok planned
    rw [plain] at wanted planned
    obtain ⟨schema, seen, tables⟩ := introspect_eq tidy
    rw [found] at seen
    cases seen
    refine ⟨expected, actual, _, wanted, planned, fun name current there => ?_,
      .of_applied plain applied⟩
    obtain ⟨d, hd, -, named, read⟩ := (tables name current).mp there
    exact ⟨d, hd, named, read⟩

theorem tidy_of_change (plain : s.repository = .of .sqlite)
    (tidy : Tidy w.state.database.definitions)
    (h : (s.create entities).on w = (.ok plan, w') ∨ (s.upgrade entities).on w = (.ok plan, w')) :
    Tidy w'.state.database.definitions := by
  obtain ⟨expected, actual, enforced, -, planned, -, ran⟩ := ran_of_change plain tidy h
  exact ran.tidy tidy (keeps_columns_plan rfl planned)

/-- Definitions are tidy whatever a store was used for. -/
theorem Reached.tidy (plain : s.repository = .of .sqlite) (reached : Reached s w) :
    Tidy w.state.database.definitions := by
  induction reached with
  | opened enforced writable journal => exact ⟨.nil, List.forall_mem_nil _⟩
  | created entities plan _ created ih => exact tidy_of_change plain ih (.inl created)
  | upgraded entities plan _ upgraded ih => exact tidy_of_change plain ih (.inr upgraded)
  | executed statement a _ keeps ran ih =>
    obtain ⟨command, outcome, encoded, ran, -⟩ := Connection.execute_ok ran
    exact Database.tidy_run ih (keeps.mapM encoded) ran
  | kept _ same ih => exact same ▸ ih

end Store

/-- Introspection of a table gives back what was asked for, in whatever order: the columns with
their types, their keys and what they point at. The planner leaves it alone. -/
def ReadsBack (db : Database) (t : Table) : Prop :=
  ∃ stored t', db.table? t.name = some stored ∧ db.describe stored.definition = .ok t' ∧
    t'.name = t.name ∧ (t'.columns.map Column.bare).Perm (t.columns.map Column.bare) ∧
    (Planner.of .sqlite .sqlite .default).tableSteps t t' = .ok []

theorem bare_perm {t : Table} {d : TableDef} (expected : Expected t)
    (distinct : (t.columns.map (·.name)).Nodup) (agrees : t.Agrees (readTable d)) :
    ((readTable d).columns.map Column.bare).Perm (t.columns.map Column.bare) := by
  have nodup {columns : List Column} (names : (columns.map (·.name)).Nodup) :
      (columns.map Column.bare).Nodup := by
    refine List.Nodup.of_map Column.name ?_
    rwa [List.map_map]
  have bare {c c' : Column} (hc : c ∈ t.columns) (hc' : c' ∈ (readTable d).columns)
      (same : c.Agrees c') : c'.bare = c.bare := by
    have type := sqlType_of_agrees expected hc hc' same
    simp only [Column.bare, same.name, type, same.nullable, same.primaryKey, same.references]
  refine (List.perm_ext_iff_of_nodup (nodup agrees.distinct) (nodup distinct)).mpr fun b => ?_
  constructor
  · intro h
    obtain ⟨c', hc', rfl⟩ := List.mem_map.mp h
    obtain ⟨c, hc, same⟩ := agrees.covers c' hc'
    exact List.mem_map.mpr ⟨c, hc, (bare hc hc' same).symm⟩
  · intro h
    obtain ⟨c, hc, rfl⟩ := List.mem_map.mp h
    obtain ⟨c', hc', same⟩ := agrees.covered c hc
    exact List.mem_map.mpr ⟨c', hc', bare hc hc' same⟩

theorem reads_back_of_present {db : Database} {t : Table} (tidy : Tidy db.definitions)
    (expected : Expected t) (distinct : (t.columns.map (·.name)).Nodup)
    (present : Present db.definitions t) : ReadsBack db t := by
  obtain ⟨d, there, named, agrees⟩ := present
  obtain ⟨stored, found, rfl⟩ := Database.table?_of_definition tidy there
  rw [named] at found
  exact ⟨stored, readTable stored.definition, found, describe_eq db (tidy.each _ there), named,
    bare_perm expected distinct agrees, Planner.tableSteps_of_agrees distinct agrees⟩

namespace Store

/-- After a creation or an upgrade each expected table is read as it was asked for, and there is
nothing to do about it, as long as no reference names a table that a rebuild fills in between. A
table whose name the catalog hides is not found, so its steps are left out. -/
theorem schema_reads_back {s : Store} (plain : s.repository = .of .sqlite) {w w' : World Connection}
    (reached : Reached s w) {entities : List Entity}
    (distinct : ∀ e ∈ entities, (e.fields.map (·.column)).Nodup) {plan : Plan}
    (changed : (s.create entities).on w = (.ok plan, w') ∨
      (s.upgrade entities).on w = (.ok plan, w')) :
    ∃ expected found, Schema.ofEntities entities .sqlite = .ok expected ∧
      w'.state.database.introspect = .ok found ∧
      ((∀ name t, expected.table? name = some t → Clear plan t) →
        ∀ name t, expected.table? name = some t → t.name = name ∧
          ReadsBack w'.state.database t ∧ (hidden name = false →
            (Planner.of .sqlite .sqlite .default).steps expected found name = .ok [])) := by
  have tidy := reached.tidy plain
  have tidy' := tidy_of_change plain tidy changed
  obtain ⟨expected, actual, enforced, asked, planned, read, ran⟩ := ran_of_change plain tidy changed
  have wanted := wanted_of_entities distinct asked
  obtain ⟨found, seen, tables⟩ := introspect_eq tidy'
  refine ⟨expected, found, asked, seen, fun clear name t some => ?_⟩
  have named := wanted.named name t some
  have present := ran_plan wanted rfl planned tidy read clear ran name t some
  refine ⟨named, reads_back_of_present tidy' (wanted.each name t some) (wanted.distinct name t some)
    present, fun shown => ?_⟩
  obtain ⟨d, there, same, agrees⟩ := present
  have own : d.name = name := same.trans named
  have listed := (tables name (readTable d)).mpr ⟨d, there, own ▸ shown, own, rfl⟩
  simp only [Planner.steps, some, listed]
  exact Planner.tableSteps_of_agrees (wanted.distinct name t some) agrees

/-- Builds by number alone. -/
def builds : Entity := ⟨⟨"Build", "builds"⟩, [(Field.named "id" .integer).asPrimaryKey]⟩

/-- Builds with a note, and the jobs that they consist of. -/
def notedBuilds : List Entity :=
  [⟨⟨"Build", "builds"⟩, [(Field.named "id" .integer).asPrimaryKey, .named "note" .text]⟩,
    ⟨⟨"Job", "jobs"⟩, [((Field.named "build" .integer).asPrimaryKey).referencing builds.shape,
      (Field.named "number" .integer).asPrimaryKey, (Field.named "state" .text).asNullable]⟩]

def opened : World Connection := ⟨.fresh true true, []⟩

def startedPlan : Plan :=
  [.createTable ⟨"builds", [((Column.named "id" "INTEGER").typed .integer).asPrimaryKey]⟩]

/-- The world once there are builds. -/
def started : World Connection := ((wrap.create [builds]).on opened).2

def notedPlan : Plan :=
  [.rebuildTable ⟨"builds", [((Column.named "id" "INTEGER").typed .integer).asPrimaryKey,
        ((Column.named "note" "TEXT").typed .text).notNull]⟩
      [⟨"id", some .integer, .existing⟩, ⟨"note", some .text, .constant (.text "")⟩],
    .createTable ⟨"jobs",
      [(((Column.named "build" "INTEGER").typed .integer).asPrimaryKey).referencing "builds" "id",
        ((Column.named "number" "INTEGER").typed .integer).asPrimaryKey,
        (Column.named "state" "TEXT").typed .text]⟩]

theorem schema_reads_back_noted :
    ∃ w' expected found, (wrap.upgrade notedBuilds).on started = (.ok notedPlan, w') ∧
      Schema.ofEntities notedBuilds .sqlite = .ok expected ∧
      w'.state.database.introspect = .ok found ∧
      ∀ name t, expected.table? name = some t → t.name = name ∧
        ReadsBack w'.state.database t ∧ (hidden name = false →
          (Planner.of .sqlite .sqlite .default).steps expected found name = .ok []) := by
  have created : (wrap.create [builds]).on opened = (.ok startedPlan, started) :=
    Task.ok_of_toOption (by decide +kernel)
  have upgraded : (wrap.upgrade notedBuilds).on started = (.ok notedPlan, _) :=
    Task.ok_of_toOption (by decide +kernel)
  have reached : wrap.Reached started := .created [builds] _ (.opened true true []) created
  have distinct : ∀ e ∈ notedBuilds, (e.fields.map (·.column)).Nodup := by decide
  obtain ⟨expected, found, asked, seen, reads⟩ :=
    schema_reads_back rfl reached distinct (.inr upgraded)
  refine ⟨_, expected, found, upgraded, asked, seen, reads fun name t some => ?_⟩
  obtain ⟨-, e, he, made⟩ := ofEntities_ok asked some
  intro u copies rebuilds
  have one : scratch u = "builds__rebuild" := by
    rcases List.mem_pair.mp rebuilds with same | same <;> cases same
    rfl
  rw [one]
  rcases List.mem_pair.mp he with rfl | rfl <;> cases made <;> decide +kernel

/-- Builds that may come from a rebuild, and rebuilds. -/
def rebuiltBuilds : List Entity :=
  [⟨⟨"Build", "builds"⟩, [(Field.named "id" .integer).asPrimaryKey, .named "note" .text,
      ((Field.named "rebuild" .integer).asNullable).referencing
        ⟨⟨"Rebuild", "builds__rebuild"⟩, [(Field.named "id" .integer).asPrimaryKey.toAttribute]⟩]⟩,
    ⟨⟨"Rebuild", "builds__rebuild"⟩, [(Field.named "id" .integer).asPrimaryKey,
      ((Field.named "build" .integer).asNullable).referencing builds.shape]⟩]

/-- The table of builds as it is asked for. -/
def rebuiltTable : Table :=
  ⟨"builds", [((Column.named "id" "INTEGER").typed .integer).asPrimaryKey,
    ((Column.named "note" "TEXT").typed .text).notNull,
    ((Column.named "rebuild" "INTEGER").typed .integer).referencing "builds__rebuild" "id"]⟩

def rebuiltPlan : Plan :=
  [.rebuildTable rebuiltTable
      [⟨"id", some .integer, .existing⟩, ⟨"note", some .text, .constant (.text "")⟩],
    .createTable ⟨"builds__rebuild", [((Column.named "id" "INTEGER").typed .integer).asPrimaryKey,
      ((Column.named "build" "INTEGER").typed .integer).referencing "builds" "id"]⟩]

/-- The table of builds as the catalog has it then. -/
def foundTable : Table :=
  ⟨"builds", [(Column.named "id" "INTEGER").asPrimaryKey, (Column.named "note" "TEXT").notNull,
    (Column.named "rebuild" "INTEGER").referencing "builds" "id"]⟩

/-- A reference to the table that a rebuild fills in between becomes one to the rebuilt table. -/
theorem rebuild_takes_reference_along :
    ∃ expected w w' stored, (wrap.create [builds]).on opened = (.ok startedPlan, w) ∧
      (wrap.upgrade rebuiltBuilds).on w = (.ok rebuiltPlan, w') ∧
      Schema.ofEntities rebuiltBuilds .sqlite = .ok expected ∧
      expected.table? "builds" = some rebuiltTable ∧
      w'.state.database.table? "builds" = some stored ∧
      w'.state.database.describe stored.definition = .ok foundTable ∧
      ¬ReadsBack w'.state.database rebuiltTable := by
  have created : (wrap.create [builds]).on opened = (.ok startedPlan, started) :=
    Task.ok_of_toOption (by decide +kernel)
  have ran : (fun x : Except EngineError Plan × World Connection =>
      (x.1.toOption, (x.2.state.database.table? "builds").map fun stored =>
        x.2.state.database.describe stored.definition)) ((wrap.upgrade rebuiltBuilds).on started) =
      (some rebuiltPlan, some (.ok foundTable)) := by
    decide +kernel
  obtain ⟨upgraded, described⟩ := Prod.mk.inj ran
  obtain ⟨stored, there, read⟩ := Option.map_eq_some_iff.mp described
  refine ⟨_, started, _, stored, created, Task.ok_of_toOption upgraded, rfl, by decide +kernel, there, read, ?_⟩
  rintro ⟨stored', t', there', read', -, same, -⟩
  obtain rfl := Option.some.inj (there.symm.trans there')
  obtain rfl := Except.ok.inj (read.symm.trans read')
  exact absurd same (by decide +kernel)

end Store

end EntityStore.Engine
