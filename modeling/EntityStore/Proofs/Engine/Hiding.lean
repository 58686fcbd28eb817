import EntityStore.Proofs.Engine.ReadBack
import EntityStore.Proofs.Text.Pattern

namespace EntityStore

namespace Text

/-- The text begins with another, in whatever case its letters are. -/
def Begins (front text : String) : Prop := front.toList <+: (foldCase text).toList

instance (front text : String) : Decidable (Begins front text) :=
  inferInstanceAs (Decidable (_ <+: _))

/-- A plain pattern stands for the texts that differ from it at most in the case of letters. -/
theorem matches_sameLetter {pattern text : List Char} (plain : Plain pattern) :
    Matches sameLetter pattern text ↔ text.map Char.toLower = pattern.map Char.toLower := by
  rw [matches_letters plain, eq_comm, ← List.forall₂_eq_eq_eq, List.forall₂_map_left_iff,
    List.forall₂_map_right_iff]
  simp only [sameLetter, beq_iff_eq]

/-- The rest of the text has one character at least, whichever it is. -/
theorem matches_front {front text : List Char} (plain : Plain front) :
    Matches sameLetter (front ++ ['_', '%']) text ↔
      front.map Char.toLower <+: text.map Char.toLower ∧ front.length < text.length := by
  rw [matches_append]
  constructor
  · rintro ⟨begin, rest, rfl, letters, more⟩
    have same := (matches_sameLetter plain).mp letters
    have length : begin.length = front.length := by
      simpa using congrArg List.length same
    obtain ⟨c, behind, rfl⟩ : ∃ c behind, rest = c :: behind := by
      cases more with
      | one d matched => exact ⟨d, _, rfl⟩
      | self _ underscore => exact absurd rfl underscore
    rw [List.map_append, same, List.length_append, List.length_cons]
    exact ⟨List.prefix_append _ _, by omega⟩
  · rintro ⟨begins, longer⟩
    have same : (text.take front.length).map Char.toLower = front.map Char.toLower := by
      rw [List.map_take, List.prefix_iff_eq_take.mp begins, List.length_map]
    obtain ⟨c, behind, rest⟩ : ∃ c behind, text.drop front.length = c :: behind := by
      refine List.exists_cons_of_ne_nil fun none => ?_
      rw [List.drop_eq_nil_iff] at none
      omega
    refine ⟨text.take front.length, c :: behind, ?_, (matches_sameLetter plain).mpr same,
      (matches_percent behind).one c⟩
    rw [← rest, List.take_append_drop]

end Text

namespace Engine

open Schema (ofEntities_ok ofEntities_there ofEntities_append)
open Sql (TableDef)
open Text (Begins sameIgnoringCase sameIgnoringCase_refl)

theorem reserved_iff {name : String} : Database.reserved name = true ↔ Begins "sqlite_" name :=
  List.isPrefixOf_iff_prefix

/-- The underscore of the pattern stands for any character. -/
theorem hidden_iff {name : String} :
    hidden name = true ↔ Begins "sqlite" name ∧ 6 < name.length := by
  have plain : Text.Plain "sqlite".toList := by decide
  have lower : "sqlite".toList.map Char.toLower = "sqlite".toList := by decide
  have folded : (Text.foldCase name).toList = name.toList.map Char.toLower := String.toList_ofList
  have pattern : hidden name = true ↔ "sqlite".toList.map Char.toLower <+:
      name.toList.map Char.toLower ∧ 6 < name.toList.length :=
    Text.like_iff.trans (Text.matches_front plain)
  rw [lower, ← folded, String.length_toList] at pattern
  exact pattern

/-- A database with the tables of entities, as they were asked for, and no others. -/
structure Stores (entities : List Entity) (db : Database) : Prop where
  tidy : Tidy db.definitions
  unreserved : ∀ d ∈ db.definitions, Database.reserved d.name = false
  asked : ∃ expected, Schema.ofEntities entities .sqlite = .ok expected ∧
    ∀ d, d ∈ db.definitions ↔
      ∃ t, expected.table? d.name = some t ∧ t.definition .sqlite d.name = d

namespace Stores

variable {entities more : List Entity} {db db' : Database}

theorem empty : Stores [] ⟨[]⟩ where
  tidy := ⟨.nil, List.forall_mem_nil _⟩
  unreserved := List.forall_mem_nil _
  asked := by
    refine ⟨.empty, rfl, fun d => ⟨fun there => (List.not_mem_nil there).elim, ?_⟩⟩
    rintro ⟨t, some, -⟩
    cases some

/-- There is a table for each entity. -/
theorem mem_names (stores : Stores entities db) {name : String} :
    name ∈ db.definitions.map (·.name) ↔ ∃ e ∈ entities, e.id.table = name := by
  obtain ⟨expected, made, each⟩ := stores.asked
  rw [List.mem_map]
  constructor
  · rintro ⟨d, there, rfl⟩
    obtain ⟨t, some, -⟩ := (each d).mp there
    obtain ⟨named, e, he, own⟩ := ofEntities_ok made some
    exact ⟨e, he, (Table.ofEntity_name own).symm.trans named⟩
  · rintro ⟨e, he, rfl⟩
    obtain ⟨t, some⟩ := ofEntities_there made he
    exact ⟨t.definition .sqlite e.id.table, (each _).mpr ⟨t, some, rfl⟩, rfl⟩

theorem expected_of_entities {expected : Schema}
    (made : Schema.ofEntities entities .sqlite = .ok expected) {name : String} {t : Table}
    (some : expected.table? name = some t) : t.name = name ∧ Expected t := by
  obtain ⟨named, e, -, own⟩ := ofEntities_ok made some
  exact ⟨named, expected_of_entity own⟩

/-- A creation adds the tables of its entities. -/
theorem create (stores : Stores entities db) {expected : Schema} {plan : Plan} {enforced : Bool}
    (made : Schema.ofEntities more .sqlite = .ok expected)
    (planned : (Planner.of .sqlite .sqlite .default).plan expected .empty = .ok plan)
    (ran : Ran enforced db plan db') : Stores (entities ++ more) db' := by
  obtain ⟨before, had, each⟩ := stores.asked
  have absent : ∀ name, Schema.empty.table? name = none := fun _ => rfl
  have creates : (Planner.of .sqlite .sqlite .default).plan expected .empty =
      .ok ((Planner.missing expected .empty).map .createTable) :=
    Planner.plan_of_settled (fun name there => by cases there)
      (fun name t current _ found => by cases found)
  obtain rfl := Except.ok.inj (creates.symm.trans planned)
  have tidy := ran.tidy stores.tidy (keeps_columns_plan rfl planned)
  have wanted : ∀ t ∈ Planner.missing expected .empty,
      expected.table? t.name = some t ∧ Expected t := by
    intro t there
    obtain ⟨name, some, -⟩ := Planner.mem_missing.mp there
    obtain ⟨rfl, own⟩ := expected_of_entities made some
    exact ⟨some, own⟩
  obtain ⟨definitions, free⟩ := ran_creates (fun t there => (wanted t there).2) ran
  obtain ⟨whole, joined, tables⟩ := ofEntities_append had made
  refine ⟨tidy, fun d there => ?_, whole, joined, fun d => ?_⟩
  · rw [definitions, List.mem_append, List.mem_map] at there
    rcases there with old | ⟨t, new, rfl⟩
    · exact stores.unreserved d old
    · exact (free t new).1
  · rw [definitions, List.mem_append, List.mem_map, tables]
    constructor
    · rintro (old | ⟨t, new, rfl⟩)
      · obtain ⟨t, some, same⟩ := (each d).mp old
        have other : expected.table? d.name = none := by
          refine Option.eq_none_iff_forall_not_mem.mpr fun u taken => ?_
          have there := Planner.mem_missing.mpr ⟨d.name, taken, absent d.name⟩
          have apart := (free u there).2 d old
          rw [(expected_of_entities made taken).1, sameIgnoringCase_refl] at apart
          cases apart
        exact ⟨t, by rw [other, Option.none_or, some], same⟩
      · have found : expected.table? t.name = some t := (wanted t new).1
        have named : (t.definition .sqlite t.name).name = t.name := rfl
        exact ⟨t, by rw [named, found, Option.some_or], rfl⟩
    · rintro ⟨t, found, same⟩
      cases taken : expected.table? d.name with
      | none =>
        rw [taken, Option.none_or] at found
        exact .inl ((each d).mpr ⟨t, found, same⟩)
      | some u =>
        rw [taken, Option.some_or] at found
        obtain rfl := Option.some.inj found
        have named := (expected_of_entities made taken).1
        exact .inr ⟨u, Planner.mem_missing.mpr ⟨d.name, taken, absent d.name⟩, named ▸ same⟩

/-- What is found of the tables leaves the plan to create those that are hidden. -/
theorem plan_found (stores : Stores entities db) {expected : Schema}
    (made : Schema.ofEntities entities .sqlite = .ok expected) :
    ∃ found, db.introspect = .ok found ∧
      (∀ name, name ∈ found.names ↔ (∃ e ∈ entities, e.id.table = name) ∧ hidden name = false) ∧
      (Planner.of .sqlite .sqlite .default).plan expected found =
        .ok ((Planner.missing expected found).map .createTable) ∧
      ∀ t, t ∈ Planner.missing expected found ↔
        expected.table? t.name = some t ∧ hidden t.name = true := by
  obtain ⟨expected', made', each⟩ := stores.asked
  obtain rfl := Except.ok.inj (made'.symm.trans made)
  obtain ⟨found, seen, tables⟩ := introspect_eq stores.tidy
  have asked {name : String} {current : Table} (there : found.table? name = some current) :
      hidden name = false ∧ ∃ t, expected'.table? name = some t ∧ t.Agrees current ∧
        (t.columns.map (·.name)).Nodup := by
    obtain ⟨d, member, shown, rfl, rfl⟩ := (tables name current).mp there
    obtain ⟨t, some, same⟩ := (each d).mp member
    obtain ⟨named, own⟩ := expected_of_entities made some
    have tidy := stores.tidy.each d member
    rw [← same, ← named] at tidy
    have agrees := agrees_created own tidy
    rw [named, same] at agrees
    have names := names_nodup tidy
    rw [Table.definition, List.map_map] at names
    exact ⟨shown, t, some, agrees, names⟩
  have listed (name : String) : (found.table? name).isSome ↔
      (∃ e ∈ entities, e.id.table = name) ∧ hidden name = false := by
    rw [← stores.mem_names, List.mem_map, Option.isSome_iff_exists]
    constructor
    · rintro ⟨current, there⟩
      obtain ⟨d, member, shown, rfl, -⟩ := (tables name current).mp there
      exact ⟨⟨d, member, rfl⟩, shown⟩
    · rintro ⟨⟨d, member, rfl⟩, shown⟩
      exact ⟨readTable d, (tables _ _).mpr ⟨d, member, shown, rfl, rfl⟩⟩
  refine ⟨found, seen, fun name => ?_, Planner.plan_of_settled (fun name there => ?_)
    (fun name t current some there => ?_), fun t => ?_⟩
  · rw [← listed]
    exact SortedMap.mem_keys_iff
  · obtain ⟨current, there⟩ := Option.isSome_iff_exists.mp there
    obtain ⟨-, t, some, -⟩ := asked there
    rw [some]
    rfl
  · obtain ⟨-, t', some', agrees, distinct⟩ := asked there
    obtain rfl := Option.some.inj (some.symm.trans some')
    exact Planner.tableSteps_of_agrees distinct agrees
  · rw [Planner.mem_missing]
    constructor
    · rintro ⟨name, some, absent⟩
      obtain ⟨rfl, e, he, own⟩ := ofEntities_ok made some
      refine ⟨some, Bool.of_not_eq_false fun shown => ?_⟩
      have there := (listed t.name).mpr ⟨⟨e, he, (Table.ofEntity_name own).symm⟩, shown⟩
      rw [absent] at there
      cases there
    · rintro ⟨some, covered⟩
      refine ⟨t.name, some, ?_⟩
      cases there : found.table? t.name with
      | none => rfl
      | some current =>
        rw [(asked there).1] at covered
        cases covered

/-- A table that is there is not created again. -/
theorem not_ran (stores : Stores entities db) {expected : Schema}
    (made : Schema.ofEntities entities .sqlite = .ok expected) {ts : List Table}
    (asked : ∀ t ∈ ts, expected.table? t.name = some t) (nonempty : ts ≠ []) {enforced : Bool} :
    ¬ Ran enforced db (ts.map .createTable) db' := by
  intro ran
  obtain ⟨t, rest, rfl⟩ := List.exists_cons_of_ne_nil nonempty
  have wanted : ∀ u ∈ t :: rest, Expected u := fun u hu =>
    (expected_of_entities made (asked u hu)).2
  obtain ⟨-, free⟩ := ran_creates wanted ran
  obtain ⟨expected', made', each⟩ := stores.asked
  obtain rfl := Except.ok.inj (made'.symm.trans made)
  have there := (each (t.definition .sqlite t.name)).mpr ⟨t, asked t List.mem_cons_self, rfl⟩
  have apart := (free t List.mem_cons_self).2 _ there
  rw [show (t.definition .sqlite t.name).name = t.name from rfl, sameIgnoringCase_refl] at apart
  cases apart

end Stores

namespace Store

variable {s : Store} {entities : List Entity} {w : World Connection}

/-- The tables of a database are those of entities that it was created for: schemas are created one
after another, and whatever else happens leaves the tables as they were declared. -/
inductive Holding (s : Store) : List Entity → World Connection → Prop
  | opened (enforced writable : Bool) (journal : List Event) :
      Holding s [] ⟨.fresh enforced writable, journal⟩
  | created {entities : List Entity} {w w' : World Connection} (more : List Entity) (plan : Plan) :
      Holding s entities w → (s.create more).on w = (.ok plan, w') → Holding s (entities ++ more) w'
  | kept {entities : List Entity} {w w' : World Connection} : Holding s entities w →
      w'.state.database.definitions = w.state.database.definitions → Holding s entities w'

theorem Holding.stores (plain : s.repository = .of .sqlite) (holding : s.Holding entities w) :
    Stores entities w.state.database := by
  induction holding with
  | opened enforced writable journal => exact .empty
  | created more plan _ created ih =>
    obtain ⟨planned, applied⟩ := create_ok created
    obtain ⟨expected, wanted, planned⟩ := plan_ok planned
    rw [plain] at wanted planned
    exact ih.create wanted planned (.of_applied plain applied)
  | kept _ same ih => exact ⟨same ▸ ih.tidy, same ▸ ih.unreserved, same ▸ ih.asked⟩

/-- Tables that schemas were created with are found again, but for those whose names have `sqlite`
in front, in any case, and any one character behind it, though only an underscore there reserves a
name. The next plan for the same entities creates exactly the tables that are not found. If there
are none, an upgrade that succeeds has nothing to do; if there are some, each upgrade fails. -/
theorem hidden_tables_are_created_again (s : Store) (plain : s.repository = .of .sqlite)
    (entities : List Entity) (w : World Connection) (holding : s.Holding entities w) :
    (∀ e ∈ entities, ¬ Begins "sqlite_" e.id.table) ∧
    (∀ name, name ∈ w.state.database.definitions.map (·.name) ↔ ∃ e ∈ entities, e.id.table = name) ∧
    ∃ expected found created, Schema.ofEntities entities .sqlite = .ok expected ∧
      w.state.database.introspect = .ok found ∧
      (∀ name, name ∈ found.names ↔ (∃ e ∈ entities, e.id.table = name) ∧
        ¬ (Begins "sqlite" name ∧ 6 < name.length)) ∧
      s.repository.plan entities found = .ok (created.map .createTable) ∧
      (∀ t, t ∈ created ↔
        expected.table? t.name = some t ∧ Begins "sqlite" t.name ∧ 6 < t.name.length) ∧
      (created = [] → ∀ plan w', (s.upgrade entities).on w = (.ok plan, w') →
        plan = [] ∧ w'.state.database = w.state.database) ∧
      (created ≠ [] → ∃ error w', (s.upgrade entities).on w = (.error error, w') ∧
        w'.state.database = w.state.database) := by
  have stores := holding.stores plain
  obtain ⟨expected, made, -⟩ := stores.asked
  obtain ⟨found, seen, names, planned, missing⟩ := stores.plan_found made
  have whole : s.repository.plan entities found =
      .ok ((Planner.missing expected found).map .createTable) := by
    rw [plain]
    exact Except.bind_eq_ok.mpr ⟨expected, made, planned⟩
  have ran {plan : Plan} {w' : World Connection} (h : (s.upgrade entities).on w = (.ok plan, w')) :
      plan = (Planner.missing expected found).map .createTable ∧
        ∃ enforced, Ran enforced w.state.database plan w'.state.database := by
    obtain ⟨actual, seen', planned', applied, -⟩ := upgrade_ok h
    obtain rfl := Except.ok.inj (seen'.symm.trans seen)
    exact ⟨Except.ok.inj (planned'.symm.trans whole), _, .of_applied plain applied⟩
  simp only [← hidden_iff, ← reserved_iff, Bool.not_eq_true]
  refine ⟨fun e he => ?_, fun name => stores.mem_names, expected, found, _, made, seen, names,
    whole, missing, fun none plan w' h => ?_, fun some => ?_⟩
  · obtain ⟨d, there, same⟩ := List.mem_map.mp (stores.mem_names.mpr ⟨e, he, rfl⟩)
    exact same ▸ stores.unreserved d there
  · obtain ⟨rfl, enforced, nothing⟩ := ran h
    rw [none] at nothing ⊢
    exact ⟨rfl, nothing.nil⟩
  · cases result : (s.upgrade entities).on w with
    | mk outcome w' =>
      cases outcome with
      | error error => exact ⟨error, w', rfl, upgrade_error result⟩
      | ok plan =>
        obtain ⟨rfl, enforced, again⟩ := ran result
        exact absurd again (stores.not_ran made (fun t there => ((missing t).mp there).1) some)

/-- A log, whose table has no reserved name. -/
def logs : Entity :=
  ⟨⟨"Log", "sqlitelogs"⟩, [(Field.named "id" .integer).asPrimaryKey, .named "text" .text]⟩

def logsPlan : Plan :=
  [.createTable ⟨"sqlitelogs", [((Column.named "id" "INTEGER").typed .integer).asPrimaryKey,
    ((Column.named "text" "TEXT").typed .text).notNull]⟩]

/-- The world once there are builds and logs. -/
def logging : World Connection := ((wrap.create [logs]).on started).2

theorem hidden_tables_are_created_again_logs :
    wrap.repository = .of .sqlite ∧ wrap.Holding [builds, logs] logging ∧
      "sqlitelogs" ∈ logging.state.database.definitions.map (·.name) ∧
      ∃ found, logging.state.database.introspect = .ok found ∧ "builds" ∈ found.names ∧
        "sqlitelogs" ∉ found.names ∧
        ∃ error w', (wrap.upgrade [builds, logs]).on logging = (.error error, w') ∧
          w'.state.database = logging.state.database := by
  have built : (wrap.create [builds]).on opened = (.ok startedPlan, started) :=
    Task.ok_of_toOption (by decide +kernel)
  have logged : (wrap.create [logs]).on started = (.ok logsPlan, logging) :=
    Task.ok_of_toOption (by decide +kernel)
  have holding : wrap.Holding [builds, logs] logging :=
    .created [logs] _ (.created [builds] _ (.opened true true []) built) logged
  obtain ⟨-, stored, expected, found, created, made, seen, names, -, again, -, fails⟩ :=
    hidden_tables_are_created_again wrap rfl [builds, logs] logging holding
  have begins : Begins "sqlite" "sqlitelogs" ∧ 6 < "sqlitelogs".length := by decide +kernel
  refine ⟨rfl, holding, (stored _).mpr ⟨logs, by simp, rfl⟩, found, seen,
    (names _).mpr ⟨⟨builds, by simp, rfl⟩, by decide +kernel⟩,
    fun there => ((names _).mp there).2 begins, fails fun none => ?_⟩
  obtain ⟨t, some⟩ := ofEntities_there made (e := logs) (by simp)
  have named := (ofEntities_ok made some).1
  have there := (again t).mpr ⟨named ▸ some, named ▸ begins⟩
  rw [none] at there
  cases there

/-- What is said about a failure, if there is one. -/
def complaint (outcome : Except EngineError Plan) : Option String :=
  match outcome with
  | .error error => some error.message
  | .ok _ => none

/-- A table of logs is created, is not found, and makes the upgrade fail that should have nothing to
do. -/
theorem log_table_is_not_found :
    ¬ Begins "sqlite_" "sqlitelogs" ∧
    ∃ w found, (wrap.create [logs]).on opened = (.ok logsPlan, w) ∧
      w.state.database.definitions.map (·.name) = ["sqlitelogs"] ∧
      w.state.database.introspect = .ok found ∧ found.names = [] ∧
      complaint ((wrap.upgrade [logs]).on w).1 =
        some ("executor error: Database error: error returned from database: " ++
          "(code: 1) table \"sqlitelogs\" already exists") := by
  have created : (wrap.create [logs]).on opened = (.ok logsPlan, _) :=
    Task.ok_of_toOption (by decide +kernel)
  have ran : (fun w : World Connection => (w.state.database.definitions.map (·.name),
        w.state.database.introspect.map (·.names), complaint ((wrap.upgrade [logs]).on w).1))
      ((wrap.create [logs]).on opened).2 =
      (["sqlitelogs"], .ok [],
        some ("executor error: Database error: error returned from database: " ++
          "(code: 1) table \"sqlitelogs\" already exists")) := by
    decide +kernel
  obtain ⟨stored, rest⟩ := Prod.mk.inj ran
  obtain ⟨read, failed⟩ := Prod.mk.inj rest
  obtain ⟨found, seen, names⟩ := Except.map_eq_ok.mp read
  exact ⟨by decide +kernel, _, found, created, stored, seen, names, failed⟩

end Store

end Engine

end EntityStore
