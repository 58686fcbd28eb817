import EntityStore.Proofs.Engine.RoundTrip
import EntityStore.Proofs.Engine.Upgrade
import EntityStore.Proofs.Migration.Rebuild

namespace EntityStore.Engine

open Planner (Treated added dropped)
open Sql (Command TableDef)
open Text (sameIgnoringCase sameIgnoringCase_comm sameIgnoringCase_congr sameIgnoringCase_refl)

/-- The statements of steps ran, each after the one before it. -/
def Ran (enforced : Bool) (db : Database) (steps : List Step) (db' : Database) : Prop :=
  ∃ commands cells, steps.mapM (Step.commands .sqlite) = .ok commands ∧
    commands.flatten.mapM (Command.mapM (Connection.stored .sqlite)) = .ok cells ∧
    db.runAll enforced cells = .ok db'

namespace Ran

variable {enforced : Bool} {db db' : Database} {steps more : List Step}

theorem of_applied {s : Store} (plain : s.repository = .of .sqlite) {plan : Plan}
    {w w' : World Connection} (h : s.Applied enforced plan w w') :
    Ran enforced w.state.database plan w'.state.database := by
  obtain ⟨statements, rendered, cells, -, encoded, ran, -, -⟩ := h
  rw [plain] at rendered encoded
  obtain ⟨commands, written, rfl⟩ := Except.map_eq_ok.mp rendered
  rw [List.mapM_map] at encoded
  exact ⟨commands, cells, written, encoded, ran⟩

theorem nil (h : Ran enforced db [] db') : db' = db := by
  obtain ⟨commands, cells, written, encoded, ran⟩ := h
  cases written
  cases encoded
  cases ran
  rfl

theorem append (h : Ran enforced db (steps ++ more) db') :
    ∃ mid, Ran enforced db steps mid ∧ Ran enforced mid more db' := by
  obtain ⟨commands, cells, written, encoded, ran⟩ := h
  rw [List.mapM_append] at written
  obtain ⟨first, written₁, written⟩ := Except.bind_eq_ok.mp written
  obtain ⟨second, written₂, h⟩ := Except.bind_eq_ok.mp written
  cases h
  rw [List.flatten_append, List.mapM_append] at encoded
  obtain ⟨cells₁, encoded₁, encoded⟩ := Except.bind_eq_ok.mp encoded
  obtain ⟨cells₂, encoded₂, h⟩ := Except.bind_eq_ok.mp encoded
  cases h
  obtain ⟨mid, ran₁, ran₂⟩ := Database.runAll_append_ok ran
  exact ⟨mid, ⟨first, cells₁, written₁, encoded₁, ran₁⟩, second, cells₂, written₂, encoded₂, ran₂⟩

theorem cons {step : Step} (h : Ran enforced db (step :: more) db') :
    ∃ mid, Ran enforced db [step] mid ∧ Ran enforced mid more db' := by
  have whole : Ran enforced db ([step] ++ more) db' := h
  exact whole.append

theorem single {step : Step} (h : Ran enforced db [step] db') :
    ∃ commands cells, step.commands .sqlite = .ok commands ∧
      commands.mapM (Command.mapM (Connection.stored .sqlite)) = .ok cells ∧
      db.runAll enforced cells = .ok db' := by
  obtain ⟨all, cells, written, encoded, ran⟩ := h
  rw [List.mapM_cons, List.mapM_nil] at written
  obtain ⟨commands, own, h⟩ := Except.bind_eq_ok.mp written
  cases h
  rw [List.flatten_singleton] at encoded
  exact ⟨commands, cells, own, encoded, ran⟩

theorem linked_columns (t : Table) (name : String) :
    ∀ c ∈ (t.definition .sqlite name).columns, c.Linked := by
  intro c hc
  obtain ⟨c', -, rfl⟩ := List.mem_map.mp hc
  exact linked_definition c' _

theorem plain_of_step {step : Step} {commands : List (Command Param)}
    (keeps : ∀ table column, step ≠ .dropColumn table column)
    (written : step.commands .sqlite = .ok commands) : ∀ command ∈ commands, command.Plain := by
  cases step with
  | createTable t =>
    obtain ⟨command, made, rfl⟩ := Except.map_eq_ok.mp written
    cases Table.create_ok made
    exact List.forall_mem_singleton.mpr (linked_columns t t.name)
  | dropTable name =>
    cases written
    exact List.forall_mem_singleton.mpr trivial
  | addColumn name c =>
    cases written
    exact List.forall_mem_singleton.mpr (linked_definition c false)
  | dropColumn name column => exact absurd rfl (keeps name column)
  | rebuildTable t copies =>
    obtain ⟨fills, -, rfl⟩ := Step.rebuild_ok written
    refine List.forall_mem_cons.mpr ⟨linked_columns t _, fun command hc => ?_⟩
    rcases List.mem_append.mp hc with copy | swap
    · unfold Step.copyCommand at copy
      split at copy
      · cases copy
      · cases List.mem_singleton.mp copy
        trivial
    · rcases List.mem_pair.mp swap with rfl | rfl <;> trivial

/-- Steps that drop no column keep definitions tidy. -/
theorem tidy (h : Ran enforced db steps db') (start : Tidy db.definitions)
    (keeps : ∀ table column, .dropColumn table column ∉ steps) : Tidy db'.definitions := by
  obtain ⟨commands, cells, written, encoded, ran⟩ := h
  refine Database.tidy_runAll start (fun cell hcell => ?_) ran
  obtain ⟨command, hc, encoded⟩ := Except.mapM_mem encoded hcell
  obtain ⟨own, member, hc⟩ := List.mem_flatten.mp hc
  obtain ⟨step, hstep, written⟩ := Except.mapM_mem written member
  refine Command.Plain.mapM (plain_of_step (fun table column same => ?_) written command hc) encoded
  exact keeps table column (same ▸ hstep)

end Ran

theorem run_single {enforced : Bool} {db db' : Database} {command : Command Cell}
    (h : db.runAll enforced [command] = .ok db') :
    ∃ outcome, db.run enforced command = .ok (db', outcome) := by
  obtain ⟨next, outcome, ran, h⟩ := Database.runAll_cons_ok h
  cases h
  exact ⟨outcome, ran⟩

variable {enforced : Bool} {db db' : Database}

theorem ran_drop {name : String} (h : Ran enforced db [.dropTable name] db') :
    db'.definitions = db.definitions.filter fun e => !sameIgnoringCase e.name name := by
  obtain ⟨commands, cells, written, encoded, ran⟩ := h.single
  cases written
  cases encoded
  obtain ⟨outcome, ran⟩ := run_single ran
  exact Database.definitions_drop ran

/-- Tables are dropped one after another. -/
theorem ran_drops {names : List String} (h : Ran enforced db (names.map .dropTable) db') :
    db'.definitions = db.definitions.filter fun e => names.all fun name =>
      !sameIgnoringCase e.name name := by
  induction names generalizing db with
  | nil =>
    rw [h.nil]
    exact (List.filter_true _).symm
  | cons name names ih =>
    obtain ⟨mid, first, rest⟩ := h.cons
    rw [ih rest, ran_drop first, List.filter_filter]
    exact List.filter_congr fun e _ => Bool.and_comm _ _

open Ran (linked_columns)

variable {t : Table} {d : TableDef} {name : String}

/-- A table that is created is there as it was declared, and nothing of its name was there. -/
theorem ran_create (expected : Expected t)
    (h : Ran enforced db [.createTable t] db') :
    db'.definitions = db.definitions ++ [t.definition .sqlite t.name] ∧
      (t.definition .sqlite t.name).Tidy ∧ Database.reserved t.name = false ∧
      ∀ e ∈ db.definitions, sameIgnoringCase e.name t.name = false := by
  obtain ⟨commands, cells, written, encoded, ran⟩ := h.single
  obtain ⟨command, made, rfl⟩ := Except.map_eq_ok.mp written
  cases Table.create_ok made
  cases encoded
  obtain ⟨outcome, ran⟩ := run_single ran
  have free := Database.unreserved_of_run ran
  obtain ⟨definitions, new, fresh⟩ := Database.definitions_create (linked_columns t t.name) ran
  rw [kept_definition expected] at definitions new
  exact ⟨definitions, new, free, fresh⟩

/-- Tables are created one after another. -/
theorem ran_creates {ts : List Table} (each : ∀ t ∈ ts, Expected t)
    (h : Ran enforced db (ts.map .createTable) db') :
    db'.definitions = db.definitions ++ ts.map (fun t => t.definition .sqlite t.name) ∧
      ∀ t ∈ ts, Database.reserved t.name = false ∧
        ∀ e ∈ db.definitions, sameIgnoringCase e.name t.name = false := by
  induction ts generalizing db with
  | nil =>
    rw [h.nil]
    exact ⟨(List.append_nil _).symm, List.forall_mem_nil _⟩
  | cons t ts ih =>
    obtain ⟨own, others⟩ := List.forall_mem_cons.mp each
    obtain ⟨mid, first, rest⟩ := h.cons
    obtain ⟨definitions, -, free, fresh⟩ := ran_create own first
    obtain ⟨whole, later⟩ := ih others rest
    refine ⟨?_, List.forall_mem_cons.mpr ⟨⟨free, fresh⟩, fun u hu => ⟨(later u hu).1, ?_⟩⟩⟩
    · rw [whole, definitions, List.append_assoc, List.map_cons, List.singleton_append]
    · exact fun e he => (later u hu).2 e (definitions ▸ List.mem_append_left _ he)

theorem ran_add {c : Column} (tidy : Tidy db.definitions) (there : d ∈ db.definitions)
    (same : sameIgnoringCase d.name name = true) (h : Ran enforced db [.addColumn name c] db') :
    db'.definitions = replace (extended d [c]) db.definitions ∧ (extended d [c]).Tidy := by
  obtain ⟨commands, cells, written, encoded, ran⟩ := h.single
  cases written
  cases encoded
  obtain ⟨outcome, ran⟩ := run_single ran
  obtain ⟨d', there', same', fresh, definitions⟩ := Database.definitions_add ran
  have one : sameIgnoringCase d'.name d.name = true := by
    rw [sameIgnoringCase_congr same', sameIgnoringCase_comm]
    exact same
  obtain rfl := tidy.eq_of_same there' there one
  exact ⟨definitions, (tidy.each d' there').add (linked_definition c false) fresh⟩

/-- Columns are added one after another. -/
theorem ran_adds {columns : List Column} (tidy : Tidy db.definitions) (there : d ∈ db.definitions)
    (same : sameIgnoringCase d.name name = true)
    (h : Ran enforced db (columns.map (.addColumn name)) db') :
    db'.definitions = replace (extended d columns) db.definitions ∧ (extended d columns).Tidy := by
  induction columns generalizing db d with
  | nil =>
    have bare : extended d [] = d := by rw [extended, List.map_nil, List.append_nil]
    rw [h.nil, bare, replace_self tidy there]
    exact ⟨rfl, tidy.each d there⟩
  | cons c columns ih =>
    obtain ⟨mid, first, rest⟩ := h.cons
    obtain ⟨definitions, tidy'⟩ := ran_add tidy there same first
    have next : extended d [c] ∈ mid.definitions :=
      definitions ▸ mem_replace there (sameIgnoringCase_refl d.name)
    obtain ⟨definitions', whole⟩ := ih (definitions ▸ tidy.replace tidy') next same rest
    have both : extended (extended d [c]) columns = extended d (c :: columns) := by
      simp [extended]
    rw [both] at definitions' whole
    rw [definitions', definitions]
    exact ⟨replace_replace rfl, whole⟩

/-- The rows that a rebuild copies are no matter of definitions. -/
theorem ran_copy {fills : List (String × Sql.Fill Cell)} (tidy : Tidy db.definitions)
    (ran : db.runAll enforced (Step.copyCommand .sqlite t fills) = .ok db') :
    db'.definitions = db.definitions := by
  unfold Step.copyCommand at ran
  split at ran
  · cases ran
    rfl
  · obtain ⟨outcome, ran⟩ := run_single ran
    exact Database.definitions_copy tidy ran

/-- The table that a rebuild fills before it takes the place of the old one. -/
def scratch (t : Table) : String := Dialect.sqlite.scratchName t.name

/-- A rebuilt table stands in the place of the old one. What referred to the table that was filled
in between refers to it. -/
theorem ran_rebuild {copies : List ColumnCopy} (expected : Expected t) (tidy : Tidy db.definitions)
    (there : d ∈ db.definitions) (name : d.name = t.name) (spares : t.Spares (scratch t))
    (h : Ran enforced db [.rebuildTable t copies] db') :
    t.definition .sqlite t.name ∈ db'.definitions ∧
      ∀ e ∈ db.definitions, sameIgnoringCase e.name t.name = false →
        e.retarget (scratch t) t.name ∈ db'.definitions := by
  obtain ⟨commands, cells, written, encoded, ran⟩ := h.single
  obtain ⟨fills, fills', made, _, filled, -, -, creation, copying, swap⟩ :=
    Step.rebuild_runs written encoded ran
  obtain ⟨cleared, _, drop, ran⟩ := Database.runAll_cons_ok swap
  obtain ⟨_, rename⟩ := run_single ran
  obtain ⟨definitions, new, fresh⟩ := Database.definitions_create (linked_columns t _) creation
  rw [kept_definition expected] at definitions new
  have twice : Tidy made.definitions := definitions ▸ tidy.add new fresh
  have apart : sameIgnoringCase (scratch t) t.name = false := by
    rw [sameIgnoringCase_comm, ← name]
    exact fresh d there
  have remaining := (Database.definitions_drop drop).trans
    (congrArg _ ((ran_copy twice copying).trans definitions))
  have once : Tidy cleared.definitions := by
    rw [remaining, ← definitions]
    exact twice.filter _
  have staged : t.definition .sqlite (scratch t) ∈ cleared.definitions := by
    rw [remaining, List.mem_filter]
    exact ⟨List.mem_append_right _ (List.mem_singleton_self _), (Bool.not_eq_true' _).mpr apart⟩
  obtain ⟨d', there', same, free, final⟩ := Database.definitions_rename rename
  obtain rfl := once.eq_of_same there' staged same
  obtain ⟨-, own, others⟩ := once.renamed staged same free
  rw [final]
  refine ⟨?_, fun e he other => others e ?_ (fresh e he)⟩
  · have avoids := avoids_definition spares t.name
    rw [← TableDef.retarget_of_avoids avoids t.name]
    exact own
  · rw [remaining, List.mem_filter]
    exact ⟨List.mem_append_left _ he, by simpa using other⟩

/-- A rebuild among the steps takes no reference of a table along. -/
def Clear (steps : List Step) (t : Table) : Prop :=
  ∀ u copies, .rebuildTable u copies ∈ steps → t.Spares (scratch u)

/-- A rebuild among the steps takes no reference of a definition along. -/
def Undisturbed (steps : List Step) (d : TableDef) : Prop :=
  ∀ u copies, .rebuildTable u copies ∈ steps → d.Avoids (scratch u)

/-- The expected table is there, as far as it is compared. -/
def Present (ds : List TableDef) (t : Table) : Prop :=
  ∃ d ∈ ds, d.name = t.name ∧ t.Agrees (readTable d)

/-- What a plan was made for is still there: the table by its name, and as it was read where it is
to be altered in place. -/
def Awaited (p : Planner) (expected actual : Schema) (ds : List TableDef) (name : String) : Prop :=
  ∀ t current, expected.table? name = some t → actual.table? name = some current →
    ∃ d ∈ ds, d.name = name ∧ (p.needsRebuild t current = false → readTable d = current)

/-- Other tables than the one that steps are about keep their names, and their definitions unless a
reference is taken along. -/
def Framed (name : String) (steps : List Step) (ds ds' : List TableDef) : Prop :=
  ∀ e ∈ ds, e.name ≠ name → ∃ e' ∈ ds', e'.name = e.name ∧ (Undisturbed steps e → e' = e)

variable {p : Planner} {expected actual : Schema} {steps : List Step}

/-- Where columns cannot be dropped in place, no step does it. -/
theorem keeps_columns (treated : Treated p expected actual name steps)
    (fixed : p.dropsColumns = false) : ∀ table column, .dropColumn table column ∉ steps := by
  intro table column drop
  cases treated with
  | altered t current some found keep =>
    rw [dropped_nil fixed keep, List.map_nil, List.append_nil] at drop
    obtain ⟨c, -, drop⟩ := List.mem_map.mp drop
    cases drop
  | _ => simp at drop

theorem keeps_columns_plan (fixed : p.dropsColumns = false) {plan : Plan}
    (planned : p.plan expected actual = .ok plan) :
    ∀ table column, .dropColumn table column ∉ plan := by
  obtain ⟨steps, treated, rfl⟩ := Planner.plan_ok planned
  intro table column drop
  rcases List.mem_append.mp drop with drop | change
  · obtain ⟨name, -, drop⟩ := List.mem_map.mp drop
    cases drop
  · obtain ⟨name, there, change⟩ := List.mem_flatMap.mp change
    exact keeps_columns (treated name there) fixed table column change

/-- A name has one expected table. -/
theorem Present.only {ds : List TableDef} (present : Present ds t)
    (found : expected.table? name = some t) : ∀ u, expected.table? name = some u → Present ds u :=
  fun _ other => Option.some.inj (found.symm.trans other) ▸ present

theorem ran_created (wanted : Expected t)
    (h : Ran enforced db [.createTable t] db') :
    Present db'.definitions t ∧ Framed name [.createTable t] db.definitions db'.definitions := by
  obtain ⟨definitions, new, -⟩ := ran_create wanted h
  rw [definitions]
  exact ⟨⟨_, List.mem_append_right _ (List.mem_singleton_self _), rfl, agrees_created wanted new⟩,
    fun e he _ => ⟨e, List.mem_append_left _ he, rfl, fun _ => rfl⟩⟩

theorem ran_rebuilt {copies : List ColumnCopy} (wanted : Expected t) (tidy : Tidy db.definitions)
    (there : d ∈ db.definitions) (name : d.name = t.name) (spares : t.Spares (scratch t))
    (h : Ran enforced db [.rebuildTable t copies] db') :
    Present db'.definitions t ∧
      Framed t.name [.rebuildTable t copies] db.definitions db'.definitions := by
  obtain ⟨own, others⟩ := ran_rebuild wanted tidy there name spares h
  have tidy' : Tidy db'.definitions := h.tidy tidy (by simp)
  refine ⟨⟨_, own, rfl, agrees_created wanted (tidy'.each _ own)⟩, fun e he other => ?_⟩
  have apart : sameIgnoringCase e.name t.name = false :=
    name ▸ tidy.apart_of_ne he there (name ▸ other)
  refine ⟨_, others e he apart, rfl, fun undisturbed => ?_⟩
  exact TableDef.retarget_of_avoids (undisturbed t copies (List.mem_singleton_self _)) t.name

theorem ran_altered (wanted : Expected t) (distinct : (t.columns.map (·.name)).Nodup)
    (fixed : p.dropsColumns = false) (tidy : Tidy db.definitions) (there : d ∈ db.definitions)
    (name : d.name = t.name) (keep : p.needsRebuild t (readTable d) = false)
    (h : Ran enforced db ((added t (readTable d)).map (.addColumn t.name)) db') :
    Present db'.definitions t ∧
      Framed t.name ((added t (readTable d)).map (.addColumn t.name)) db.definitions
        db'.definitions := by
  have same : sameIgnoringCase d.name t.name = true := name ▸ sameIgnoringCase_refl d.name
  obtain ⟨definitions, whole⟩ := ran_adds tidy there same h
  rw [definitions]
  refine ⟨⟨_, mem_replace there (sameIgnoringCase_refl d.name), name,
    agrees_extended wanted distinct (tidy.each d there) name fixed keep whole⟩,
    fun e he other => ⟨e, ?_, rfl, fun _ => rfl⟩⟩
  refine mem_replace_of_ne tidy there (sameIgnoringCase_refl d.name) he ?_
  rintro rfl
  exact other name

/-- The steps for one table, whatever they are. -/
theorem ran_treated (wanted : Wanted expected) (fixed : p.dropsColumns = false)
    (treated : Treated p expected actual name steps) (tidy : Tidy db.definitions)
    (awaited : Awaited p expected actual db.definitions name)
    (clear : ∀ t, expected.table? name = some t → Clear steps t)
    (h : Ran enforced db steps db') :
    (∀ t, expected.table? name = some t → Present db'.definitions t) ∧
      Framed name steps db.definitions db'.definitions := by
  cases treated with
  | unexpected none =>
    rw [h.nil]
    refine ⟨fun t some => ?_, fun e he _ => ⟨e, he, rfl, fun _ => rfl⟩⟩
    rw [none] at some
    cases some
  | created t some none =>
    obtain ⟨present, framed⟩ := ran_created (wanted.each name t some) h
    exact ⟨present.only some, framed⟩
  | rebuilt t current copies some found rules =>
    obtain rfl : t.name = name := wanted.named name t some
    obtain ⟨d, there, named, -⟩ := awaited t current some found
    have spares := clear t some t copies (List.mem_singleton_self _)
    obtain ⟨present, framed⟩ := ran_rebuilt (wanted.each _ t some) tidy there named spares h
    exact ⟨present.only some, framed⟩
  | altered t current some found keep =>
    obtain rfl : t.name = name := wanted.named name t some
    obtain ⟨d, there, named, read⟩ := awaited t current some found
    obtain rfl := read keep
    rw [dropped_nil fixed keep, List.map_nil, List.append_nil] at h ⊢
    obtain ⟨present, framed⟩ := ran_altered (wanted.each _ t some) (wanted.distinct _ t some) fixed
      tidy there named keep h
    exact ⟨present.only some, framed⟩

theorem Clear.mono {more : List Step} (clear : Clear more t) (part : steps ⊆ more) :
    Clear steps t :=
  fun u copies rebuilds => clear u copies (part rebuilds)

theorem undisturbed_of_covers (tidy : d.Tidy)
    (covers : ∀ c' ∈ (readTable d).columns, ∃ c ∈ t.columns, c.Agrees c') (clear : Clear steps t) :
    Undisturbed steps d :=
  fun u copies rebuilds => avoids_of_covers tidy covers (clear u copies rebuilds)

/-- A table that still waits for its steps is not touched by those for another one. -/
theorem Awaited.framed {first : String} {ds ds' : List TableDef} (fixed : p.dropsColumns = false)
    (tidy : Tidy ds) (awaited : Awaited p expected actual ds name)
    (framed : Framed first steps ds ds') (other : name ≠ first)
    (clear : ∀ t, expected.table? name = some t → Clear steps t) :
    Awaited p expected actual ds' name := by
  intro t current some found
  obtain ⟨d, there, named, read⟩ := awaited t current some found
  obtain ⟨d', there', same, untouched⟩ := framed d there (named ▸ other)
  refine ⟨d', there', same.trans named, fun keep => ?_⟩
  obtain rfl := read keep
  have covers := covers_of_kept fixed keep (readTable_nodup (tidy.each d there))
  rw [untouched (undisturbed_of_covers (tidy.each d there) covers (clear t some))]

/-- The steps for several tables, one table after another. -/
theorem ran_tables (wanted : Wanted expected) (fixed : p.dropsColumns = false)
    {steps : String → List Step} {names : List String} (distinct : names.Nodup)
    (treated : ∀ name ∈ names, Treated p expected actual name (steps name))
    (tidy : Tidy db.definitions)
    (awaited : ∀ name ∈ names, Awaited p expected actual db.definitions name)
    (clear : ∀ name t, expected.table? name = some t → Clear (names.flatMap steps) t)
    (h : Ran enforced db (names.flatMap steps) db') :
    (∀ name ∈ names, ∀ t, expected.table? name = some t → Present db'.definitions t) ∧
      ∀ d ∈ db.definitions, d.name ∉ names → Undisturbed (names.flatMap steps) d →
        d ∈ db'.definitions := by
  induction names generalizing db with
  | nil =>
    rw [h.nil]
    exact ⟨List.forall_mem_nil _, fun d hd _ _ => hd⟩
  | cons first names ih =>
    obtain ⟨fresh, distinct⟩ := List.nodup_cons.mp distinct
    obtain ⟨own, others⟩ := List.forall_mem_cons.mp treated
    rw [List.flatMap_cons] at h clear ⊢
    have start : steps first ⊆ steps first ++ names.flatMap steps := List.subset_append_left _ _
    have later : names.flatMap steps ⊆ steps first ++ names.flatMap steps :=
      List.subset_append_right _ _
    obtain ⟨mid, ran, rest⟩ := h.append
    obtain ⟨present, framed⟩ := ran_treated wanted fixed own tidy
      (awaited first List.mem_cons_self) (fun t some => (clear first t some).mono start) ran
    have tidy' : Tidy mid.definitions := ran.tidy tidy (keeps_columns own fixed)
    obtain ⟨reached, kept⟩ := ih distinct others tidy' (fun name hn =>
      (awaited name (List.mem_cons_of_mem _ hn)).framed fixed tidy framed
        (fun same => fresh (same ▸ hn)) fun t some => (clear name t some).mono start)
      (fun name t some => (clear name t some).mono later) rest
    refine ⟨List.forall_mem_cons.mpr ⟨fun t some => ?_, reached⟩, fun d hd away undisturbed => ?_⟩
    · obtain ⟨d, there, named, agrees⟩ := present t some
      have other : d.name ∉ names := by rwa [named, wanted.named first t some]
      have undisturbed := undisturbed_of_covers (tidy'.each d there) agrees.covers
        ((clear first t some).mono later)
      exact ⟨d, kept d there other undisturbed, named, agrees⟩
    · rw [List.mem_cons, not_or] at away
      obtain ⟨d', there, -, untouched⟩ := framed d hd away.1
      obtain rfl := untouched fun u copies rebuilds => undisturbed u copies (start rebuilds)
      exact kept d' there away.2 fun u copies rebuilds => undisturbed u copies (later rebuilds)

/-- A plan for what is there leaves every expected table, as far as it is compared. -/
theorem ran_plan (wanted : Wanted expected) (fixed : p.dropsColumns = false) {plan : Plan}
    (planned : p.plan expected actual = .ok plan) (tidy : Tidy db.definitions)
    (read : ∀ name current, actual.table? name = some current →
      ∃ d ∈ db.definitions, d.name = name ∧ readTable d = current)
    (clear : ∀ name t, expected.table? name = some t → Clear plan t)
    (h : Ran enforced db plan db') :
    ∀ name t, expected.table? name = some t → Present db'.definitions t := by
  obtain ⟨steps, treated, rfl⟩ := Planner.plan_ok planned
  obtain ⟨mid, drops, rest⟩ := h.append
  have definitions := ran_drops drops
  have tidy' : Tidy mid.definitions := definitions ▸ tidy.filter _
  have awaited : ∀ name ∈ TableOrder.all expected actual,
      Awaited p expected actual mid.definitions name := by
    intro name _ t current some found
    obtain ⟨d, there, named, same⟩ := read name current found
    refine ⟨d, ?_, named, fun _ => same⟩
    rw [definitions, List.mem_filter, List.all_eq_true]
    refine ⟨there, fun unknown hu => ?_⟩
    obtain ⟨-, none, isSome⟩ := Planner.mem_unknownTables.mp hu
    obtain ⟨old, found'⟩ := Option.isSome_iff_exists.mp isSome
    obtain ⟨e, there', named', -⟩ := read unknown old found'
    rw [Bool.not_eq_true', ← named']
    refine tidy.apart_of_ne there there' fun equal => ?_
    rw [← named', ← equal, named, some] at none
    cases none
  have part : (TableOrder.all expected actual).flatMap steps ⊆
      (p.unknownTables expected actual).map .dropTable ++
        (TableOrder.all expected actual).flatMap steps := List.subset_append_right _ _
  obtain ⟨reached, -⟩ := ran_tables wanted fixed (TableOrder.all_nodup expected actual) treated
    tidy' awaited (fun name t some => (clear name t some).mono part) rest
  exact fun name t some => reached name (TableOrder.mem_all.mpr (.inl (some ▸ rfl))) t some

end EntityStore.Engine
