import EntityStore.Engine.Connection
import EntityStore.Proofs.Engine.Tables
import EntityStore.Proofs.Migration.Steps
import EntityStore.Proofs.Query.Compile

namespace EntityStore

open Engine (Cell Connection Database Fault StoredTable)
open Sql (Command Fill TableDef)
open Text (sameIgnoringCase)

namespace Engine.Database

variable {db db' : Database} {enforced : Bool} {name : String}

/-- A new table has no rows, and is not the one that is there already. -/
theorem run_create {d : TableDef} {outcome : Outcome} {old : StoredTable}
    (h : db.run enforced (.createTable d) = .ok (db', outcome)) (there : db.table? name = some old) :
    db'.table? d.name = some (.ofDefinition d.kept) ∧ db'.table? name = some old ∧
      sameIgnoringCase d.name name = false := by
  obtain ⟨made, created, h⟩ := Except.bind_eq_ok.mp h
  cases h
  obtain ⟨absent, rfl, -⟩ := create_ok created
  refine ⟨?_, ?_, ?_⟩
  · have named : sameIgnoringCase (StoredTable.ofDefinition d.kept).name d.name = true :=
      Text.sameIgnoringCase_refl d.name
    rw [table?_add, absent, Option.none_or, if_pos named]
  · rw [table?_add, there, Option.some_or]
  · rw [Bool.eq_false_iff]
    intro same
    rw [table?_congr same, there] at absent
    cases absent

theorem run_copy {target source : String} {fills : List (String × Fill Cell)} {outcome : Outcome}
    {t from_ : StoredTable} (h : db.run enforced (.copyRows target fills source) = .ok (db', outcome))
    (start : db.table? target = some t) (there : db.table? source = some from_) :
    ∃ t', db'.table? target = some t' ∧ t'.rows.length = from_.rows.length + t.rows.length := by
  obtain ⟨⟨db', n⟩, copied, h⟩ := Except.bind_eq_ok.mp h
  cases h
  obtain ⟨t₀, t', from₀, start', there', rfl, definition, length⟩ := copyRows_ok copied
  rw [start] at start'
  rw [there] at there'
  cases start'
  cases there'
  have named : sameIgnoringCase t'.name target = true := by
    rw [StoredTable.name, definition]
    exact table?_name start
  exact ⟨t', table?_put named start, length⟩

/-- The new table takes the place of the old one. -/
theorem run_swap {scratch : String} {t : StoredTable}
    (h : db.runAll enforced [.dropTable name, .renameTable scratch name] = .ok db')
    (different : sameIgnoringCase scratch name = false) (there : db.table? scratch = some t) :
    db'.table? name = some (t.renamed scratch name) := by
  obtain ⟨dropped, _, drop, h⟩ := runAll_cons_ok h
  obtain ⟨renamed, _, rename, h⟩ := runAll_cons_ok h
  cases h
  obtain ⟨_, -, drop⟩ := Except.bind_eq_ok.mp drop
  cases drop
  obtain ⟨_, moved, rename⟩ := Except.bind_eq_ok.mp rename
  cases rename
  obtain ⟨t₀, start, found⟩ := rename_ok moved
  rw [table?_remove (Text.sameIgnoringCase_comm name scratch ▸ different), there] at start
  cases start
  exact found

end Engine.Database

namespace Step

section

variable {ε : Type} {encode : Param → Except ε Cell} {db db' : Database} {enforced : Bool}
  {d : Dialect} {t : Table} {copies : List ColumnCopy} {commands : List (Command Param)}
  {cells : List (Command Cell)}

theorem mapM_copyCommand {fills : List (String × Fill Param)}
    (h : (copyCommand d t fills).mapM (Command.mapM encode) = .ok cells) :
    ∃ fills', fills.mapM (fun (c, fill) => do pure (c, ← Command.mapFillM encode fill)) =
      .ok fills' ∧ cells = copyCommand d t fills' := by
  unfold copyCommand at h
  cases fills with
  | nil =>
    cases h
    exact ⟨[], rfl, rfl⟩
  | cons first rest =>
    rw [List.isEmpty_cons, if_neg Bool.false_ne_true, List.mapM_cons, List.mapM_nil] at h
    obtain ⟨copy, coded, h⟩ := Except.bind_eq_ok.mp h
    cases h
    obtain ⟨fills', stored, h⟩ := Except.bind_eq_ok.mp coded
    cases h
    refine ⟨fills', stored, ?_⟩
    cases fills' with
    | nil => cases (Except.mapM_forall₂ stored).length_eq
    | cons _ _ => rfl

/-- What a rebuild runs: it creates a table, copies rows into it, and puts it in the place of the
old one. -/
theorem rebuild_runs (rendered : rebuild d t copies = .ok commands)
    (encoded : commands.mapM (Command.mapM encode) = .ok cells)
    (ran : db.runAll enforced cells = .ok db') :
    ∃ fills fills' made outcome copied, copies.mapM ColumnCopy.fill = .ok fills ∧
      fills.mapM (fun (c, fill) => do pure (c, ← Command.mapFillM encode fill)) = .ok fills' ∧
      db.run enforced (.createTable (t.definition d (d.scratchName t.name))) = .ok (made, outcome) ∧
      made.runAll enforced (copyCommand d t fills') = .ok copied ∧
      copied.runAll enforced [.dropTable t.name, .renameTable (d.scratchName t.name) t.name] =
        .ok db' := by
  obtain ⟨fills, filled, rfl⟩ := rebuild_ok rendered
  rw [List.mapM_cons] at encoded
  obtain ⟨create, created, h⟩ := Except.bind_eq_ok.mp encoded
  cases created
  obtain ⟨rest, others, h⟩ := Except.bind_eq_ok.mp h
  cases h
  rw [List.mapM_append] at others
  obtain ⟨copying, coded, h⟩ := Except.bind_eq_ok.mp others
  obtain ⟨swap, swapped, h⟩ := Except.bind_eq_ok.mp h
  cases swapped
  cases h
  obtain ⟨fills', stored, rfl⟩ := mapM_copyCommand coded
  obtain ⟨made, outcome, creation, ran⟩ := Database.runAll_cons_ok ran
  obtain ⟨copied, copy, swap⟩ := Database.runAll_append_ok ran
  exact ⟨fills, fills', made, outcome, copied, filled, stored, creation, copy, swap⟩

/-- A rebuild that succeeds copies every row, or none. -/
theorem rebuilt_rows {old : StoredTable} (rendered : rebuild d t copies = .ok commands)
    (encoded : commands.mapM (Command.mapM encode) = .ok cells)
    (ran : db.runAll enforced cells = .ok db') (there : db.table? t.name = some old) :
    ∃ new, db'.table? t.name = some new ∧
      new.rows.length = if copies.isEmpty then 0 else old.rows.length := by
  obtain ⟨fills, fills', made, _, copied, filled, stored, creation, copy, swap⟩ :=
    rebuild_runs rendered encoded ran
  obtain ⟨start, there, different⟩ := Database.run_create creation there
  have length : copies.length = fills'.length :=
    ((Except.mapM_forall₂ filled).length_eq).trans (Except.mapM_forall₂ stored).length_eq
  cases fills' with
  | nil =>
    cases copy
    obtain rfl := List.length_eq_zero_iff.mp length
    exact ⟨_, Database.run_swap swap different start, rfl⟩
  | cons first rest =>
    have copying : copies.isEmpty = false := by
      rw [List.isEmpty_eq_false_iff, ← List.length_pos_iff, length]
      exact Nat.succ_pos _
    obtain ⟨_, _, copy, done⟩ := Database.runAll_cons_ok copy
    cases done
    obtain ⟨t', start, count⟩ := Database.run_copy copy start there
    rw [copying, if_neg Bool.false_ne_true]
    exact ⟨_, Database.run_swap swap different start, count⟩

end

end Step

namespace Planner

/-- No column of the new table is in the old one or has to be filled. -/
def fillsNothing (expected actual : Table) : Bool :=
  expected.columns.all fun c =>
    (actual.column? c.name).isNone && (c.nullable || c.autoIncrement)

variable {p : Planner} {t current : Table}

theorem copyRules_isEmpty {copies : List ColumnCopy} (h : p.copyRules t current = .ok copies) :
    copies.isEmpty = fillsNothing t current := by
  obtain ⟨rules, each, rfl⟩ := copyRules_ok h
  clear h
  unfold fillsNothing
  generalize t.columns = columns at each ⊢
  induction each with
  | nil => rfl
  | cons rule _ ih =>
    rw [List.all_cons, List.filterMap_cons]
    cases rule with
    | kept old found _ => rw [found]; rfl
    | replaced old type v found _ _ _ => rw [found]; rfl
    | filled type v absent required _ => rw [absent, required]; rfl
    | unset absent free => rw [absent, free]; exact ih

/-- A rebuild that succeeds keeps every row, unless no column of the new table is in the old one or
has to be filled: then the new table is empty. -/
theorem rebuild_keeps_rows {ε : Type} {expected actual : Schema} (ne : expected.Named)
    {plan : Plan} (planned : p.plan expected actual = .ok plan)
    {copies : List ColumnCopy} (rebuilds : .rebuildTable t copies ∈ plan) {d : Dialect}
    {commands : List (Command Param)}
    (rendered : Step.commands d (.rebuildTable t copies) = .ok commands)
    {encode : Param → Except ε Cell} {cells : List (Command Cell)}
    (encoded : commands.mapM (Command.mapM encode) = .ok cells) {db db' : Database}
    {enforced : Bool} (ran : db.runAll enforced cells = .ok db') {old : StoredTable}
    (there : db.table? t.name = some old) :
    ∃ current new, expected.table? t.name = some t ∧ actual.table? t.name = some current ∧
      db'.table? t.name = some new ∧
      new.rows.length = if fillsNothing t current then 0 else old.rows.length := by
  obtain ⟨current, wanted, stored, rules⟩ := rebuilt_of_mem ne planned rebuilds
  obtain ⟨new, found, rows⟩ := Step.rebuilt_rows rendered encoded ran there
  rw [copyRules_isEmpty rules] at rows
  exact ⟨current, new, wanted, stored, found, rows⟩

/-- A database of one table with one column. -/
def oneColumn (table column type : String) (cells : List Cell) : Database :=
  ⟨[⟨⟨table, [⟨column, type, false, none, false, []⟩], []⟩, cells.map fun c => [c], 0⟩]⟩

def roles : Table := ⟨"roles", [((Column.named "id" "BIGINT").typed .integer).asPrimaryKey]⟩

def rolesRebuild : List (Command Param) :=
  [.createTable ⟨"roles__rebuild", [⟨"id", "BIGINT", true, none, false, []⟩], []⟩,
    .copyRows "roles__rebuild" [("id", .existingOr ⟨.integer, .int 0⟩)] "roles",
    .dropTable "roles", .renameTable "roles__rebuild" "roles"]

theorem rebuild_keeps_rows_roles :
    ∃ cells db', rolesRebuild.mapM (Command.mapM (Connection.stored .generic)) = .ok cells ∧
      (oneColumn "roles" "id" "BIGINT" [.int 5, .null]).runAll true cells = .ok db' ∧
      ∃ current new, wanted.table? "roles" = some roles ∧ stored.table? "roles" = some current ∧
        db'.table? "roles" = some new ∧
        new.rows.length = if fillsNothing roles current then 0 else 2 := by
  have ne : wanted.Named := Schema.named_of_entries (by decide)
  have rebuilds : .rebuildTable roles [⟨"id", some .integer, .existingOr (.int 0)⟩] ∈ wantedSteps :=
    .tail _ (.head _)
  have rendered : Step.commands .generic (.rebuildTable roles
      [⟨"id", some .integer, .existingOr (.int 0)⟩]) = .ok rolesRebuild := rfl
  have there : (oneColumn "roles" "id" "BIGINT" [.int 5, .null]).table? "roles" =
      some ⟨⟨"roles", [⟨"id", "BIGINT", false, none, false, []⟩], []⟩, [[.int 5], [.null]], 0⟩ := rfl
  obtain ⟨cells, encoded⟩ : ∃ cells, rolesRebuild.mapM (Command.mapM (Connection.stored .generic)) =
      .ok cells := ⟨_, rfl⟩
  obtain ⟨db', ran⟩ : ∃ db', (oneColumn "roles" "id" "BIGINT" [.int 5, .null]).runAll true cells =
      .ok db' := by
    cases encoded
    exact ⟨_, rfl⟩
  exact ⟨cells, db', encoded, ran,
    rebuild_keeps_rows ne plan_wanted rebuilds rendered encoded ran there⟩

/-- Log entries, and what is to become of them: their only column is replaced by another. -/
def logged : Schema := Schema.empty.add ⟨"logs", [Column.named "message" "TEXT"]⟩

def noted : Schema := Schema.empty.add ⟨"logs", [Column.named "note" "TEXT"]⟩

/-- An entry is lost though every statement of the rebuild succeeds. -/
theorem rebuild_loses_row :
    (Planner.of .sqlite .sqlite .default).plan noted logged =
      .ok [.rebuildTable ⟨"logs", [Column.named "note" "TEXT"]⟩ []] ∧
    ∃ commands cells db' new,
      Step.commands .sqlite (.rebuildTable ⟨"logs", [Column.named "note" "TEXT"]⟩ []) =
        .ok commands ∧
      commands.mapM (Command.mapM (Connection.stored .sqlite)) = .ok cells ∧
      (oneColumn "logs" "message" "TEXT" [.text "kept"]).runAll false cells = .ok db' ∧
      db'.table? "logs" = some new ∧ new.rows = [] := by
  have order : TableOrder.all noted logged = ["logs"] := by decide +kernel
  refine ⟨?_, _, _, _, _, rfl, rfl, rfl, rfl, rfl⟩
  rw [plan_of_order order]
  rfl

end Planner

end EntityStore
