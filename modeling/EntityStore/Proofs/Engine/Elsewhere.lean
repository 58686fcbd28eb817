import EntityStore.Proofs.Engine.Reshaping

namespace EntityStore

open Sql (ColumnDef Command TableDef)
open Text (sameIgnoringCase sameIgnoringCase_comm sameIgnoringCase_congr sameIgnoringCase_refl)

namespace Sql

/-- The tables that a statement changes, makes or takes away. -/
def Command.targets {α : Type} : Command α → List String
  | .insert table .. | .update table .. | .delete table _ => [table]
  | .createTable d => [d.name]
  | .dropTable name | .addColumn name _ | .dropColumn name _ => [name]
  | .copyRows target .. => [target]
  | .renameTable table name => [table, name]
  | _ => []

theorem Command.targets_mapM {ε α β : Type} {f : α → Except ε β} {command : Command α}
    {command' : Command β} (h : command.mapM f = .ok command') :
    command'.targets = command.targets := by
  cases command with
  | select | count | echo | insert | delete | copyRows =>
    obtain ⟨_, -, h⟩ := Except.bind_eq_ok.mp h
    cases h
    rfl
  | update =>
    obtain ⟨_, -, h⟩ := Except.bind_eq_ok.mp h
    obtain ⟨_, -, h⟩ := Except.bind_eq_ok.mp h
    cases h
    rfl
  | createTable | dropTable | addColumn | dropColumn | renameTable =>
    cases h
    rfl

/-- A column, what it points at left out. -/
def ColumnDef.unlinked (c : ColumnDef) : ColumnDef := { c with references := [] }

def TableDef.unlinked (d : TableDef) : TableDef :=
  { d with columns := d.columns.map ColumnDef.unlinked }

theorem TableDef.retarget_unlinked (d : TableDef) (old new : String) :
    (d.retarget old new).unlinked = d.unlinked := by
  rw [unlinked, retarget, List.map_map]
  rfl

end Sql

namespace Engine

/-- A stored table, what its columns point at left out. -/
def StoredTable.unlinked (t : StoredTable) : StoredTable :=
  { t with definition := t.definition.unlinked }

theorem StoredTable.retarget_unlinked (t : StoredTable) (old new : String) :
    (t.retarget old new).unlinked = t.unlinked :=
  congrArg (fun d => StoredTable.mk d t.rows t.sequence) (t.definition.retarget_unlinked old new)

namespace Database

variable {db db' : Database} {enforced : Bool} {outcome : Outcome} {table name : String}

/-- A table of which only rows change leaves the others alone. -/
theorem table?_put_of_found {t t' : StoredTable} (found : db.table? name = some t)
    (same : t'.name = t.name) (other : sameIgnoringCase name table = false) :
    (db.put t').table? table = db.table? table := by
  refine table?_put_of_ne ?_
  rw [same, sameIgnoringCase_congr (table?_name found)]
  exact other

/-- A renamed table leaves the others where they are. -/
theorem table?_rename {old new : String} (h : db.rename old new = .ok db')
    (old_other : sameIgnoringCase old table = false)
    (new_other : sameIgnoringCase new table = false) :
    db'.table? table = (db.table? table).map (·.retarget old new) := by
  obtain ⟨t, found, h⟩ := Except.bind_eq_ok.mp h
  split at h
  · cases h
  · cases h
    rw [table?, table?, List.find?_map, List.find?_map]
    generalize whole : ({ t with definition := { t.definition with name := new } } : StoredTable) =
      renamed
    have name : renamed.name = new := by rw [← whole]; rfl
    have kept : (((fun t : StoredTable => sameIgnoringCase t.name table) ∘
          fun other => other.retarget old new) ∘ fun other : StoredTable =>
            if sameIgnoringCase other.name old then renamed else other) =
        fun other => sameIgnoringCase other.name table := by
      funext other
      simp only [Function.comp_apply, StoredTable.retarget_name]
      split
      · rename_i moves
        rw [name, new_other, sameIgnoringCase_congr moves, old_other]
      · rfl
    rw [kept]
    cases there : db.tables.find? fun other => sameIgnoringCase other.name table with
    | none => rfl
    | some other =>
      have stays : sameIgnoringCase other.name old = false := by
        rw [Bool.eq_false_iff]
        intro moves
        have here := List.find?_some there
        rw [sameIgnoringCase_congr moves, old_other] at here
        cases here
      rw [Option.map_some, Option.map_some, Option.map_some, stays]
      rfl

/-- A statement leaves the tables that it does not name as they are, but for what they point at. -/
theorem run_elsewhere {command : Command Cell} (h : db.run enforced command = .ok (db', outcome))
    (elsewhere : ∀ name ∈ command.targets, sameIgnoringCase name table = false) :
    (db'.table? table).map (·.unlinked) = (db.table? table).map (·.unlinked) := by
  cases command with
  | select columns source order page =>
    obtain ⟨rows, -, h⟩ := Except.bind_eq_ok.mp h
    cases h
    rfl
  | count source page =>
    obtain ⟨rows, -, h⟩ := Except.bind_eq_ok.mp h
    cases h
    rfl
  | echo operands =>
    cases operands <;> cases h
    rfl
  | insert name columns rows returning =>
    obtain ⟨⟨_, t', written⟩, inserted, h⟩ := Except.bind_eq_ok.mp h
    cases h
    obtain ⟨t, there, rfl, same, -⟩ := insertRows_ok inserted
    exact congrArg _
      (table?_put_of_found there (congrArg TableDef.name same) (elsewhere name (.head _)))
  | update name sets filter =>
    obtain ⟨⟨_, n⟩, updated, h⟩ := Except.bind_eq_ok.mp h
    cases h
    obtain ⟨t, rows, there, rfl⟩ := updateRows_ok updated
    exact congrArg _ (table?_put_of_found there rfl (elsewhere name (.head _)))
  | delete name filter =>
    obtain ⟨⟨_, n⟩, deleted, h⟩ := Except.bind_eq_ok.mp h
    cases h
    obtain ⟨t, rows, there, rfl⟩ := deleteRows_ok deleted
    exact congrArg _ (table?_put_of_found there rfl (elsewhere name (.head _)))
  | createTable d =>
    obtain ⟨_, created, h⟩ := Except.bind_eq_ok.mp h
    cases h
    obtain ⟨-, rfl, -⟩ := create_ok created
    have other : sameIgnoringCase (StoredTable.ofDefinition d.kept).name table = false :=
      elsewhere d.name (.head _)
    rw [table?_add, other, if_neg Bool.false_ne_true, Option.or_none]
  | dropTable name =>
    obtain ⟨_, -, h⟩ := Except.bind_eq_ok.mp h
    cases h
    rw [table?_remove (elsewhere name (.head _))]
  | addColumn name c =>
    obtain ⟨t, found, h⟩ := Except.bind_eq_ok.mp h
    obtain ⟨t', added, h⟩ := Except.bind_eq_ok.mp h
    cases h
    obtain ⟨-, rfl⟩ := StoredTable.addColumn_ok added
    exact congrArg _ (table?_put_of_found (table_ok found) rfl (elsewhere name (.head _)))
  | dropColumn name column =>
    obtain ⟨t, found, h⟩ := Except.bind_eq_ok.mp h
    obtain ⟨t', dropped, h⟩ := Except.bind_eq_ok.mp h
    cases h
    exact congrArg _ (table?_put_of_found (table_ok found) (StoredTable.dropColumn_name dropped)
      (elsewhere name (.head _)))
  | copyRows target fills source =>
    obtain ⟨⟨_, n⟩, copied, h⟩ := Except.bind_eq_ok.mp h
    cases h
    obtain ⟨t, t', from_, there, -, rfl, same, -⟩ := copyRows_ok copied
    exact congrArg _
      (table?_put_of_found there (congrArg TableDef.name same) (elsewhere target (.head _)))
  | renameTable old new =>
    obtain ⟨_, moved, h⟩ := Except.bind_eq_ok.mp h
    cases h
    rw [table?_rename moved (elsewhere old (.head _)) (elsewhere new (.tail _ (.head _))),
      Option.map_map]
    exact congrArg (Option.map · _) (funext fun t => t.retarget_unlinked old new)

theorem runAll_elsewhere {commands : List (Command Cell)}
    (h : db.runAll enforced commands = .ok db')
    (elsewhere : ∀ command ∈ commands, ∀ name ∈ command.targets,
      sameIgnoringCase name table = false) :
    (db'.table? table).map (·.unlinked) = (db.table? table).map (·.unlinked) := by
  induction commands generalizing db with
  | nil =>
    cases h
    rfl
  | cons command commands ih =>
    obtain ⟨next, outcome, first, rest⟩ := runAll_cons_ok h
    obtain ⟨own, others⟩ := List.forall_mem_cons.mp elsewhere
    exact (ih rest others).trans (run_elsewhere first own)

end Database

/-- The statements of a step name the table that the first of them creates, or else the table of
the step, which then is there already. -/
theorem targets_of_commands {step : Step} {commands : List (Command Param)}
    (written : step.commands .sqlite = .ok commands) :
    ∀ command ∈ commands, ∀ name ∈ command.targets,
      (∃ d rest, commands = .createTable d :: rest ∧ name = d.name) ∨
        (∀ u, step ≠ .createTable u) ∧ name = step.table := by
  cases step with
  | createTable t =>
    obtain ⟨command, made, rfl⟩ := Except.map_eq_ok.mp written
    cases Table.create_ok made
    simp [Command.targets]
  | dropTable name =>
    cases written
    simp [Command.targets, Step.table]
  | addColumn name c =>
    cases written
    simp [Command.targets, Step.table]
  | dropColumn name column =>
    cases written
    simp [Command.targets, Step.table]
  | rebuildTable t copies =>
    obtain ⟨fills, -, rfl⟩ := Step.rebuild_ok written
    have own : ∀ u, Step.rebuildTable t copies ≠ .createTable u := fun u same => by cases same
    intro command hc name hn
    rcases List.mem_cons.mp hc with rfl | hc
    · exact .inl ⟨_, _, rfl, List.mem_singleton.mp hn⟩
    · rcases List.mem_append.mp hc with copy | swap
      · unfold Step.copyCommand at copy
        split at copy
        · cases copy
        · cases List.mem_singleton.mp copy
          exact .inl ⟨_, _, rfl, List.mem_singleton.mp hn⟩
      · rcases List.mem_pair.mp swap with rfl | rfl
        · exact .inr ⟨own, List.mem_singleton.mp hn⟩
        · rcases List.mem_pair.mp hn with rfl | rfl
          · exact .inl ⟨_, _, rfl, rfl⟩
          · exact .inr ⟨own, rfl⟩

variable {enforced : Bool} {db db' : Database} {table : String} {t : StoredTable}

/-- Whether a step creates a table, or is for another one than a given one. -/
def Spares (table : String) (step : Step) : Prop :=
  (∃ u, step = .createTable u) ∨ sameIgnoringCase step.table table = false

/-- A step for another table, or one that creates a table, leaves a table that is there as it is,
but for what it points at. -/
theorem ran_elsewhere {step : Step} (other : Spares table step) (there : db.table? table = some t)
    (h : Ran enforced db [step] db') :
    ∃ t', db'.table? table = some t' ∧ t'.unlinked = t.unlinked := by
  obtain ⟨commands, cells, written, encoded, ran⟩ := h.single
  have created {d : TableDef} {rest : List (Command Param)}
      (first : commands = .createTable d :: rest) : sameIgnoringCase d.name table = false := by
    subst first
    rw [List.mapM_cons] at encoded
    obtain ⟨create, same, h⟩ := Except.bind_eq_ok.mp encoded
    cases same
    obtain ⟨rest', -, h⟩ := Except.bind_eq_ok.mp h
    cases h
    obtain ⟨made, _, creation, -⟩ := Database.runAll_cons_ok ran
    exact (Database.run_create creation there).2.2
  have elsewhere : ∀ command ∈ cells, ∀ name ∈ command.targets,
      sameIgnoringCase name table = false := by
    intro cell hcell name hn
    obtain ⟨command, hc, encoded⟩ := Except.mapM_mem encoded hcell
    rw [Command.targets_mapM encoded] at hn
    rcases targets_of_commands written command hc name hn with ⟨d, rest, first, rfl⟩ | ⟨old, rfl⟩
    · exact created first
    · exact other.resolve_left fun ⟨u, new⟩ => old u new
  have same := Database.runAll_elsewhere ran elsewhere
  rw [there] at same
  exact Option.map_eq_some_iff.mp same

theorem ran_elsewhere_all {steps : List Step} (others : ∀ step ∈ steps, Spares table step)
    (there : db.table? table = some t) (h : Ran enforced db steps db') :
    ∃ t', db'.table? table = some t' ∧ t'.unlinked = t.unlinked := by
  induction steps generalizing db t with
  | nil =>
    rw [h.nil]
    exact ⟨t, there, rfl⟩
  | cons step steps ih =>
    obtain ⟨own, later⟩ := List.forall_mem_cons.mp others
    obtain ⟨mid, first, rest⟩ := h.cons
    obtain ⟨t₁, there₁, same₁⟩ := ran_elsewhere own there first
    obtain ⟨t₂, there₂, same₂⟩ := ih later there₁ rest
    exact ⟨t₂, there₂, same₂.trans same₁⟩

end Engine

end EntityStore
