import EntityStore.Migration.Ddl
import EntityStore.Proofs.Migration.Catalog
import EntityStore.Proofs.Query.Compile

namespace EntityStore

namespace Sql

variable {α : Type}

/-- The definition of each table, under the name of the table. -/
abbrev Definitions := String → Option TableDef

def TableDef.hasColumn (t : TableDef) (name : String) : Bool := t.columns.any fun c => c.name == name

/-- Whether a filled column is read from the old table. -/
def Fill.readsSource : Fill α → Bool
  | .existing | .existingOr _ => true
  | .constant _ => false

namespace Command

/-- The definitions after a statement, unless it makes what is there or names what is missing. -/
def define (ds : Definitions) : Command α → Option Definitions
  | .createTable t =>
    match ds t.name with
    | none => some (Function.update ds t.name (some t))
    | some _ => none
  | .dropTable name =>
    match ds name with
    | none => none
    | some _ => some (Function.update ds name none)
  | .addColumn name c =>
    match ds name with
    | none => none
    | some t =>
      if t.hasColumn c.name then none
      else some (Function.update ds name (some { t with columns := t.columns ++ [c] }))
  | .dropColumn name column =>
    match ds name with
    | none => none
    | some t =>
      if t.hasColumn column then
        some (Function.update ds name
          (some { t with columns := t.columns.filter fun c => c.name != column }))
      else none
  | .copyRows target fills source =>
    match ds target, ds source with
    | some t, some s =>
      if fills.all fun (column, fill) =>
          t.hasColumn column && (!fill.readsSource || s.hasColumn column) then some ds
      else none
    | _, _ => none
  | .renameTable name new =>
    match ds name, ds new with
    | some t, none =>
      some (Function.update (Function.update ds name none) new (some { t with name := new }))
    | _, _ => none
  | .select .. | .count .. | .echo _ | .insert .. | .update .. | .delete .. => some ds

/-- The definitions after all statements, if none of them fails. -/
def defineAll (ds : Definitions) (commands : List (Command α)) : Option Definitions :=
  commands.foldlM define ds

theorem defineAll_append {ds ds' : Definitions} {commands : List (Command α)}
    (h : defineAll ds commands = some ds') (more : List (Command α)) :
    defineAll ds (commands ++ more) = defineAll ds' more := by
  rw [defineAll, List.foldlM_append]
  exact congrArg (· >>= fun ds => more.foldlM define ds) h

theorem defineAll_cons {ds ds' : Definitions} {command : Command α}
    (h : command.define ds = some ds') (more : List (Command α)) :
    defineAll ds (command :: more) = defineAll ds' more := by
  rw [defineAll, List.foldlM_cons, h]
  rfl

end Command

end Sql

open Sql (Command Definitions Fill)

/-- The definitions of the tables of a catalog. -/
def Catalog.declared (d : Dialect) (c : Catalog) : Definitions :=
  fun name => (c name).map (Table.definition d name)

theorem Catalog.declared_some {c : Catalog} {name : String} {t : Table} (d : Dialect)
    (h : c name = some t) : c.declared d name = some (t.definition d name) := by
  rw [declared, h, Option.map_some]

theorem Catalog.declared_none {c : Catalog} {name : String} (d : Dialect) (h : c name = none) :
    c.declared d name = none := by
  rw [declared, h, Option.map_none]

theorem Catalog.declared_update (d : Dialect) (c : Catalog) (name : String) (t : Option Table) :
    declared d (Function.update c name t) =
      Function.update (declared d c) name (t.map (Table.definition d name)) := by
  funext other
  by_cases same : other = name
  · subst same
    simp [declared]
  · simp [declared, same]

namespace Table

variable {t : Table} {d : Dialect} {name : String}

theorem definition_hasColumn (column : String) :
    (t.definition d name).hasColumn column = (t.column? column).isSome := by
  rw [Bool.eq_iff_iff, column?_isSome, Sql.TableDef.hasColumn, definition]
  simp [Column.definition]

end Table

namespace ColumnCopy

/-- A rule that fits makes a fill that finds its columns. -/
theorem fill_fits {d : Dialect} {t current : Table} {scratch : String} {r : ColumnCopy}
    {f : String × Fill Param} (h : r.fill = .ok f) (fits : r.Fits t current) :
    ((t.definition d scratch).hasColumn f.1 &&
      (!f.2.readsSource || (current.definition d t.name).hasColumn f.1)) = true := by
  obtain ⟨column, type, source⟩ := r
  obtain ⟨target, source'⟩ := fits
  simp only [Table.definition_hasColumn]
  cases source with
  | existing => cases h; simp_all [Fill.readsSource]
  | existingOr v =>
    obtain ⟨p, -, rfl⟩ := Except.map_eq_ok.mp h
    simp_all [Fill.readsSource]
  | constant v =>
    obtain ⟨p, -, rfl⟩ := Except.map_eq_ok.mp h
    simp_all [Fill.readsSource]

end ColumnCopy

namespace Step

variable {d : Dialect} {c c' : Catalog}

/-- A rebuild makes the table under its scratch name, and puts it in the place of the old one. -/
theorem define_rebuild {t current : Table} {copies : List ColumnCopy}
    {commands : List (Command Param)} (rendered : rebuild d t copies = .ok commands)
    (there : c t.name = some current) (fits : ∀ r ∈ copies, r.Fits t current)
    (free : c (d.scratchName t.name) = none) :
    Command.defineAll (c.declared d) commands =
      some (Catalog.declared d (Function.update c t.name (some t))) := by
  have other : d.scratchName t.name ≠ t.name := fun same => by
    rw [same, there] at free
    cases free
  rw [rebuild_eq] at rendered
  obtain ⟨create, made, rendered⟩ := Except.bind_eq_ok.mp rendered
  obtain ⟨fills, filled, rendered⟩ := Except.bind_eq_ok.mp rendered
  cases rendered
  cases Table.create_ok made
  let scratch := d.scratchName t.name
  let both := Function.update (c.declared d) scratch (some (t.definition d scratch))
  have creation : (Command.createTable (α := Param) (t.definition d scratch)).define
      (c.declared d) = some both := by
    have absent : c.declared d (t.definition d scratch).name = none :=
      Catalog.declared_none d free
    simp only [Command.define, absent]
    rfl
  have old : both t.name = some (current.definition d t.name) :=
    (Function.update_of_ne other.symm _ _).trans (Catalog.declared_some d there)
  have new : both scratch = some (t.definition d scratch) := Function.update_self ..
  have copying : Command.defineAll both (copyCommand d t fills) = some both := by
    unfold copyCommand
    split
    · rfl
    · have found : (fills.all fun (column, fill) => (t.definition d scratch).hasColumn column &&
          (!fill.readsSource || (current.definition d t.name).hasColumn column)) = true := by
        refine List.all_eq_true.mpr fun f hf => ?_
        obtain ⟨r, hr, made⟩ := Except.mapM_mem filled hf
        exact ColumnCopy.fill_fits made (fits r hr)
      have step : (Command.copyRows (d.scratchName t.name) fills t.name).define both =
          some both := by
        simp only [Command.define, show both (d.scratchName t.name) = _ from new, old]
        exact if_pos found
      rw [Command.defineAll_cons step]
      rfl
  have drop : (Command.dropTable (α := Param) t.name).define both =
      some (Function.update both t.name none) := by
    simp only [Command.define, old]
  have rename : (Command.renameTable (α := Param) (d.scratchName t.name) t.name).define
      (Function.update both t.name none) =
        some (Function.update (c.declared d) t.name (some (t.definition d t.name))) := by
    have moved : Function.update both t.name none scratch = some (t.definition d scratch) := by
      rw [Function.update_of_ne other, new]
    have gone : c.declared d scratch = none := Catalog.declared_none d free
    simp only [Command.define, show Function.update both t.name none (d.scratchName t.name) = _
      from moved, Function.update_self, Option.some.injEq]
    funext name
    by_cases same : name = t.name
    · subst same
      simp [Table.definition]
    · by_cases under : name = scratch
      · subst under
        simp [Function.update_of_ne same, scratch, gone]
      · simp [same, under, both, scratch]
  rw [Command.defineAll_cons creation, Command.defineAll_append copying,
    Command.defineAll_cons drop, Command.defineAll_cons rename, Catalog.declared_update]
  rfl

end Step

end EntityStore
