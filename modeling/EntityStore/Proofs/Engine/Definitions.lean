import EntityStore.Proofs.Engine.Tables
import Mathlib.Data.List.Pairwise

namespace EntityStore

open Sql (ColumnDef Command Fill Reference TableDef)
open Text (sameIgnoringCase sameIgnoringCase_comm sameIgnoringCase_congr sameIgnoringCase_refl)

namespace Sql

/-- A reference after a table has another name. -/
def Reference.retarget (r : Reference) (old new : String) : Reference :=
  if sameIgnoringCase r.table old then { r with table := new } else r

/-- A column with one reference at most, which names the column that it points at. -/
def ColumnDef.Linked (c : ColumnDef) : Prop :=
  c.references = [] ∨ ∃ table column, c.references = [⟨table, some column⟩]

def ColumnDef.retarget (c : ColumnDef) (old new : String) : ColumnDef :=
  { c with references := c.references.map (·.retarget old new) }

theorem ColumnDef.Linked.retarget {c : ColumnDef} (h : c.Linked) (old new : String) :
    (c.retarget old new).Linked := by
  rcases h with none | ⟨table, column, one⟩
  · exact .inl (by rw [ColumnDef.retarget, none, List.map_nil])
  · refine .inr ?_
    rw [ColumnDef.retarget, one, List.map_singleton, Reference.retarget]
    split
    · exact ⟨new, column, rfl⟩
    · exact ⟨table, column, rfl⟩

/-- A statement under which definitions stay tidy: new columns are linked ones, and no column is
dropped, for it may be part of the key. -/
def Command.Plain {α : Type} : Command α → Prop
  | .createTable t => ∀ c ∈ t.columns, c.Linked
  | .addColumn _ c => c.Linked
  | .dropColumn .. => False
  | _ => True

theorem Command.Plain.mapM {ε α β : Type} {f : α → Except ε β} {command : Command α}
    {command' : Command β} (plain : command.Plain) (h : command.mapM f = .ok command') :
    command'.Plain := by
  cases command with
  | select | count | echo | insert | delete | copyRows =>
    obtain ⟨_, -, h⟩ := Except.bind_eq_ok.mp h
    cases h
    trivial
  | update =>
    obtain ⟨_, -, h⟩ := Except.bind_eq_ok.mp h
    obtain ⟨_, -, h⟩ := Except.bind_eq_ok.mp h
    cases h
    trivial
  | createTable | dropTable | addColumn | dropColumn | renameTable =>
    cases h
    exact plain

namespace TableDef

/-- A definition whose names mean one thing each: its columns have different names, and the parts of
a key that is declared after them are among them. -/
structure Tidy (d : TableDef) : Prop where
  distinct : d.columns.Pairwise fun c c' => sameIgnoringCase c.name c'.name = false
  keyed : ∀ part ∈ d.key, ∃ c ∈ d.columns, sameIgnoringCase c.name part = true
  linked : ∀ c ∈ d.columns, c.Linked

def retarget (d : TableDef) (old new : String) : TableDef :=
  { d with columns := d.columns.map (·.retarget old new) }

/-- No reference points at a table. -/
def Avoids (d : TableDef) (table : String) : Prop :=
  ∀ c ∈ d.columns, ∀ r ∈ c.references, sameIgnoringCase r.table table = false

variable {d : TableDef} {old : String}

theorem index?_isSome {name : String} :
    (d.index? name).isSome ↔ ∃ c ∈ d.columns, sameIgnoringCase c.name name = true := by
  rw [index?, List.findIdx?_isSome, List.any_eq_true]

theorem retarget_of_avoids (avoids : d.Avoids old) (new : String) : d.retarget old new = d := by
  have columns : d.columns.map (·.retarget old new) = d.columns := by
    conv_rhs => rw [← List.map_id d.columns]
    refine List.map_congr_left fun c hc => ?_
    have same : c.references.map (·.retarget old new) = c.references := by
      conv_rhs => rw [← List.map_id c.references]
      refine List.map_congr_left fun r hr => ?_
      rw [Reference.retarget, avoids c hc r hr]
      rfl
    rw [ColumnDef.retarget, same]
    rfl
  rw [retarget, columns]

theorem Tidy.add {c : ColumnDef} (tidy : d.Tidy) (linked : c.Linked)
    (fresh : ∀ c' ∈ d.columns, sameIgnoringCase c'.name c.name = false) :
    Tidy { d with columns := d.columns ++ [c] } := by
  refine ⟨List.pairwise_append.mpr ⟨tidy.distinct, List.pairwise_singleton _ _,
    fun c' hc' e he => ?_⟩, fun part hpart => ?_, fun c' hc' => ?_⟩
  · cases List.mem_singleton.mp he
    exact fresh c' hc'
  · obtain ⟨c', hc', same⟩ := tidy.keyed part hpart
    exact ⟨c', List.mem_append_left _ hc', same⟩
  · rcases List.mem_append.mp hc' with old | new
    · exact tidy.linked c' old
    · cases List.mem_singleton.mp new
      exact linked

theorem Tidy.retarget (tidy : d.Tidy) (old new : String) : (d.retarget old new).Tidy := by
  refine ⟨List.pairwise_map.mpr tidy.distinct, fun part hpart => ?_, fun c hc => ?_⟩
  · obtain ⟨c, hc, same⟩ := tidy.keyed part hpart
    exact ⟨c.retarget old new, List.mem_map_of_mem hc, same⟩
  · obtain ⟨c', hc', rfl⟩ := List.mem_map.mp hc
    exact (tidy.linked c' hc').retarget old new

end TableDef

end Sql

namespace Engine

/-- Definitions of tables with different names. -/
structure Tidy (ds : List TableDef) : Prop where
  apart : ds.Pairwise fun d e => sameIgnoringCase d.name e.name = false
  each : ∀ d ∈ ds, d.Tidy

namespace Tidy

variable {ds : List TableDef} {d e : TableDef}

/-- One name, one definition. -/
theorem eq_of_same (tidy : Tidy ds) (hd : d ∈ ds) (he : e ∈ ds)
    (same : sameIgnoringCase d.name e.name = true) : d = e := by
  have symmetric : Std.Symm fun d e : TableDef => sameIgnoringCase d.name e.name = false :=
    ⟨fun d e h => sameIgnoringCase_comm d.name e.name ▸ h⟩
  by_contra other
  rw [tidy.apart.forall hd he other] at same
  cases same

theorem apart_of_ne (tidy : Tidy ds) (hd : d ∈ ds) (he : e ∈ ds) (other : d.name ≠ e.name) :
    sameIgnoringCase d.name e.name = false := by
  rw [Bool.eq_false_iff]
  intro same
  rw [tidy.eq_of_same hd he same] at other
  exact other rfl

theorem add (tidy : Tidy ds) (new : d.Tidy)
    (fresh : ∀ e ∈ ds, sameIgnoringCase e.name d.name = false) : Tidy (ds ++ [d]) := by
  refine ⟨List.pairwise_append.mpr ⟨tidy.apart, List.pairwise_singleton _ _, fun e he d' hd => ?_⟩,
    fun e he => ?_⟩
  · cases List.mem_singleton.mp hd
    exact fresh e he
  · rcases List.mem_append.mp he with old | hd
    · exact tidy.each e old
    · cases List.mem_singleton.mp hd
      exact new

theorem filter (tidy : Tidy ds) (p : TableDef → Bool) : Tidy (ds.filter p) :=
  ⟨tidy.apart.filter p, fun d hd => tidy.each d (List.mem_of_mem_filter hd)⟩

end Tidy

/-- The definitions with another one for each of its name. -/
def replace (d' : TableDef) (ds : List TableDef) : List TableDef :=
  ds.map fun e => if sameIgnoringCase e.name d'.name then d' else e

section

variable {ds : List TableDef} {d d' e : TableDef}

theorem mem_replace (there : d ∈ ds) (same : sameIgnoringCase d.name d'.name = true) :
    d' ∈ replace d' ds :=
  List.mem_map.mpr ⟨d, there, if_pos same⟩

theorem mem_replace_of_ne (tidy : Tidy ds) (there : d ∈ ds)
    (same : sameIgnoringCase d.name d'.name = true) (he : e ∈ ds) (other : e ≠ d) :
    e ∈ replace d' ds := by
  refine List.mem_map.mpr ⟨e, he, if_neg fun h => other (tidy.eq_of_same he there ?_)⟩
  rw [sameIgnoringCase_comm, sameIgnoringCase_congr same, sameIgnoringCase_comm]
  exact h

/-- A definition in its own place changes nothing. -/
theorem replace_self (tidy : Tidy ds) (there : d ∈ ds) : replace d ds = ds := by
  conv_rhs => rw [← List.map_id ds]
  refine List.map_congr_left fun e he => ?_
  split
  · rename_i same
    exact (tidy.eq_of_same he there same).symm
  · rfl

/-- Of two definitions with one name the later one counts. -/
theorem replace_replace (same : d'.name = d.name) : replace d' (replace d ds) = replace d' ds := by
  rw [replace, replace, replace, List.map_map]
  refine List.map_congr_left fun e _ => ?_
  rw [Function.comp_apply, same]
  cases hit : sameIgnoringCase e.name d.name with
  | true => exact if_pos (sameIgnoringCase_refl d.name)
  | false => exact if_neg (Bool.eq_false_iff.mp hit)

theorem Tidy.replace (tidy : Tidy ds) (new : d'.Tidy) : Tidy (replace d' ds) := by
  refine ⟨List.pairwise_map.mpr (tidy.apart.imp fun {e f} apart => ?_), fun e he => ?_⟩
  · cases first : sameIgnoringCase e.name d'.name with
    | true =>
      cases second : sameIgnoringCase f.name d'.name with
      | true =>
        rw [sameIgnoringCase_congr first, sameIgnoringCase_comm, second] at apart
        cases apart
        | false => simp [second, sameIgnoringCase_comm d'.name]
    | false =>
      cases second : sameIgnoringCase f.name d'.name with
      | true => simp [first]
      | false => simpa [first, second] using apart
  · obtain ⟨e', he', rfl⟩ := List.mem_map.mp he
    split
    · exact new
    · exact tidy.each e' he'

end

/-- The definitions after a table has another name. -/
def renamed (d : TableDef) (old new : String) (ds : List TableDef) : List TableDef :=
  (ds.map fun e => if sameIgnoringCase e.name old then { d with name := new } else e).map
    (·.retarget old new)

theorem renamed_name (d e : TableDef) (old new : String) :
    ((if sameIgnoringCase e.name old then { d with name := new } else e).retarget old new).name =
      if sameIgnoringCase e.name old then new else e.name := by
  rw [TableDef.retarget]
  split <;> rfl

/-- A table that takes a name which no other table has, with the references to it. -/
theorem Tidy.renamed {ds : List TableDef} {d : TableDef} {old new : String} (tidy : Tidy ds)
    (there : d ∈ ds) (same : sameIgnoringCase d.name old = true)
    (fresh : ∀ e ∈ ds, sameIgnoringCase e.name old = false →
      sameIgnoringCase e.name new = false) :
    Tidy (renamed d old new ds) ∧
      ({ d with name := new } : TableDef).retarget old new ∈ renamed d old new ds ∧
      ∀ e ∈ ds, sameIgnoringCase e.name old = false →
        e.retarget old new ∈ renamed d old new ds := by
  have moved {e : TableDef} (he : e ∈ ds) :
      (if sameIgnoringCase e.name old then { d with name := new } else e).retarget old new ∈
        Engine.renamed d old new ds :=
    List.mem_map_of_mem (List.mem_map_of_mem he)
  refine ⟨⟨?_, fun e he => ?_⟩, ?_, fun e he other => ?_⟩
  · refine List.pairwise_map.mpr (List.pairwise_map.mpr (tidy.apart.imp_of_mem ?_))
    intro e f he hf apart
    rw [renamed_name, renamed_name]
    cases first : sameIgnoringCase e.name old with
    | true =>
      cases second : sameIgnoringCase f.name old with
      | true =>
        rw [sameIgnoringCase_congr first, sameIgnoringCase_comm, second] at apart
        cases apart
      | false =>
        rw [if_pos rfl, if_neg Bool.false_ne_true, sameIgnoringCase_comm]
        exact fresh f hf second
    | false =>
      cases second : sameIgnoringCase f.name old with
      | true =>
        rw [if_pos rfl, if_neg Bool.false_ne_true]
        exact fresh e he first
      | false =>
        rw [if_neg Bool.false_ne_true, if_neg Bool.false_ne_true]
        exact apart
  · obtain ⟨e', he', rfl⟩ := List.mem_map.mp he
    obtain ⟨before, member, rfl⟩ := List.mem_map.mp he'
    refine TableDef.Tidy.retarget ?_ old new
    split
    · exact ⟨(tidy.each d there).distinct, (tidy.each d there).keyed, (tidy.each d there).linked⟩
    · exact tidy.each before member
  · have own := moved there
    rwa [if_pos same] at own
  · have own := moved he
    rwa [other, if_neg Bool.false_ne_true] at own

namespace Database

variable {db db' : Database} {enforced : Bool} {outcome : Outcome} {name : String}

def definitions (db : Database) : List TableDef := db.tables.map (·.definition)

theorem definition_of_found {t : StoredTable} (found : db.table? name = some t) :
    t.definition ∈ db.definitions :=
  List.mem_map_of_mem (List.mem_of_find?_eq_some found)

theorem definition_of_table {t : StoredTable} (h : db.table name = .ok t) :
    t.definition ∈ db.definitions ∧ sameIgnoringCase t.definition.name name = true :=
  ⟨definition_of_found (table_ok h), table?_name (table_ok h)⟩

/-- A definition is that of the table of its name. -/
theorem table?_of_definition (tidy : Tidy db.definitions) {d : TableDef}
    (there : d ∈ db.definitions) :
    ∃ t, db.table? d.name = some t ∧ t.definition = d := by
  obtain ⟨t, ht, rfl⟩ := List.mem_map.mp there
  obtain ⟨first, found⟩ := table?_of_mem ht (sameIgnoringCase_refl t.name)
  exact ⟨first, found, tidy.eq_of_same (definition_of_found found) there (table?_name found)⟩

theorem definitions_put (t : StoredTable) :
    (db.put t).definitions = replace t.definition db.definitions := by
  rw [definitions, put, replace, definitions, List.map_map, List.map_map]
  exact List.map_congr_left fun old _ => apply_ite StoredTable.definition _ t old

/-- Columns that are looked at without complaint have different names, also from those before. -/
theorem checkColumns_ok {d : TableDef} {seen : List String} {keyed : Bool}
    {columns : List ColumnDef} (h : checkColumns d seen keyed columns = .ok ()) :
    (columns.Pairwise fun c c' => sameIgnoringCase c.name c'.name = false) ∧
      ∀ c ∈ columns, ∀ s ∈ seen, sameIgnoringCase c.name s = false := by
  induction columns generalizing seen keyed with
  | nil => exact ⟨.nil, List.forall_mem_nil _⟩
  | cons c columns ih =>
    rw [checkColumns] at h
    split at h
    · cases h
    · rename_i fresh
      split at h
      · cases h
      · split at h
        · cases h
        · obtain ⟨distinct, others⟩ := ih h
          refine ⟨List.pairwise_cons.mpr ⟨fun c' hc' => ?_, distinct⟩,
            List.forall_mem_cons.mpr ⟨fun s hs => ?_, fun c' hc' s hs => ?_⟩⟩
          · rw [sameIgnoringCase_comm]
            exact others c' hc' c.name List.mem_cons_self
          · simpa using List.any_eq_false.mp (Bool.eq_false_iff.mpr fresh) s hs
          · exact others c' hc' s (List.mem_cons_of_mem _ hs)

theorem unreserved_of_run {d : TableDef} (h : db.run enforced (.createTable d) = .ok (db', outcome)) :
    reserved d.name = false := by
  obtain ⟨_, created, -⟩ := Except.bind_eq_ok.mp h
  rw [create_eq] at created
  split at created
  · cases created
  · rename_i free
    exact Bool.eq_false_iff.mpr free

/-- A table that is created is there as it was declared, and nothing of its name was there. -/
theorem definitions_create {d : TableDef} (linked : ∀ c ∈ d.columns, c.Linked)
    (h : db.run enforced (.createTable d) = .ok (db', outcome)) :
    db'.definitions = db.definitions ++ [d.kept] ∧ d.kept.Tidy ∧
      ∀ e ∈ db.definitions, sameIgnoringCase e.name d.name = false := by
  obtain ⟨_, created, h⟩ := Except.bind_eq_ok.mp h
  cases h
  obtain ⟨absent, rfl, checked, keyed⟩ := create_ok created
  refine ⟨by simp [definitions, StoredTable.ofDefinition], ⟨(checkColumns_ok checked).1,
    fun part hpart => TableDef.index?_isSome.mp (keyed part hpart), fun c hc => ?_⟩, fun e he => ?_⟩
  · obtain ⟨c', hc', rfl⟩ := List.mem_map.mp hc
    exact linked c' hc'
  · obtain ⟨t, ht, rfl⟩ := List.mem_map.mp he
    exact Bool.eq_false_iff.mpr (List.find?_eq_none.mp absent t ht)

theorem definitions_drop (h : db.run enforced (.dropTable name) = .ok (db', outcome)) :
    db'.definitions = db.definitions.filter fun e => !sameIgnoringCase e.name name := by
  obtain ⟨_, -, h⟩ := Except.bind_eq_ok.mp h
  cases h
  rw [definitions, remove, definitions, List.filter_map]
  rfl

theorem definitions_add {c : ColumnDef}
    (h : db.run enforced (.addColumn name c) = .ok (db', outcome)) :
    ∃ d ∈ db.definitions, sameIgnoringCase d.name name = true ∧
      (∀ c' ∈ d.columns, sameIgnoringCase c'.name c.name = false) ∧
      db'.definitions = replace { d with columns := d.columns ++ [c] } db.definitions := by
  obtain ⟨t, found, h⟩ := Except.bind_eq_ok.mp h
  obtain ⟨t', added, h⟩ := Except.bind_eq_ok.mp h
  cases h
  obtain ⟨there, same⟩ := definition_of_table found
  obtain ⟨fresh, rfl⟩ := StoredTable.addColumn_ok added
  refine ⟨t.definition, there, same, fun c' hc' => ?_, definitions_put _⟩
  refine Bool.eq_false_iff.mpr fun taken => Bool.eq_false_iff.mp fresh ?_
  exact TableDef.index?_isSome.mpr ⟨c', hc', taken⟩

theorem definitions_copy (tidy : Tidy db.definitions) {fills : List (String × Fill Cell)}
    {source : String} (h : db.run enforced (.copyRows name fills source) = .ok (db', outcome)) :
    db'.definitions = db.definitions := by
  obtain ⟨⟨_, n⟩, copied, h⟩ := Except.bind_eq_ok.mp h
  cases h
  obtain ⟨t, t', from_, there, -, rfl, same, -⟩ := copyRows_ok copied
  rw [definitions_put, same]
  exact replace_self tidy (definition_of_found there)

theorem definitions_rename {new : String}
    (h : db.run enforced (.renameTable name new) = .ok (db', outcome)) :
    ∃ d ∈ db.definitions, sameIgnoringCase d.name name = true ∧
      (∀ e ∈ db.definitions, sameIgnoringCase e.name name = false →
        sameIgnoringCase e.name new = false) ∧
      db'.definitions = renamed d name new db.definitions := by
  obtain ⟨_, moved, h⟩ := Except.bind_eq_ok.mp h
  cases h
  obtain ⟨t, found, moved⟩ := Except.bind_eq_ok.mp moved
  obtain ⟨there, same⟩ := definition_of_table found
  split at moved
  · cases moved
  · rename_i free
    cases moved
    refine ⟨t.definition, there, same, fun e he other => ?_, ?_⟩
    · rw [Bool.eq_false_iff]
      intro taken
      obtain ⟨t', ht', rfl⟩ := List.mem_map.mp he
      obtain ⟨first, there'⟩ := table?_of_mem ht' taken
      have own : sameIgnoringCase first.name name = true := by simpa [there'] using free
      have one : sameIgnoringCase t'.definition.name first.name = true := by
        rw [sameIgnoringCase_congr taken, sameIgnoringCase_comm]
        exact table?_name there'
      rw [sameIgnoringCase_congr one, own] at other
      cases other
    · simp only [definitions, renamed, List.map_map]
      refine List.map_congr_left fun other _ => ?_
      cases hit : sameIgnoringCase other.definition.name name with
      | true => simp only [Function.comp_apply, StoredTable.name, hit, if_true]; rfl
      | false =>
        simp only [Function.comp_apply, StoredTable.name, hit, Bool.false_eq_true, if_false]; rfl

theorem definitions_insert (tidy : Tidy db.definitions) {columns : List String}
    {rows : List (List Cell)} {returning : Option String}
    (h : db.run enforced (.insert name columns rows returning) = .ok (db', outcome)) :
    db'.definitions = db.definitions := by
  obtain ⟨⟨_, t', written⟩, inserted, h⟩ := Except.bind_eq_ok.mp h
  cases h
  obtain ⟨t, there, rfl, same, -⟩ := insertRows_ok inserted
  rw [definitions_put, same]
  exact replace_self tidy (definition_of_found there)

theorem definitions_update (tidy : Tidy db.definitions) {sets : List (String × Cell)}
    {filter : Option (Sql.Expr Cell)}
    (h : db.run enforced (.update name sets filter) = .ok (db', outcome)) :
    db'.definitions = db.definitions := by
  obtain ⟨⟨_, n⟩, updated, h⟩ := Except.bind_eq_ok.mp h
  cases h
  obtain ⟨t, rows, there, rfl⟩ := updateRows_ok updated
  rw [definitions_put]
  exact replace_self tidy (definition_of_found there :)

theorem definitions_delete (tidy : Tidy db.definitions) {filter : Option (Sql.Expr Cell)}
    (h : db.run enforced (.delete name filter) = .ok (db', outcome)) :
    db'.definitions = db.definitions := by
  obtain ⟨⟨_, n⟩, deleted, h⟩ := Except.bind_eq_ok.mp h
  cases h
  obtain ⟨t, rows, there, rfl⟩ := deleteRows_ok deleted
  rw [definitions_put]
  exact replace_self tidy (definition_of_found there :)

/-- What a statement leaves of tidy definitions. -/
theorem tidy_run (tidy : Tidy db.definitions) {command : Command Cell} (plain : command.Plain)
    (h : db.run enforced command = .ok (db', outcome)) : Tidy db'.definitions := by
  cases command with
  | select columns source order page =>
    obtain ⟨rows, -, h⟩ := Except.bind_eq_ok.mp h
    cases h
    exact tidy
  | count source page =>
    obtain ⟨rows, -, h⟩ := Except.bind_eq_ok.mp h
    cases h
    exact tidy
  | echo operands =>
    cases operands with
    | nil => cases h
    | cons first rest =>
      cases h
      exact tidy
  | insert table columns rows returning => exact definitions_insert tidy h ▸ tidy
  | update table sets filter => exact definitions_update tidy h ▸ tidy
  | delete table filter => exact definitions_delete tidy h ▸ tidy
  | createTable d =>
    obtain ⟨definitions, new, fresh⟩ := definitions_create plain h
    rw [definitions]
    exact tidy.add new fresh
  | dropTable name =>
    rw [definitions_drop h]
    exact tidy.filter _
  | addColumn name c =>
    obtain ⟨d, there, -, fresh, definitions⟩ := definitions_add h
    rw [definitions]
    exact tidy.replace ((tidy.each d there).add plain fresh)
  | dropColumn name column => exact plain.elim
  | copyRows target fills source => exact definitions_copy tidy h ▸ tidy
  | renameTable name new =>
    obtain ⟨d, there, same, free, definitions⟩ := definitions_rename h
    rw [definitions]
    exact (tidy.renamed there same free).1

theorem tidy_runAll (tidy : Tidy db.definitions) {commands : List (Command Cell)}
    (plain : ∀ command ∈ commands, command.Plain) (h : db.runAll enforced commands = .ok db') :
    Tidy db'.definitions := by
  induction commands generalizing db with
  | nil =>
    cases h
    exact tidy
  | cons command commands ih =>
    obtain ⟨next, outcome, first, rest⟩ := runAll_cons_ok h
    obtain ⟨own, others⟩ := List.forall_mem_cons.mp plain
    exact ih (tidy_run tidy own first) others rest

end Database

end Engine

end EntityStore
