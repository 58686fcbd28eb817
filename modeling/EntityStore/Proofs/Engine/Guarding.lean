import EntityStore.Proofs.Engine.Keys
import EntityStore.Proofs.Engine.ReadBack

namespace EntityStore

/-- Whether a step makes a table anew. -/
def Step.rebuilds (table : String) : Step → Bool
  | .rebuildTable t _ => t.name == table
  | _ => false

namespace Engine

open Planner (Treated added dropped)
open Sql (TableDef)
open Text (sameIgnoringCase sameIgnoringCase_comm sameIgnoringCase_congr sameIgnoringCase_refl)

namespace StoredTable

/-- A table goes on giving out keys where it was. -/
structure Continues (column : String) (i : Nat) (t t' : StoredTable) : Prop where
  name : t'.name = t.name
  before : t.definition.Guards column i
  after : t'.definition.Guards column i
  rowKey : t'.definition.rowKey? = t.definition.rowKey?
  sequence : t'.sequence = t.sequence

variable {column : String} {i : Nat} {t t' t'' : StoredTable}

theorem Continues.refl (guards : t.definition.Guards column i) : t.Continues column i t :=
  ⟨rfl, guards, guards, rfl, rfl⟩

theorem Continues.trans (h : t.Continues column i t') (h' : t'.Continues column i t'') :
    t.Continues column i t'' :=
  ⟨h'.name.trans h.name, h.before, h'.after, h'.rowKey.trans h.rowKey,
    h'.sequence.trans h.sequence⟩

section Unlinked

variable (same : t'.unlinked = t.unlinked)
include same

theorem definition_of_unlinked : t'.definition.unlinked = t.definition.unlinked :=
  congrArg StoredTable.definition same

theorem name_of_unlinked : t'.name = t.name :=
  congrArg (·.name) (definition_of_unlinked same)

theorem rowKey?_of_unlinked : t'.definition.rowKey? = t.definition.rowKey? := by
  rw [← TableDef.rowKey?_unlinked, definition_of_unlinked same, TableDef.rowKey?_unlinked]

theorem sequence_of_unlinked : t'.sequence = t.sequence :=
  congrArg (·.sequence) same

theorem guards_of_unlinked :
    t'.definition.Guards column i ↔ t.definition.Guards column i := by
  rw [← TableDef.guards_unlinked, definition_of_unlinked same, TableDef.guards_unlinked]

theorem continues_of_unlinked (guards : t.definition.Guards column i) :
    t.Continues column i t' :=
  ⟨name_of_unlinked same, guards, (guards_of_unlinked same).mpr guards, rowKey?_of_unlinked same,
    sequence_of_unlinked same⟩

end Unlinked

theorem continues_of_addColumn {c : Sql.ColumnDef} (guards : t.definition.Guards column i)
    (tidy : t.definition.Tidy) (plain : c.primaryKey = false) (h : t.addColumn c = .ok t') :
    t.Continues column i t' := by
  obtain ⟨-, rfl⟩ := addColumn_ok h
  have one : ∀ c' ∈ [c], c'.primaryKey = false := List.forall_mem_singleton.mpr plain
  exact ⟨rfl, guards, guards.append tidy one, TableDef.rowKey?_append tidy one, rfl⟩

/-- The integers that a table has in a column. -/
def keysIn (t : StoredTable) (column : String) : List Int :=
  match t.definition.index? column with
  | some i => t.rows.filterMap fun row =>
    match cellAt row i with
    | .int n => some n
    | _ => none
  | none => []

theorem mem_keysIn (place : t.definition.index? column = some i) {n : Int} :
    n ∈ t.keysIn column ↔ ∃ row ∈ t.rows, cellAt row i = .int n := by
  rw [keysIn, place, List.mem_filterMap]
  refine exists_congr fun row => and_congr_right fun _ => ?_
  cases cellAt row i <;> simp

theorem keysIn_of_unlinked (same : t'.unlinked = t.unlinked) :
    t'.keysIn column = t.keysIn column := by
  have rows : t'.rows = t.rows := congrArg (·.rows) same
  rw [keysIn, keysIn, ← TableDef.index?_unlinked, definition_of_unlinked same,
    TableDef.index?_unlinked, rows]

end StoredTable

variable {enforced : Bool} {db db' : Database} {t : StoredTable} {table column : String} {i : Nat}

/-- New columns are no matter of keys. -/
theorem ran_adds_keys {columns : List Column} (plain : ∀ c ∈ columns, c.primaryKey = false)
    (tidy : Tidy db.definitions) (there : db.table? table = some t)
    (guards : t.definition.Guards column i)
    (h : Ran enforced db (columns.map (.addColumn table)) db') :
    ∃ t', db'.table? table = some t' ∧ t.Continues column i t' := by
  induction columns generalizing db t with
  | nil =>
    rw [h.nil]
    exact ⟨t, there, .refl guards⟩
  | cons c columns ih =>
    obtain ⟨mid, first, rest⟩ := h.cons
    obtain ⟨own, later⟩ := List.forall_mem_cons.mp plain
    have tidy' := first.tidy tidy (by simp)
    obtain ⟨commands, cells, written, encoded, ran⟩ := first.single
    cases written
    cases encoded
    obtain ⟨outcome, ran⟩ := run_single ran
    obtain ⟨t₀, found, ran⟩ := Except.bind_eq_ok.mp ran
    obtain ⟨t₁, add, ran⟩ := Except.bind_eq_ok.mp ran
    cases ran
    obtain rfl := Option.some.inj (there.symm.trans (Database.table_ok found))
    have known := tidy.each t.definition (Database.definition_of_table found).1
    have next : t.Continues column i t₁ :=
      StoredTable.continues_of_addColumn guards known (by simp [Column.definition, own]) add
    have named : sameIgnoringCase t₁.name table = true := next.name ▸ Database.table?_name there
    obtain ⟨t', there', continues⟩ :=
      ih later tidy' (Database.table?_put named there) next.after rest
    exact ⟨t', there', next.trans continues⟩

/-- A guarded column is read as one that is never null. -/
theorem readTable_required {d : TableDef} (tidy : d.Tidy) (guards : d.Guards column i) :
    ∃ old, (readTable d).column? column = some old ∧ old.nullable = false := by
  obtain ⟨c, there, rfl, required⟩ := guards.named
  have member : readColumn d c ∈ (readTable d).columns :=
    List.mem_map_of_mem (List.mem_of_getElem? there)
  refine ⟨_, Table.column?_of_mem (readTable_nodup tidy) member, ?_⟩
  change (!c.notNull && !isKey d c) = false
  by_cases key : d.rowKey? = some i
  · have part : inKey d i = true := by
      unfold TableDef.rowKey? at key
      split at key
      · rename_i j same
        split at key <;> cases key
        rw [inKey, same]
        simp
      · cases key
    rw [← inKey_eq tidy there, part, Bool.not_true, Bool.and_false]
  · rw [required key, Bool.not_true, Bool.false_and]

/-- How the keys of a table go on: where they were, or after a rebuild above the keys that the rows
had. -/
inductive Resumes (rebuilt : Bool) (column : String) (t t' : StoredTable) : Prop
  | kept (i : Nat) : rebuilt = false → t.Continues column i t' → Resumes rebuilt column t t'
  | anew (i : Nat) : rebuilt = true → t'.name = t.name → t'.definition.Guards column i →
      (t'.definition.rowKey? = some i → ∀ n ∈ t.keysIn column, n ≤ t'.sequence) →
      Resumes rebuilt column t t'

namespace Resumes

variable {rebuilt : Bool} {t₁ t₂ t' : StoredTable}

theorem guards (h : Resumes rebuilt column t t') : ∃ i, t'.definition.Guards column i := by
  cases h with
  | kept i _ continues => exact ⟨i, continues.after⟩
  | anew i _ _ guards _ => exact ⟨i, guards⟩

theorem name (h : Resumes rebuilt column t t') : t'.name = t.name := by
  cases h with
  | kept i _ continues => exact continues.name
  | anew i _ name _ _ => exact name

/-- What links do to a table before and after is no matter of keys. -/
theorem around (first : t₁.unlinked = t.unlinked) (h : Resumes rebuilt column t₁ t₂)
    (last : t'.unlinked = t₂.unlinked) : Resumes rebuilt column t t' := by
  cases h with
  | kept i none continues =>
    have first := StoredTable.continues_of_unlinked first
      ((StoredTable.guards_of_unlinked first).mp continues.before)
    have last := StoredTable.continues_of_unlinked last continues.after
    exact .kept i none ((first.trans continues).trans last)
  | anew i made name guards above =>
    have last := StoredTable.continues_of_unlinked last guards
    refine .anew i made ((last.name.trans name).trans (StoredTable.name_of_unlinked first))
      last.after fun key n hn => ?_
    rw [last.sequence]
    rw [← StoredTable.keysIn_of_unlinked first] at hn
    exact above (last.rowKey.symm.trans key) n hn

end Resumes

/-- The table of a name is called so, letter by letter, and guards a column, if it is there. -/
def Guarded (db : Database) (table column : String) : Prop :=
  ∀ t, db.table? table = some t → t.name = table ∧ ∃ i, t.definition.Guards column i

variable {p : Planner} {expected actual : Schema} {u : Table} {c : Column} {steps : List Step}

/-- The steps for a guarded table that is there. -/
theorem ran_own_keys (fixed : p.dropsColumns = false) (wanted : Expected u) (hc : c ∈ u.columns)
    (generated : c.Generated) (some : expected.table? u.name = some u)
    (treated : Treated p expected actual u.name steps)
    (known : ∀ current, actual.table? u.name = Option.some current →
      ∃ old, current.column? c.name = Option.some old ∧ old.nullable = false)
    (tidy : Tidy db.definitions) (there : db.table? u.name = Option.some t)
    (name : t.name = u.name) (guards : t.definition.Guards c.name i)
    (h : Ran enforced db steps db') :
    ∃ t', db'.table? u.name = Option.some t' ∧
      Resumes (steps.any (Step.rebuilds u.name)) c.name t t' := by
  cases treated with
  | unexpected none =>
    rw [some] at none
    cases none
  | created t₀ some' none =>
    obtain ⟨commands, cells, written, encoded, ran⟩ := h.single
    obtain ⟨command, made, rfl⟩ := Except.map_eq_ok.mp written
    cases Table.create_ok made
    cases encoded
    obtain ⟨outcome, ran⟩ := run_single ran
    obtain rfl := Option.some.inj (some.symm.trans some')
    have other := (Database.run_create ran there).2.2
    rw [Table.definition, sameIgnoringCase_refl] at other
    cases other
  | rebuilt t₀ current copies some' found rules =>
    obtain rfl := Option.some.inj (some.symm.trans some')
    obtain ⟨old, old_known, required⟩ := known current found
    obtain ⟨t', j, there', name', guards', least⟩ :=
      ran_rebuild_keys wanted hc generated rules old_known required there guards.place h
    refine ⟨t', there', .anew j (by simp [Step.rebuilds]) (name'.trans name.symm) guards' ?_⟩
    intro key n hn
    obtain ⟨row, hrow, own⟩ := (StoredTable.mem_keysIn guards.place).mp hn
    exact least key row hrow n own
  | altered t₀ current some' found keep =>
    obtain rfl := Option.some.inj (some.symm.trans some')
    rw [dropped_nil fixed keep, List.map_nil, List.append_nil] at h
    obtain ⟨t', there', continues⟩ :=
      ran_adds_keys (fun c' hc' => Planner.plain_of_kept keep (.inl hc')) tidy there guards h
    exact ⟨t', there', .kept i (by simp [Step.rebuilds]) continues⟩

/-- Tables that are read have another name than a guarded one, whatever the case of the letters. -/
theorem apart_of_read (guarded : Guarded db table column) (tidy : Tidy db.definitions)
    (read : ∀ name current, actual.table? name = some current →
      ∃ d ∈ db.definitions, d.name = name ∧ readTable d = current) {name : String} {current : Table}
    (found : actual.table? name = some current) (other : name ≠ table) :
    sameIgnoringCase name table = false := by
  rw [Bool.eq_false_iff]
  intro same
  obtain ⟨d, there, rfl, -⟩ := read name current found
  obtain ⟨stored, here, rfl⟩ := Database.table?_of_definition tidy there
  rw [Database.table?_congr same] at here
  exact other (guarded stored here).1

theorem not_rebuilds_of_spares (spared : ∀ step ∈ steps, Spares table step) :
    steps.any (Step.rebuilds table) = false := by
  rw [List.any_eq_false]
  intro step hstep rebuilds
  cases step with
  | rebuildTable t copies =>
    rcases spared _ hstep with ⟨u, same⟩ | other
    · cases same
    · have same : t.name = table := beq_iff_eq.mp rebuilds
      rw [Step.table, same, sameIgnoringCase_refl] at other
      cases other
  | _ => cases rebuilds

/-- The steps for other tables spare one whose name is told apart from theirs. -/
theorem spares_of_treated (named : expected.Named)
    (apart : ∀ name current, actual.table? name = some current → name ≠ table →
      sameIgnoringCase name table = false) {name : String} (other : name ≠ table)
    (treated : Treated p expected actual name steps) : ∀ step ∈ steps, Spares table step := by
  cases treated with
  | unexpected none => exact List.forall_mem_nil _
  | created t some none => exact List.forall_mem_singleton.mpr (.inl ⟨t, rfl⟩)
  | rebuilt t current copies some found rules =>
    obtain rfl := named name t some
    exact List.forall_mem_singleton.mpr (.inr (apart t.name current found other))
  | altered t current some found keep =>
    obtain rfl := named name t some
    have own := apart t.name current found other
    intro step hstep
    rcases List.mem_append.mp hstep with add | drop
    · obtain ⟨c, -, rfl⟩ := List.mem_map.mp add
      exact .inr own
    · obtain ⟨c, -, rfl⟩ := List.mem_map.mp drop
      exact .inr own

/-- The steps for one expected table stand together in a plan, and all others spare it. -/
theorem plan_around (named : expected.Named) {plan : Plan}
    (planned : p.plan expected actual = .ok plan) (some : expected.table? table = Option.some u)
    (apart : ∀ name current, actual.table? name = Option.some current → name ≠ table →
      sameIgnoringCase name table = false) :
    ∃ early own late, plan = early ++ (own ++ late) ∧ Treated p expected actual table own ∧
      (∀ step ∈ early, Spares table step) ∧ ∀ step ∈ late, Spares table step := by
  obtain ⟨steps, treated, rfl⟩ := Planner.plan_ok planned
  have listed : table ∈ TableOrder.all expected actual :=
    TableOrder.mem_all.mpr (.inl (some ▸ rfl))
  obtain ⟨before, after, split⟩ := List.append_of_mem listed
  have distinct := TableOrder.all_nodup expected actual
  rw [split] at distinct treated ⊢
  obtain ⟨-, right, disjoint⟩ := List.nodup_append.mp distinct
  have others {names : List String} (part : ∀ name ∈ names, name ∈ before ++ table :: after)
      (away : ∀ name ∈ names, name ≠ table) : ∀ step ∈ names.flatMap steps, Spares table step := by
    intro step hstep
    obtain ⟨name, hn, hstep⟩ := List.mem_flatMap.mp hstep
    exact spares_of_treated named apart (away name hn) (treated name (part name hn)) step hstep
  refine ⟨(p.unknownTables expected actual).map .dropTable ++ before.flatMap steps, steps table,
    after.flatMap steps, ?_, treated table (by simp), fun step hstep => ?_, ?_⟩
  · rw [List.flatMap_append, List.flatMap_cons, List.append_assoc]
  · rcases List.mem_append.mp hstep with drop | own
    · obtain ⟨name, hn, rfl⟩ := List.mem_map.mp drop
      obtain ⟨-, none, known⟩ := Planner.mem_unknownTables.mp hn
      obtain ⟨current, found⟩ := Option.isSome_iff_exists.mp known
      refine .inr (apart name current found fun same => ?_)
      rw [same, some] at none
      cases none
    · refine others (fun name hn => List.mem_append_left _ hn) (fun name hn same => ?_) step own
      exact disjoint name hn table List.mem_cons_self same
  · refine others (fun name hn => List.mem_append_right _ (List.mem_cons_of_mem _ hn)) ?_
    rintro name hn rfl
    exact (List.nodup_cons.mp right).1 hn

/-- A table that is created with a generated key guards it. -/
theorem ran_create_keys (wanted : Expected u) (hc : c ∈ u.columns) (generated : c.Generated)
    (h : Ran enforced db [.createTable u] db') :
    ∃ t', db'.table? u.name = some t' ∧ t'.name = u.name ∧ ∃ i, t'.definition.Guards c.name i := by
  obtain ⟨-, tidy, -⟩ := ran_create wanted h
  obtain ⟨i, guards⟩ := guards_definition tidy hc generated
  obtain ⟨commands, cells, written, encoded, ran⟩ := h.single
  obtain ⟨command, made, rfl⟩ := Except.map_eq_ok.mp written
  cases Table.create_ok made
  cases encoded
  obtain ⟨outcome, ran⟩ := run_single ran
  obtain ⟨_, created, ran⟩ := Except.bind_eq_ok.mp ran
  cases ran
  obtain ⟨absent, rfl, -⟩ := Database.create_ok created
  rw [kept_definition wanted]
  refine ⟨.ofDefinition (u.definition .sqlite u.name), ?_, rfl, i, guards⟩
  have own : sameIgnoringCase (StoredTable.ofDefinition (u.definition .sqlite u.name)).name u.name =
      true := sameIgnoringCase_refl u.name
  rw [Database.table?_add, own, if_pos rfl]
  exact (congrArg (Option.or · _) absent).trans (Option.none_or)

/-- The steps for a table that is not there make one that guards its generated key. -/
theorem ran_new_keys (some : expected.table? u.name = Option.some u) (wanted : Expected u)
    (hc : c ∈ u.columns) (generated : c.Generated)
    (treated : Treated p expected actual u.name steps)
    (absent : ∀ current, actual.table? u.name ≠ Option.some current)
    (h : Ran enforced db steps db') :
    ∃ t', db'.table? u.name = Option.some t' ∧ t'.name = u.name ∧
      ∃ i, t'.definition.Guards c.name i := by
  cases treated with
  | unexpected none =>
    rw [some] at none
    cases none
  | created t some' none =>
    obtain rfl := Option.some.inj (some.symm.trans some')
    exact ran_create_keys wanted hc generated h
  | rebuilt t current copies some' found rules => exact absurd found (absent current)
  | altered t current some' found keep => exact absurd found (absent current)

/-- A plan that asks for a table with a generated key leaves one that guards it. If there was one
before, its keys go on. -/
theorem ran_plan_keys (named : expected.Named) (fixed : p.dropsColumns = false) {plan : Plan}
    (planned : p.plan expected actual = .ok plan) (tidy : Tidy db.definitions)
    (read : ∀ name current, actual.table? name = some current →
      ∃ d ∈ db.definitions, d.name = name ∧ readTable d = current)
    (some : expected.table? u.name = Option.some u) (wanted : Expected u) (hc : c ∈ u.columns)
    (generated : c.Generated) (guarded : Guarded db u.name c.name)
    (h : Ran enforced db plan db') :
    ∃ t', db'.table? u.name = Option.some t' ∧ t'.name = u.name ∧
      (∃ i, t'.definition.Guards c.name i) ∧
      ∀ t, db.table? u.name = Option.some t →
        Resumes (plan.any (Step.rebuilds u.name)) c.name t t' := by
  have keeps := keeps_columns_plan fixed planned
  obtain ⟨early, own, late, rfl, treated, spared, spared'⟩ :=
    plan_around named planned some fun _ _ => apart_of_read guarded tidy read
  obtain ⟨mid, ran_early, rest⟩ := h.append
  obtain ⟨mid', ran_own, ran_late⟩ := rest.append
  have known {current : Table} (found : actual.table? u.name = Option.some current) :
      ∃ t, db.table? u.name = Option.some t ∧ readTable t.definition = current := by
    obtain ⟨d, there, name, same⟩ := read u.name current found
    obtain ⟨t, here, rfl⟩ := Database.table?_of_definition tidy there
    exact ⟨t, name ▸ here, same⟩
  cases there : db.table? u.name with
  | none =>
    have absent : ∀ current, actual.table? u.name ≠ Option.some current := by
      intro current found
      obtain ⟨t, here, -⟩ := known found
      rw [there] at here
      cases here
    obtain ⟨t₂, there₂, name₂, i, guards⟩ :=
      ran_new_keys some wanted hc generated treated absent ran_own
    obtain ⟨t', there', same⟩ := ran_elsewhere_all spared' there₂ ran_late
    have continues := StoredTable.continues_of_unlinked same guards
    refine ⟨t', there', continues.name.trans name₂, ⟨i, continues.after⟩, fun t none => ?_⟩
    cases none
  | some t =>
    obtain ⟨name, i, guards⟩ := guarded t there
    obtain ⟨t₁, there₁, same₁⟩ := ran_elsewhere_all spared there ran_early
    have first := StoredTable.continues_of_unlinked same₁ guards
    have tidy₁ := ran_early.tidy tidy fun table column drop =>
      keeps table column (List.mem_append_left _ drop)
    have column_known : ∀ current, actual.table? u.name = Option.some current →
        ∃ old, current.column? c.name = Option.some old ∧ old.nullable = false := by
      intro current found
      obtain ⟨t₀, here, rfl⟩ := known found
      obtain rfl := Option.some.inj (there.symm.trans here)
      exact readTable_required (tidy.each _ (Database.definition_of_found there)) guards
    obtain ⟨t₂, there₂, resumes⟩ := ran_own_keys fixed wanted hc generated some treated column_known
      tidy₁ there₁ (first.name.trans name) first.after ran_own
    obtain ⟨t', there', same₂⟩ := ran_elsewhere_all spared' there₂ ran_late
    have after : Resumes ((early ++ (own ++ late)).any (Step.rebuilds u.name)) c.name t t' := by
      rw [List.any_append, List.any_append, not_rebuilds_of_spares spared,
        not_rebuilds_of_spares spared', Bool.false_or, Bool.or_false]
      exact resumes.around same₁ same₂
    refine ⟨t', there', after.name.trans name, after.guards, fun t₀ here => ?_⟩
    obtain rfl := Option.some.inj here
    exact after

end Engine

end EntityStore
