import Mathlib
import EntityStore.Migration.Ddl
import EntityStore.Proofs.Engine.Reading
import EntityStore.Proofs.Migration.Target

namespace EntityStore

open Sql (TableDef)
open Schema (ofEntities_ok)
open Text (sameIgnoringCase sameIgnoringCase_comm sameIgnoringCase_congr sameIgnoringCase_refl
  foldCase upperCase)

/-- A column as far as it is compared. -/
def Column.bare (c : Column) : Column := { c with fieldType := none, autoIncrement := false }

theorem Column.agrees_bare {c c' : Column} : c.Agrees c'.bare ↔ c.Agrees c' :=
  ⟨fun h => ⟨h.name, h.sqlType, h.nullable, h.primaryKey, h.references⟩,
    fun h => ⟨h.name, h.sqlType, h.nullable, h.primaryKey, h.references⟩⟩

/-- No reference of a table names another one. -/
def Table.Spares (t : Table) (table : String) : Prop :=
  ∀ c ∈ t.columns, ∀ f ∈ c.references, sameIgnoringCase f.table table = false

instance (t : Table) (table : String) : Decidable (t.Spares table) := by
  unfold Table.Spares
  exact inferInstance

/-- Tables agree as far as their columns are compared. -/
theorem Table.agrees_of_bare {t t' : Table} (agrees : t.Agrees t') {t'' : Table}
    (name : t''.name = t'.name) (bare : t''.columns.map Column.bare = t'.columns.map Column.bare) :
    t.Agrees t'' := by
  have names : t''.columns.map (·.name) = t'.columns.map (·.name) := by
    have forget (cs : List Column) : (cs.map Column.bare).map (·.name) = cs.map (·.name) := by
      rw [List.map_map]
      rfl
    rw [← forget, bare, forget]
  refine ⟨name.trans agrees.name, names ▸ agrees.distinct, fun c hc => ?_, fun c'' hc'' => ?_⟩
  · obtain ⟨c', hc', same⟩ := agrees.covered c hc
    obtain ⟨c'', hc'', equal⟩ := List.mem_map.mp (bare ▸ List.mem_map_of_mem hc')
    exact ⟨c'', hc'', Column.agrees_bare.mp (equal ▸ Column.agrees_bare.mpr same)⟩
  · obtain ⟨c', hc', equal⟩ := List.mem_map.mp (bare ▸ List.mem_map_of_mem hc'')
    obtain ⟨c, hc, same⟩ := agrees.covers c' hc'
    exact ⟨c, hc, Column.agrees_bare.mp (equal ▸ Column.agrees_bare.mpr same)⟩

namespace Engine

/-- The types that columns are declared with. -/
def declaredTypes : List String := ["TEXT", "INTEGER", "REAL", "BLOB"]

theorem mem_declaredTypes {type : FieldType} {s : String}
    (h : TypeMap.sqlite.columnType type = .ok s) : s ∈ declaredTypes := by
  cases type <;> cases h <;> decide

/-- These types are kept and reported as they are declared. -/
theorem reportedType_declared {s : String} (h : s ∈ declaredTypes) :
    TableDef.bareType s = s ∧ reportedType s = s := by
  have each : ∀ s ∈ declaredTypes, TableDef.bareType s = s ∧ reportedType s = s := by
    decide +kernel
  exact each s h

theorem upperCase_foldCase (s : String) : upperCase (foldCase s) = upperCase s := by
  simp only [upperCase, foldCase, String.toList_ofList, List.map_map]
  refine congrArg String.ofList (List.map_congr_left fun c _ => ?_)
  exact Char.toUpper_toLower_eq_toUpper c

/-- A reported type that differs from one of these at most in case is that type. -/
theorem reportedType_exact {type s : String} (declared : s ∈ declaredTypes)
    (same : sameIgnoringCase s (reportedType type) = true) : reportedType type = s := by
  have fold : foldCase s = foldCase (reportedType type) := by
    simpa [sameIgnoringCase] using same
  have upper : ∀ s ∈ declaredTypes, upperCase s = s ∧ standardTypes.contains s = true := by
    decide +kernel
  have apart : ∀ u ∈ standardTypes, ∀ s ∈ declaredTypes, foldCase s = foldCase u → u = s := by
    decide +kernel
  unfold reportedType at fold ⊢
  split at fold
  · rename_i standard
    rw [if_pos standard]
    exact apart _ (List.contains_iff_mem.mp standard) s declared fold
  · rename_i other
    refine absurd ?_ other
    rw [← upperCase_foldCase, ← fold, upperCase_foldCase, (upper s declared).1]
    exact (upper s declared).2

/-- A table of a schema that entities ask for. -/
structure Expected (t : Table) : Prop where
  types : ∀ c ∈ t.columns, c.sqlType ∈ declaredTypes
  keys : ∀ c ∈ t.columns, c.primaryKey = true → c.nullable = false

/-- A schema that entities ask for. -/
structure Wanted (expected : Schema) : Prop where
  named : expected.Named
  distinct : expected.Distinct
  each : ∀ name t, expected.table? name = some t → Expected t

theorem expected_of_entity {e : Entity} {t : Table} (h : Table.ofEntity e .sqlite = .ok t) :
    Expected t := by
  refine ⟨fun c hc => ?_, fun c hc key => ?_⟩
  · obtain ⟨f, -, known, -⟩ := Table.column_of_field h hc
    exact mem_declaredTypes known
  · obtain ⟨f, -, -, own⟩ := Table.column_of_field h hc
    rw [own] at key ⊢
    have key : f.primaryKey = true := key
    simp [Column.ofField, key]

theorem wanted_of_entities {entities : List Entity}
    (distinct : ∀ e ∈ entities, (e.fields.map (·.column)).Nodup) {expected : Schema}
    (h : Schema.ofEntities entities .sqlite = .ok expected) : Wanted expected := by
  refine ⟨fun name t some => (ofEntities_ok h some).1, fun name t some => ?_, fun name t some => ?_⟩
  · obtain ⟨-, e, he, made⟩ := ofEntities_ok h some
    rw [Table.ofEntity_columns made]
    exact distinct e he
  · obtain ⟨-, e, -, made⟩ := ofEntities_ok h some
    exact expected_of_entity made

variable {t : Table} {name : String} {d : TableDef}

theorem linked_definition (c : Column) (composite : Bool) :
    (c.definition .sqlite composite).Linked := by
  cases references : c.references with
  | none => exact .inl (by simp [Column.definition, references])
  | some f => exact .inr ⟨f.table, f.column, by simp [Column.definition, references]⟩

/-- A column is read as it was declared once it is known to be in the key or not. -/
theorem readColumn_definition {c : Column} (type : c.sqlType ∈ declaredTypes)
    (key : c.primaryKey = true → c.nullable = false) (composite : Bool)
    (part : isKey d (c.definition .sqlite composite) = c.primaryKey) :
    (readColumn d (c.definition .sqlite composite)).bare = c.bare := by
  have nullable : (!(c.definition .sqlite composite).notNull && !c.primaryKey) = c.nullable := by
    cases pk : c.primaryKey with
    | true => simp [key pk]
    | false => simp [Column.definition, pk]
  have references : (c.definition .sqlite composite).references.head?.map readReference =
      c.references := by
    cases target : c.references <;> simp [Column.definition, target, readReference]
  obtain ⟨-, reported⟩ := reportedType_declared type
  simp only [readColumn, Column.bare, part, nullable, references]
  rw [show (c.definition .sqlite composite).type = c.sqlType from rfl, reported]
  rfl

theorem kept_definition (expected : Expected t) (name : String) :
    (t.definition .sqlite name).kept = t.definition .sqlite name := by
  have columns : (t.definition .sqlite name).columns.map
      (fun c => { c with type := TableDef.bareType c.type }) =
        (t.definition .sqlite name).columns := by
    conv_rhs => rw [← List.map_id (t.definition .sqlite name).columns]
    refine List.map_congr_left fun c hc => ?_
    obtain ⟨c', hc', rfl⟩ := List.mem_map.mp hc
    have kept := (reportedType_declared (expected.types c' hc')).1
    simp only [Column.definition, kept, id]
  rw [TableDef.kept, columns]

/-- The key of a table is declared with its only column or after the columns, for the database the
same. -/
theorem isKey_definition (tidy : (t.definition .sqlite name).Tidy) {c : Column}
    (hc : c ∈ t.columns) :
    isKey (t.definition .sqlite name) (c.definition .sqlite (1 < t.primaryKey.length)) =
      c.primaryKey := by
  rw [Bool.eq_iff_iff, isKey, Bool.or_eq_true, List.any_eq_true]
  by_cases composite : 1 < t.primaryKey.length
  · have after : (t.definition .sqlite name).key = t.primaryKey.map (·.name) := by
      simp [Table.definition, composite]
    simp only [Column.definition, composite, after, decide_true, Bool.not_true, Bool.and_false,
      Bool.false_eq_true, false_or]
    constructor
    · rintro ⟨part, hpart, same⟩
      obtain ⟨c', hc', rfl⟩ := List.mem_map.mp hpart
      obtain ⟨there, key⟩ := List.mem_filter.mp hc'
      obtain ⟨i, hi⟩ := List.mem_iff_getElem?.mp hc
      obtain ⟨j, hj⟩ := List.mem_iff_getElem?.mp there
      have place {k : Nat} {c : Column} (h : t.columns[k]? = some c) :
          (t.definition .sqlite name).columns[k]? =
            some (c.definition .sqlite (1 < t.primaryKey.length)) := by
        rw [Table.definition, List.getElem?_map, h, Option.map_some]
      obtain rfl := column_unique tidy.distinct (place hi) (place hj) same
      rw [hi] at hj
      cases hj
      exact key
    · intro key
      exact ⟨c.name, List.mem_map_of_mem (List.mem_filter.mpr ⟨hc, key⟩), sameIgnoringCase_refl _⟩
  · simp [Table.definition, Column.definition, composite]

/-- What is created for a schema is read as the schema's table. -/
theorem readTable_definition (expected : Expected t) (tidy : (t.definition .sqlite name).Tidy) :
    (readTable (t.definition .sqlite name)).columns.map Column.bare =
      t.columns.map Column.bare := by
  rw [readTable, List.map_map]
  change (t.columns.map (Column.definition .sqlite (1 < t.primaryKey.length))).map _ = _
  rw [List.map_map]
  exact List.map_congr_left fun c hc => readColumn_definition (expected.types c hc)
    (expected.keys c hc) _ (isKey_definition tidy hc)

/-- A definition with more columns outside of the key. -/
def extended (d : TableDef) (columns : List Column) : TableDef :=
  { d with columns := d.columns ++ columns.map (Column.definition .sqlite false) }

/-- Columns that are added are read beside those that were there. -/
theorem readTable_extended (tidy : d.Tidy) {columns : List Column}
    (plain : ∀ c ∈ columns, c.primaryKey = false) (types : ∀ c ∈ columns, c.sqlType ∈ declaredTypes)
    (tidy' : (extended d columns).Tidy) :
    (readTable (extended d columns)).columns.map Column.bare =
      (readTable d).columns.map Column.bare ++ columns.map Column.bare := by
  rw [readTable, extended, List.map_append, List.map_append, List.map_map, List.map_map,
    List.map_map, readTable, List.map_map]
  refine congrArg₂ (· ++ ·) (List.map_congr_left fun c _ => ?_)
    (List.map_congr_left fun c hc => ?_)
  · simp only [Function.comp_apply, Column.bare, readColumn, isKey]
  · refine readColumn_definition (types c hc) (fun key => ?_) false ?_
    · rw [plain c hc] at key
      cases key
    · rw [plain c hc, isKey, Bool.or_eq_false_iff, List.any_eq_false]
      refine ⟨by simp [Column.definition, plain c hc], fun part hpart same => ?_⟩
      obtain ⟨c', hc', named⟩ := tidy.keyed part hpart
      have apart := (List.pairwise_append.mp tidy'.distinct).2.2 c' hc' _ (List.mem_map_of_mem hc)
      rw [sameIgnoringCase_congr named, sameIgnoringCase_comm, same] at apart
      cases apart

theorem names_nodup (tidy : d.Tidy) : (d.columns.map (·.name)).Nodup := by
  refine List.pairwise_map.mpr (tidy.distinct.imp fun {c c'} apart same => ?_)
  rw [same, sameIgnoringCase_refl] at apart
  cases apart

theorem readTable_nodup (tidy : d.Tidy) : ((readTable d).columns.map (·.name)).Nodup := by
  have names := names_nodup tidy
  rwa [readTable, List.map_map]

theorem agrees_created (expected : Expected t) (tidy : (t.definition .sqlite t.name).Tidy) :
    t.Agrees (readTable (t.definition .sqlite t.name)) := by
  have distinct : (t.columns.map (·.name)).Nodup := by
    have names := names_nodup tidy
    rwa [Table.definition, List.map_map] at names
  exact Table.agrees_of_bare (Table.agrees_refl distinct) rfl (readTable_definition expected tidy)

open Planner (added dropped needsRebuild)

variable {p : Planner}

/-- Where columns cannot be dropped in place, none is dropped from a table that is kept. -/
theorem dropped_nil {current : Table} (fixed : p.dropsColumns = false)
    (keep : p.needsRebuild t current = false) : dropped t current = [] := by
  simp only [needsRebuild, Bool.or_eq_false_iff] at keep
  refine List.eq_nil_iff_forall_not_mem.mpr fun c hc => ?_
  simpa [fixed] using List.any_eq_false.mp keep.2 c hc

/-- Every column of a table that is kept is an expected one. -/
theorem covers_of_kept {current : Table} (fixed : p.dropsColumns = false)
    (keep : p.needsRebuild t current = false) (distinct : (current.columns.map (·.name)).Nodup) :
    ∀ c' ∈ current.columns, ∃ c ∈ t.columns, c.Agrees c' := by
  intro c' hc'
  cases known : t.column? c'.name with
  | none =>
    have drop := Planner.mem_dropped.mpr ⟨hc', known⟩
    rw [dropped_nil fixed keep] at drop
    cases drop
  | some c =>
    obtain ⟨hc, name⟩ := Table.column?_eq_some known
    refine ⟨c, hc, Planner.agrees_of_kept keep hc ?_⟩
    rw [name]
    exact Table.column?_of_mem distinct hc'

theorem agrees_extended (expected : Expected t) (distinct : (t.columns.map (·.name)).Nodup)
    (tidy : d.Tidy) (name : d.name = t.name) (fixed : p.dropsColumns = false)
    (keep : p.needsRebuild t (readTable d) = false)
    (tidy' : (extended d (added t (readTable d))).Tidy) :
    t.Agrees (readTable (extended d (added t (readTable d)))) := by
  refine Table.agrees_of_bare
    (Planner.agrees_altered distinct (readTable_nodup tidy) name keep) rfl ?_
  have none : Planner.alteredColumns t (readTable d) =
      (readTable d).columns ++ added t (readTable d) := by
    simp [Planner.alteredColumns, dropped_nil fixed keep]
  rw [none, List.map_append]
  refine readTable_extended tidy (fun c hc => ?_) (fun c hc => ?_) tidy'
  · exact Planner.plain_of_kept keep (.inl hc)
  · exact expected.types c (Planner.mem_added.mp hc).1

theorem avoids_definition {table : String} (spares : t.Spares table) (name : String) :
    (t.definition .sqlite name).Avoids table := by
  intro c hc r hr
  obtain ⟨c', hc', rfl⟩ := List.mem_map.mp hc
  obtain ⟨f, hf, rfl⟩ := List.mem_map.mp hr
  exact spares c' hc' f (Option.mem_toList.mp hf)

/-- A definition points where its table does. -/
theorem avoids_of_covers (tidy : d.Tidy)
    (covers : ∀ c' ∈ (readTable d).columns, ∃ c ∈ t.columns, c.Agrees c') {table : String}
    (spares : t.Spares table) : d.Avoids table := by
  intro c₀ hc₀ r hr
  obtain ⟨c, hc, agrees⟩ := covers (readColumn d c₀) (List.mem_map_of_mem hc₀)
  refine spares c hc (readReference r) ?_
  rw [← agrees.references, readColumn]
  rcases tidy.linked c₀ hc₀ with none | ⟨target, column, one⟩
  · rw [none] at hr
    cases hr
  · rw [one] at hr ⊢
    cases List.mem_singleton.mp hr
    rfl

/-- Types that agree are the same text. -/
theorem sqlType_of_agrees (expected : Expected t) {c c' : Column} (hc : c ∈ t.columns)
    (hc' : c' ∈ (readTable d).columns) (agrees : c.Agrees c') : c'.sqlType = c.sqlType := by
  obtain ⟨c₀, -, rfl⟩ := List.mem_map.mp hc'
  exact reportedType_exact (expected.types c hc) agrees.sqlType

end Engine

end EntityStore
