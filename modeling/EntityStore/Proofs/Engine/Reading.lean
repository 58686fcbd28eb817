import EntityStore.Engine.Introspection
import EntityStore.Proofs.Engine.Definitions
import EntityStore.Proofs.Schema.Derivation

namespace EntityStore.Engine

open Sql (ColumnDef Reference TableDef)
open Text (sameIgnoringCase sameIgnoringCase_comm sameIgnoringCase_congr sameIgnoringCase_refl)

/-- Whether a column is part of the key, declared with it or after the columns. -/
def isKey (d : TableDef) (c : ColumnDef) : Bool :=
  c.primaryKey || d.key.any (sameIgnoringCase c.name)

/-- What a reference points at; one without a column is left to the target's key. -/
def readReference (r : Reference) : ForeignKey := ⟨r.table, r.column.getD ""⟩

def readColumn (d : TableDef) (c : ColumnDef) : Column where
  name := c.name
  sqlType := reportedType c.type
  fieldType := none
  nullable := !c.notNull && !isKey d c
  primaryKey := isKey d c
  autoIncrement := isKey d c && Database.mentionsCounting d
  references := c.references.head?.map readReference

def readTable (d : TableDef) : Table := ⟨d.name, d.columns.map (readColumn d)⟩

section

variable {d : TableDef} {c c' : ColumnDef} {i : Nat}

theorem column_unique
    (distinct : d.columns.Pairwise fun c c' => sameIgnoringCase c.name c'.name = false) {j : Nat}
    (hc : d.columns[i]? = some c) (hc' : d.columns[j]? = some c')
    (same : sameIgnoringCase c.name c'.name = true) : i = j := by
  obtain ⟨hi, rfl⟩ := List.getElem?_eq_some_iff.mp hc
  obtain ⟨hj, rfl⟩ := List.getElem?_eq_some_iff.mp hc'
  rw [List.pairwise_iff_getElem] at distinct
  rcases lt_trichotomy i j with less | equal | more
  · rw [distinct i j hi hj less] at same
    cases same
  · exact equal
  · rw [sameIgnoringCase_comm, distinct j i hj hi more] at same
    cases same

theorem index?_eq_some (tidy : d.Tidy) (hc : d.columns[i]? = some c) (name : String) :
    d.index? name = some i ↔ sameIgnoringCase c.name name = true := by
  obtain ⟨hi, rfl⟩ := List.getElem?_eq_some_iff.mp hc
  rw [TableDef.index?, List.findIdx?_eq_some_iff_getElem]
  constructor
  · rintro ⟨_, same, -⟩
    exact same
  · refine fun same => ⟨hi, same, fun j hj before => ?_⟩
    have there : d.columns[j]? = some d.columns[j] := List.getElem?_eq_getElem (hj.trans hi)
    have equal : sameIgnoringCase d.columns[j].name d.columns[i].name = true := by
      rw [sameIgnoringCase_congr before, sameIgnoringCase_comm]
      exact same
    have := column_unique tidy.distinct there hc equal
    omega

theorem inKey_eq (tidy : d.Tidy) (hc : d.columns[i]? = some c) : inKey d i = isKey d c := by
  rw [Bool.eq_iff_iff, inKey, isKey, List.contains_iff_mem, TableDef.keyIndexes,
    List.mem_filterMap, Bool.or_eq_true]
  simp only [index?_eq_some tidy hc, List.mem_append, or_and_right, exists_or, List.any_eq_true]
  refine or_congr ⟨?_, fun key => ⟨c.name, ?_, sameIgnoringCase_refl c.name⟩⟩ Iff.rfl
  · rintro ⟨name, part, same⟩
    obtain ⟨c', hc', rfl⟩ := List.mem_map.mp part
    obtain ⟨there, key⟩ := List.mem_filter.mp hc'
    obtain ⟨j, hj⟩ := List.mem_iff_getElem?.mp there
    obtain rfl := column_unique tidy.distinct hc hj same
    rw [hc] at hj
    cases hj
    exact key
  · exact List.mem_map_of_mem (List.mem_filter.mpr ⟨List.mem_of_getElem? hc, key⟩)

/-- The first reference of a column is the first of those with its number. -/
theorem find?_links (f : Reference → ForeignKey) (columns : List ColumnDef) (start j : Nat) :
    (((columns.zipIdx start).flatMap fun (c, i) => c.references.map fun r => (i, f r)).find?
        fun key => key.1 == start + j) =
      (columns[j]?).bind fun c => c.references.head?.map fun r => (start + j, f r) := by
  induction columns generalizing start j with
  | nil => rfl
  | cons c columns ih =>
    rw [List.zipIdx_cons, List.flatMap_cons, List.find?_append]
    cases j with
    | zero =>
      have later : ((columns.zipIdx (start + 1)).flatMap fun (c, i) =>
          c.references.map fun r => (i, f r)).find? (fun key => key.1 == start + 0) = none := by
        refine List.find?_eq_none.mpr fun key hkey => ?_
        obtain ⟨⟨c', i⟩, place, hkey⟩ := List.mem_flatMap.mp hkey
        obtain ⟨r, -, rfl⟩ := List.mem_map.mp hkey
        have := List.le_snd_of_mem_zipIdx place
        simp only [beq_iff_eq]
        omega
      rw [later, Option.or_none]
      rw [List.getElem?_cons_zero, Option.bind_some]
      dsimp only
      cases c.references with
      | nil => rfl
      | cons r rest => simp
    | succ j =>
      have own : (c.references.map fun r => (start, f r)).find?
          (fun key => key.1 == start + (j + 1)) = none := by
        refine List.find?_eq_none.mpr fun key hkey => ?_
        obtain ⟨r, -, rfl⟩ := List.mem_map.mp hkey
        simp only [beq_iff_eq]
        omega
      have shift : start + (j + 1) = start + 1 + j := by omega
      rw [own, Option.none_or, shift, ih, List.getElem?_cons_succ]

/-- References that name their columns are read as they are. -/
theorem pointed_links (db : Database) (tidy : d.Tidy) :
    d.links.reverse.mapM (fun (i, r) => do pure (i, ← db.pointed r)) =
      .ok (d.links.reverse.map fun link => (link.1, readReference link.2)) := by
  refine Except.mapM_of_forall fun link hlink => ?_
  obtain ⟨⟨c, j⟩, place, own⟩ := List.mem_flatMap.mp (List.mem_reverse.mp hlink)
  obtain ⟨r, hr, rfl⟩ := List.mem_map.mp own
  have explicit : r.column.isSome := by
    rcases tidy.linked c (List.fst_mem_of_mem_zipIdx place) with none | ⟨table, column, one⟩
    · rw [none] at hr
      cases hr
    · rw [one, List.mem_singleton] at hr
      rw [hr]
      rfl
  obtain ⟨column, named⟩ := Option.isSome_iff_exists.mp explicit
  simp only [Database.pointed, readReference, named]
  rfl

/-- A column is read with its own references among all of the table. -/
theorem describeColumn_eq (tidy : d.Tidy) {place : ColumnDef × Nat} (hc : place ∈ d.columns.zipIdx) :
    Database.describeColumn d
        (d.links.reverse.map fun link => (link.1, readReference link.2)).reverse place.1 place.2 =
      readColumn d place.1 := by
  obtain ⟨c, i⟩ := place
  have there := List.mk_mem_zipIdx_iff_getElem?.mp hc
  have first := find?_links readReference d.columns 0 i
  rw [there, Option.bind_some, Nat.zero_add] at first
  have links : (d.links.reverse.map fun link => (link.1, readReference link.2)).reverse =
      d.columns.zipIdx.flatMap fun place =>
        place.1.references.map fun r => (place.2, readReference r) := by
    simp only [List.map_reverse, List.reverse_reverse, TableDef.links, List.map_flatMap,
      List.map_map, Function.comp_def]
  simp only [Database.describeColumn, readColumn, inKey_eq tidy there, links, first]
  rw [Option.map_map]
  rfl

/-- A tidy definition is read column by column, whatever else is in the database. -/
theorem describe_eq (db : Database) (tidy : d.Tidy) : db.describe d = .ok (readTable d) := by
  unfold Database.describe
  rw [pointed_links db tidy]
  refine congrArg Except.ok (congrArg (Table.mk d.name) ?_)
  rw [List.map_congr_left fun place hc => describeColumn_eq tidy hc]
  conv_rhs => rw [← List.zipIdx_map_fst 0 d.columns, List.map_map]
  rfl

end

/-- Tables that are added with different names are all found. -/
theorem table?_adds {ds : List TableDef} (apart : ds.Pairwise fun d e => d.name ≠ e.name)
    (s : Schema) (name : String) (t : Table) :
    (ds.foldl (fun s d => s.add (readTable d)) s).table? name = some t ↔
      (∃ d ∈ ds, d.name = name ∧ readTable d = t) ∨
        (∀ d ∈ ds, d.name ≠ name) ∧ s.table? name = some t := by
  induction ds generalizing s with
  | nil => simp
  | cons d ds ih =>
    obtain ⟨first, apart⟩ := List.pairwise_cons.mp apart
    have own : (readTable d).name = d.name := rfl
    rw [List.foldl_cons, ih apart, Schema.table?_add, own]
    by_cases here : name = d.name
    · subst here
      have others : ∀ e ∈ ds, e.name ≠ d.name := fun e he => (first e he).symm
      rw [if_pos rfl]
      constructor
      · rintro (⟨e, he, same, -⟩ | ⟨-, equal⟩)
        · exact absurd same (others e he)
        · exact .inl ⟨d, List.mem_cons_self, rfl, Option.some.inj equal⟩
      · rintro (⟨e, he, same, rfl⟩ | ⟨none, -⟩)
        · rcases List.mem_cons.mp he with rfl | later
          · exact .inr ⟨others, rfl⟩
          · exact absurd same (others e later)
        · exact absurd rfl (none d List.mem_cons_self)
    · simp [here, Ne.symm here]

/-- Introspection of tidy definitions finds each that is not hidden under its name. -/
theorem introspect_eq {db : Database} (tidy : Tidy db.definitions) :
    ∃ schema, db.introspect = .ok schema ∧ ∀ name t, schema.table? name = some t ↔
      ∃ d ∈ db.definitions, hidden d.name = false ∧ d.name = name ∧ readTable d = t := by
  have mem (d : TableDef) : d ∈ db.visible ↔ d ∈ db.definitions ∧ hidden d.name = false := by
    rw [Database.visible, List.mem_mergeSort, List.mem_filter, Bool.not_eq_true']
    rfl
  have read (ds : List TableDef) (each : ∀ d ∈ ds, d.Tidy) (s : Schema) :
      ds.foldlM (fun schema d => (db.describe d).map schema.add) s =
        .ok (ds.foldl (fun s d => s.add (readTable d)) s) := by
    induction ds generalizing s with
    | nil => rfl
    | cons d ds ih =>
      obtain ⟨own, others⟩ := List.forall_mem_cons.mp each
      rw [List.foldlM_cons, describe_eq db own]
      exact ih others _
  have apart : db.visible.Pairwise fun d e => d.name ≠ e.name := by
    have symmetric : ∀ {d e : TableDef}, d.name ≠ e.name → e.name ≠ d.name := Ne.symm
    refine ((List.mergeSort_perm _ _).pairwise_iff symmetric).mpr
      ((tidy.filter _).apart.imp fun {d e} apart same => ?_)
    rw [same, sameIgnoringCase_refl] at apart
    cases apart
  refine ⟨_, read db.visible (fun d hd => tidy.each d ((mem d).mp hd).1) .empty, fun name t => ?_⟩
  rw [table?_adds apart]
  have empty : Schema.empty.table? name = none := rfl
  simp only [empty, mem, and_assoc, reduceCtorEq, and_false, or_false]

end EntityStore.Engine
