import EntityStore.Proofs.Engine.Elsewhere
import EntityStore.Proofs.Migration.Copy

namespace EntityStore

open Sql (ColumnDef TableDef)
open Text (sameIgnoringCase sameIgnoringCase_comm sameIgnoringCase_congr sameIgnoringCase_refl)

namespace Sql.TableDef

/-- A row without a value in a column has a new key given out to it, or is refused. -/
structure Guards (d : TableDef) (column : String) (i : Nat) : Prop where
  place : d.index? column = some i
  named : ∃ c, d.columns[i]? = some c ∧ c.name = column ∧ (d.rowKey? ≠ some i → c.notNull = true)
  counts : d.rowKey? = some i → d.countsUp = true

variable (d : TableDef)

theorem index?_unlinked (name : String) : d.unlinked.index? name = d.index? name := by
  rw [index?, index?, unlinked, List.findIdx?_map]
  rfl

theorem keyIndexes_unlinked : d.unlinked.keyIndexes = d.keyIndexes := by
  have names : (d.unlinked.columns.filter (·.primaryKey)).map (·.name) =
      (d.columns.filter (·.primaryKey)).map (·.name) := by
    rw [unlinked, List.filter_map, List.map_map]
    rfl
  rw [keyIndexes, keyIndexes, names, funext d.index?_unlinked]
  rfl

theorem rowKey?_unlinked : d.unlinked.rowKey? = d.rowKey? := by
  have integer (i : Nat) : d.unlinked.isInteger i = d.isInteger i := by
    rw [isInteger, isInteger, unlinked, List.getElem?_map, Option.any_map]
    rfl
  simp only [rowKey?, keyIndexes_unlinked, integer]

theorem countsUp_unlinked : d.unlinked.countsUp = d.countsUp := by
  rw [countsUp, countsUp, unlinked, List.any_map]
  rfl

variable {d} {column : String} {i : Nat}

/-- What columns point at does not matter to keys. -/
theorem guards_unlinked : d.unlinked.Guards column i ↔ d.Guards column i := by
  have named : (∃ c, d.unlinked.columns[i]? = some c ∧ c.name = column ∧
        (d.rowKey? ≠ some i → c.notNull = true)) ↔
      ∃ c, d.columns[i]? = some c ∧ c.name = column ∧
        (d.rowKey? ≠ some i → c.notNull = true) := by
    rw [unlinked, List.getElem?_map]
    cases d.columns[i]? <;> simp [ColumnDef.unlinked]
  constructor
  · intro guards
    have there := guards.named
    have counts := guards.counts
    rw [rowKey?_unlinked] at there counts
    rw [countsUp_unlinked] at counts
    exact ⟨d.index?_unlinked column ▸ guards.place, named.mp there, counts⟩
  · intro guards
    refine ⟨(d.index?_unlinked column).trans guards.place, ?_, ?_⟩
    · rw [rowKey?_unlinked]
      exact named.mpr guards.named
    · rw [rowKey?_unlinked, countsUp_unlinked]
      exact guards.counts

/-- Nor does the name of the table. -/
theorem Guards.renamed (guards : d.Guards column i) (name : String) :
    ({ d with name := name } : TableDef).Guards column i :=
  ⟨guards.place, guards.named, guards.counts⟩

theorem rowKey?_renamed (d : TableDef) (name : String) :
    ({ d with name := name } : TableDef).rowKey? = d.rowKey? := rfl

theorem index?_lt {name : String} (h : d.index? name = some i) : i < d.columns.length :=
  (List.findIdx?_eq_some_iff_getElem.mp h).1

theorem index?_append {name : String} (h : d.index? name = some i) (more : List ColumnDef) :
    ({ d with columns := d.columns ++ more } : TableDef).index? name = some i := by
  rw [index?] at h ⊢
  rw [List.findIdx?_append, h, Option.some_or]

/-- Columns outside of the key change nothing about it. -/
theorem rowKey?_append (tidy : d.Tidy) {more : List ColumnDef}
    (plain : ∀ c ∈ more, c.primaryKey = false) :
    ({ d with columns := d.columns ++ more } : TableDef).rowKey? = d.rowKey? := by
  generalize whole : ({ d with columns := d.columns ++ more } : TableDef) = e
  have columns : e.columns = d.columns ++ more := by rw [← whole]
  have names : (e.columns.filter (·.primaryKey)).map (·.name) ++ e.key =
      (d.columns.filter (·.primaryKey)).map (·.name) ++ d.key := by
    have none : more.filter (·.primaryKey) = [] :=
      List.filter_eq_nil_iff.mpr fun c hc => by simp [plain c hc]
    rw [columns, List.filter_append, none, List.append_nil, ← whole]
  have places : e.keyIndexes = d.keyIndexes := by
    rw [keyIndexes, keyIndexes, names]
    refine List.filterMap_congr fun name hn => ?_
    obtain ⟨j, there⟩ : ∃ j, d.index? name = some j := by
      rw [← Option.isSome_iff_exists, index?_isSome]
      rcases List.mem_append.mp hn with own | part
      · obtain ⟨c, hc, rfl⟩ := List.mem_map.mp own
        exact ⟨c, List.mem_of_mem_filter hc, sameIgnoringCase_refl c.name⟩
      · exact tidy.keyed name part
    rw [there, ← whole, index?_append there]
  have integer {j : Nat} (inside : j < d.columns.length) : e.isInteger j = d.isInteger j := by
    rw [isInteger, isInteger, columns, List.getElem?_append_left inside]
  rw [rowKey?, rowKey?, places]
  cases same : d.keyIndexes with
  | nil => rfl
  | cons j rest =>
    cases rest with
    | nil =>
      have part : j ∈ d.keyIndexes := same ▸ List.mem_singleton_self j
      obtain ⟨name, -, there⟩ := List.mem_filterMap.mp part
      simp only [integer (index?_lt there)]
    | cons _ _ => rfl

theorem Guards.append (guards : d.Guards column i) (tidy : d.Tidy) {more : List ColumnDef}
    (plain : ∀ c ∈ more, c.primaryKey = false) :
    ({ d with columns := d.columns ++ more } : TableDef).Guards column i := by
  have inside := index?_lt guards.place
  refine ⟨index?_append guards.place more, ?_, ?_⟩
  · rw [rowKey?_append tidy plain, List.getElem?_append_left inside]
    exact guards.named
  · rw [rowKey?_append tidy plain]
    intro key
    rw [countsUp, List.any_append, Bool.or_eq_true]
    exact .inl (guards.counts key)

end Sql.TableDef

/-- The column of an integer key that the database generates. -/
structure Column.Generated (c : Column) : Prop where
  type : c.sqlType = "INTEGER"
  key : c.primaryKey = true
  counts : c.autoIncrement = true
  required : c.nullable = false

namespace Engine

variable {t : Table} {c : Column} {name : String}

theorem keyNames_definition (t : Table) (name : String) :
    ((t.definition .sqlite name).columns.filter (·.primaryKey)).map (·.name) ++
      (t.definition .sqlite name).key = t.primaryKey.map (·.name) := by
  rw [Table.definition, List.filter_map, List.map_map]
  by_cases composite : 1 < t.primaryKey.length
  · have none : t.columns.filter ((·.primaryKey) ∘ Column.definition .sqlite true) = [] := by
      simp [List.filter_eq_nil_iff, Column.definition]
    rw [decide_eq_true composite, none]
    exact if_pos composite
  · have same : (·.primaryKey) ∘ Column.definition .sqlite false = (·.primaryKey) := by
      funext c
      simp [Column.definition]
    rw [decide_eq_false composite, same]
    change _ ++ (if 1 < t.primaryKey.length then _ else []) = _
    rw [if_neg composite, List.append_nil]
    rfl

theorem index?_definition (tidy : (t.definition .sqlite name).Tidy) {i : Nat}
    (hi : t.columns[i]? = some c) :
    (t.definition .sqlite name).columns[i]? =
        some (c.definition .sqlite (1 < t.primaryKey.length)) ∧
      (t.definition .sqlite name).index? c.name = some i := by
  have there : (t.definition .sqlite name).columns[i]? =
      some (c.definition .sqlite (1 < t.primaryKey.length)) := by
    rw [Table.definition, List.getElem?_map, hi, Option.map_some]
  exact ⟨there, (index?_eq_some tidy there c.name).mpr (sameIgnoringCase_refl c.name)⟩

/-- A composite key is no integer key. -/
theorem rowKey?_of_composite (composite : 1 < t.primaryKey.length) :
    (t.definition .sqlite name).rowKey? = none := by
  have found : ∀ part ∈ t.primaryKey.map (·.name),
      ((t.definition .sqlite name).index? part).isSome := by
    intro part hpart
    obtain ⟨c, hc, rfl⟩ := List.mem_map.mp hpart
    rw [TableDef.index?_isSome]
    exact ⟨_, List.mem_map_of_mem (List.mem_of_mem_filter hc), sameIgnoringCase_refl c.name⟩
  have several : (t.definition .sqlite name).keyIndexes.length = t.primaryKey.length := by
    rw [TableDef.keyIndexes, keyNames_definition, List.filterMap_length_eq_length.mpr found,
      List.length_map]
  unfold TableDef.rowKey?
  split
  · rename_i one
    rw [one, List.length_singleton] at several
    omega
  · rfl

/-- An integer that is the whole key is an integer key. -/
theorem rowKey?_of_single {i : Nat} (alone : t.primaryKey = [c]) (type : c.sqlType = "INTEGER")
    (tidy : (t.definition .sqlite name).Tidy) (hi : t.columns[i]? = some c) :
    (t.definition .sqlite name).rowKey? = some i := by
  obtain ⟨there, place⟩ := index?_definition tidy hi
  have integer : (t.definition .sqlite name).isInteger i = true := by
    rw [TableDef.isInteger, there, Option.any_some]
    change sameIgnoringCase c.sqlType "INTEGER" = true
    rw [type]
    exact sameIgnoringCase_refl _
  rw [TableDef.rowKey?, TableDef.keyIndexes, keyNames_definition, alone, List.map_singleton,
    List.filterMap_cons_some place, List.filterMap_nil]
  exact if_pos integer

/-- A table that is declared with a generated integer key guards its column. -/
theorem guards_definition (tidy : (t.definition .sqlite name).Tidy) (hc : c ∈ t.columns)
    (generated : c.Generated) : ∃ i, (t.definition .sqlite name).Guards c.name i := by
  obtain ⟨i, hi⟩ := List.mem_iff_getElem?.mp hc
  obtain ⟨there, place⟩ := index?_definition tidy hi
  have own : c ∈ t.primaryKey := List.mem_filter.mpr ⟨hc, generated.key⟩
  by_cases composite : 1 < t.primaryKey.length
  · refine ⟨i, place, ⟨_, there, rfl, fun _ => ?_⟩, fun one => ?_⟩
    · simp [Column.definition, composite, generated.required]
    · rw [rowKey?_of_composite composite] at one
      cases one
  · have alone : t.primaryKey = [c] := by
      obtain ⟨first, one⟩ : ∃ first, t.primaryKey = [first] := by
        have := List.length_pos_of_mem own
        exact List.length_eq_one_iff.mp (by omega)
      rw [one] at own ⊢
      rw [List.mem_singleton.mp own]
    have rowKey := rowKey?_of_single alone generated.type tidy hi
    refine ⟨i, place, ⟨_, there, rfl, fun other => absurd rowKey other⟩, fun _ => ?_⟩
    rw [TableDef.countsUp, List.any_eq_true]
    refine ⟨_, List.mem_of_getElem? there, ?_⟩
    simp [Column.definition, composite, generated.key, generated.counts, Dialect.sqlite]

namespace StoredTable

variable {t t' : StoredTable} {column : String} {i : Nat}

theorem guards_renamed (guards : t.definition.Guards column i) (old new : String) :
    (t.renamed old new).definition.Guards column i := by
  have unlinked := TableDef.retarget_unlinked { t.definition with name := new } old new
  exact TableDef.guards_unlinked.mp (unlinked ▸ TableDef.guards_unlinked.mpr (guards.renamed new))

theorem rowKey?_renamed (t : StoredTable) (old new : String) :
    (t.renamed old new).definition.rowKey? = t.definition.rowKey? := by
  have unlinked := TableDef.retarget_unlinked { t.definition with name := new } old new
  rw [← TableDef.rowKey?_unlinked, ← TableDef.rowKey?_renamed t.definition new,
    ← TableDef.rowKey?_unlinked { t.definition with name := new }, ← unlinked]
  rfl

theorem cellAt_set {row : List Cell} {i j : Nat} (v : Cell) (other : i ≠ j) :
    cellAt (row.set i v) j = cellAt row j := by
  rw [cellAt, cellAt, List.getD_eq_getElem?_getD, List.getD_eq_getElem?_getD,
    List.getElem?_set_ne other]

theorem cellAt_set_self {row : List Cell} {v : Cell} (inside : i < row.length) :
    cellAt (row.set i v) i = v := by
  rw [cellAt, List.getD_eq_getElem?_getD, List.getElem?_set_self inside, Option.getD_some]

/-- What a row that goes in has passed. -/
theorem insert_eq_ok {row written : List Cell} (h : t.insert row = .ok (t', written)) :
    t.withKey row = .ok written ∧ t.accept t.rows written = .ok () ∧
      t' = { t with rows := t.place written t.rows, sequence := t.sequenceWith written } := by
  obtain ⟨row', keyed, h⟩ := Except.bind_eq_ok.mp h
  obtain ⟨⟨⟩, accepted, h⟩ := Except.bind_eq_ok.mp h
  cases h
  exact ⟨keyed, accepted, rfl⟩

theorem accept_ok {others : List (List Cell)} {row : List Cell} (h : t.accept others row = .ok ()) :
    t.misfits row = false ∧
      ∀ i c, t.definition.columns[i]? = some c → t.lacks row c i = false := by
  unfold accept at h
  split at h
  · cases h
  · rename_i fits
    refine ⟨Bool.eq_false_iff.mpr fits, fun i c hc => ?_⟩
    split at h
    · cases h
    · rename_i none
      exact Bool.eq_false_iff.mpr
        (List.find?_eq_none.mp none (c, i) (List.mk_mem_zipIdx_iff_getElem?.mpr hc))

theorem sequence_lt_nextKey {k : Int} (counts : t.definition.countsUp = true)
    (h : t.nextKey i = .ok k) : t.sequence < k := by
  unfold nextKey at h
  rw [counts] at h
  simp only [if_true] at h
  split at h <;>
  · split at h
    · cases h
      omega
    · cases h

/-- A row in a table that keeps an integer key has one, its own or the next one. -/
theorem key_of_insert {row written : List Cell} (key : t.definition.rowKey? = some i)
    (h : t.insert row = .ok (t', written)) :
    ∃ k, cellAt written i = .int k ∧ t'.sequence = max t.sequence k ∧
      if (cellAt row i).isNull then t.nextKey i = .ok k else cellAt row i = .int k := by
  obtain ⟨keyed, accepted, rfl⟩ := insert_eq_ok h
  have fits := (accept_ok accepted).1
  rw [misfits, key, Option.any_some] at fits
  split at fits
  · rename_i k there
    refine ⟨k, there, ?_, ?_⟩
    · change t.sequenceWith written = _
      rw [sequenceWith, key]
      dsimp only
      rw [there]
      rfl
    · rw [withKey, key] at keyed
      dsimp only at keyed
      split at keyed
      · rename_i none
        obtain ⟨next, found, rfl⟩ := Except.map_eq_ok.mp keyed
        rw [if_pos none]
        by_cases inside : i < row.length
        · rw [cellAt_set_self inside] at there
          cases there
          exact found
        · rw [List.set_eq_of_length_le (Nat.not_lt.mp inside)] at there
          rw [there] at none
          cases none
      · rename_i given
        cases keyed
        rw [if_neg given]
        exact there
  · cases fits

/-- The sequence never falls. -/
theorem sequence_le_of_insert {row written : List Cell} (h : t.insert row = .ok (t', written)) :
    t.sequence ≤ t'.sequence := by
  obtain ⟨-, -, rfl⟩ := insert_eq_ok h
  change t.sequence ≤ t.sequenceWith written
  unfold sequenceWith
  split
  · exact le_max_left _ _
  · exact le_refl _

/-- A row without a value in a guarded column is refused, or gets a key that the table never had. -/
theorem insert_generates {row written : List Cell} (guards : t.definition.Guards column i)
    (lacking : (cellAt row i).isNull = true) (h : t.insert row = .ok (t', written)) :
    t.definition.rowKey? = some i ∧
      ∃ k, cellAt written i = .int k ∧ t.sequence < k ∧ t'.sequence = k := by
  by_cases key : t.definition.rowKey? = some i
  · obtain ⟨k, there, sequence, next⟩ := key_of_insert key h
    rw [if_pos lacking] at next
    have less := sequence_lt_nextKey (guards.counts key) next
    exact ⟨key, k, there, less, by omega⟩
  · obtain ⟨keyed, accepted, -⟩ := insert_eq_ok h
    obtain ⟨c, there, -, required⟩ := guards.named
    have same : cellAt written i = cellAt row i := by
      unfold withKey at keyed
      split at keyed
      · rename_i j other
        split at keyed
        · obtain ⟨next, -, rfl⟩ := Except.map_eq_ok.mp keyed
          exact cellAt_set _ fun equal => key (equal ▸ other)
        · cases keyed
          rfl
      · cases keyed
        rfl
    have lacks := (accept_ok accepted).2 i c there
    have other : (t.definition.rowKey? != some i) = true := bne_iff_ne.mpr key
    rw [StoredTable.lacks, required key, other, same, lacking] at lacks
    cases lacks

theorem sequence_le_of_insertAll {rows written : List (List Cell)}
    (h : t.insertAll rows = .ok (t', written)) : t.sequence ≤ t'.sequence := by
  induction rows generalizing t written with
  | nil =>
    cases h
    exact le_refl _
  | cons row rest ih =>
    obtain ⟨⟨next, first⟩, inserted, h⟩ := Except.bind_eq_ok.mp h
    obtain ⟨⟨last, others⟩, more, h⟩ := Except.bind_eq_ok.mp h
    cases h
    exact (sequence_le_of_insert inserted).trans (ih more)

/-- The sequence comes to be at least every key that goes in. -/
theorem key_le_of_insertAll {rows written : List (List Cell)}
    (key : t.definition.rowKey? = some i) (h : t.insertAll rows = .ok (t', written)) {k : Int}
    {row : List Cell} (there : row ∈ rows) (own : cellAt row i = .int k) : k ≤ t'.sequence := by
  induction rows generalizing t written with
  | nil => cases there
  | cons first rest ih =>
    obtain ⟨⟨next, first'⟩, inserted, h⟩ := Except.bind_eq_ok.mp h
    obtain ⟨⟨last, others⟩, more, h⟩ := Except.bind_eq_ok.mp h
    cases h
    rcases List.mem_cons.mp there with rfl | later
    · obtain ⟨k', -, sequence, given⟩ := key_of_insert key inserted
      rw [own] at given
      cases given
      have := sequence_le_of_insertAll more
      omega
    · exact ih ((insert_ok inserted).1 ▸ key) more later

/-- Rows without a value in a guarded column are refused, or get keys that the table never had, each
greater than the one before it. -/
theorem insertAll_generates {rows written : List (List Cell)}
    (guards : t.definition.Guards column i)
    (lacking : ∀ row ∈ rows, (cellAt row i).isNull = true)
    (h : t.insertAll rows = .ok (t', written)) :
    (rows ≠ [] → t.definition.rowKey? = some i) ∧
      ∃ keys : List Int, written.map (cellAt · i) = keys.map .int ∧
        (t.sequence :: keys).IsChain (· < ·) ∧ ∀ k ∈ keys, k ≤ t'.sequence := by
  induction rows generalizing t written with
  | nil =>
    cases h
    exact ⟨fun some => absurd rfl some, [], rfl, .singleton _, List.forall_mem_nil _⟩
  | cons row rest ih =>
    obtain ⟨⟨next, first⟩, inserted, h⟩ := Except.bind_eq_ok.mp h
    obtain ⟨⟨last, others⟩, more, h⟩ := Except.bind_eq_ok.mp h
    cases h
    obtain ⟨own, later⟩ := List.forall_mem_cons.mp lacking
    obtain ⟨key, k, there, less, rfl⟩ := insert_generates guards own inserted
    obtain ⟨-, keys, cells, chain, least⟩ := ih ((insert_ok inserted).1 ▸ guards) later more
    refine ⟨fun _ => key, next.sequence :: keys, ?_, .cons_cons less chain,
      List.forall_mem_cons.mpr ⟨sequence_le_of_insertAll more, least⟩⟩
    rw [List.map_cons, List.map_cons, there, cells]

/-- A row with a value put into its column. -/
def setCell (t : StoredTable) (name : String) (row : List Cell) (cell : String × Cell) :
    Except Fault (List Cell) :=
  match t.definition.index? cell.1 with
  | some i => .ok (row.set i ((t.definition.affinity i).keep cell.2))
  | none => .error (.noColumn name cell.1)

theorem rowOf_eq (t : StoredTable) (name : String) (cells : List (String × Cell)) :
    t.rowOf name cells =
      cells.foldlM (t.setCell name) (t.definition.columns.map fun _ => Cell.null) := rfl

variable {name : String} {cells : List (String × Cell)} {row start : List Cell}

theorem setCell_ok {cell : String × Cell} (h : t.setCell name start cell = .ok row) :
    ∃ j, t.definition.index? cell.1 = some j ∧
      row = start.set j ((t.definition.affinity j).keep cell.2) := by
  unfold setCell at h
  split at h
  · rename_i j there
    cases h
    exact ⟨j, there, rfl⟩
  · cases h

/-- Cells for other columns leave a column and the width of the row alone. -/
theorem cellAt_setCells (others : ∀ cell ∈ cells, t.definition.index? cell.1 ≠ some i)
    (h : cells.foldlM (t.setCell name) start = .ok row) : cellAt row i = cellAt start i := by
  induction cells generalizing start with
  | nil =>
    cases h
    rfl
  | cons cell cells ih =>
    rw [List.foldlM_cons] at h
    obtain ⟨next, first, rest⟩ := Except.bind_eq_ok.mp h
    obtain ⟨own, later⟩ := List.forall_mem_cons.mp others
    obtain ⟨j, there, rfl⟩ := setCell_ok first
    exact (ih later rest).trans (cellAt_set _ fun same => own (same ▸ there))

theorem length_setCells (h : cells.foldlM (t.setCell name) start = .ok row) :
    row.length = start.length := by
  induction cells generalizing start with
  | nil =>
    cases h
    rfl
  | cons cell cells ih =>
    rw [List.foldlM_cons] at h
    obtain ⟨next, first, rest⟩ := Except.bind_eq_ok.mp h
    obtain ⟨j, -, rfl⟩ := setCell_ok first
    exact (ih rest).trans List.length_set

theorem isNull_rowOf (others : ∀ cell ∈ cells, t.definition.index? cell.1 ≠ some i)
    (h : t.rowOf name cells = .ok row) : (cellAt row i).isNull = true := by
  rw [rowOf_eq] at h
  rw [cellAt_setCells others h, cellAt, List.getD_eq_getElem?_getD, List.getElem?_map]
  cases t.definition.columns[i]? <;> rfl

/-- A value that no later one takes the place of is kept as its column keeps it. -/
theorem cellAt_rowOf {before after : List (String × Cell)} {column : String} {v : Cell}
    (place : t.definition.index? column = some i)
    (others : ∀ cell ∈ after, t.definition.index? cell.1 ≠ some i)
    (h : t.rowOf name (before ++ (column, v) :: after) = .ok row) :
    cellAt row i = (t.definition.affinity i).keep v := by
  rw [rowOf_eq, List.foldlM_append] at h
  obtain ⟨first, earlier, h⟩ := Except.bind_eq_ok.mp h
  rw [List.foldlM_cons] at h
  obtain ⟨next, own, later⟩ := Except.bind_eq_ok.mp h
  obtain ⟨j, there, rfl⟩ := setCell_ok own
  obtain rfl : i = j := Option.some.inj (place.symm.trans there)
  have inside : i < first.length := by
    rw [length_setCells earlier, List.length_map]
    exact Sql.TableDef.index?_lt place
  rw [cellAt_setCells others later, cellAt_set_self inside]

end StoredTable

/-- An integer key column keeps integers. -/
theorem affinity_of_rowKey {d : TableDef} {i : Nat} (key : d.rowKey? = some i) :
    d.affinity i = .numeric := by
  have integer : d.isInteger i = true := by
    unfold TableDef.rowKey? at key
    split at key
    · split at key
      · cases key
        assumption
      · cases key
    · cases key
  rw [TableDef.isInteger, Option.any_eq_true] at integer
  obtain ⟨c, there, same⟩ := integer
  have type : Text.foldCase c.type = Text.foldCase "INTEGER" := by
    simpa [sameIgnoringCase] using same
  rw [TableDef.affinity, there, Option.map_some, Option.getD_some, Affinity.ofType, type]
  decide +kernel

namespace Database

variable {db db' : Database} {enforced : Bool} {outcome : Outcome} {table column : String} {i : Nat}
  {t : StoredTable}

/-- What an insertion answers where it asks for the keys of a guarded column that it leaves out: new
keys. -/
theorem run_insert {columns : List String} {rows : List (List Cell)} {returning : Option String}
    (there : db.table? table = some t) (guards : t.definition.Guards column i)
    (lacking : ∀ key ∈ returning, t.definition.index? key = some i ∧
      ∀ c ∈ columns, t.definition.index? c ≠ some i)
    (h : db.run enforced (.insert table columns rows returning) = .ok (db', outcome)) :
    ∃ t' keys, db'.table? table = some t' ∧ t'.definition = t.definition ∧
      outcome.rows = keys.map (fun k : Int => [.int k]) ∧
      (keys ≠ [] → t.definition.rowKey? = some i) ∧ t.sequence ≤ t'.sequence ∧
      (t.sequence :: keys).IsChain (· < ·) ∧ ∀ k ∈ keys, k ≤ t'.sequence := by
  obtain ⟨⟨_, t', written⟩, inserted, h⟩ := Except.bind_eq_ok.mp h
  cases h
  obtain ⟨t₀, complete, there', whole, all, rfl⟩ := insertRows_inserted inserted
  obtain rfl := Option.some.inj (there.symm.trans there')
  have same := (StoredTable.insertAll_ok all).1
  have named : sameIgnoringCase t'.name table = true := by
    rw [StoredTable.name, same]
    exact table?_name there
  have found := table?_put named there
  have grows := StoredTable.sequence_le_of_insertAll all
  cases returning with
  | none =>
    exact ⟨t', [], found, same, rfl, fun some => absurd rfl some, grows, .singleton _,
      List.forall_mem_nil _⟩
  | some key =>
    obtain ⟨place, others⟩ := lacking key rfl
    have empty : ∀ row ∈ complete, (cellAt row i).isNull = true := by
      intro row hrow
      obtain ⟨given, -, made⟩ := Except.mapM_mem whole hrow
      refine StoredTable.isNull_rowOf (fun cell hc => others cell.1 ?_) made
      exact (List.of_mem_zip hc).1
    obtain ⟨rowKey, keys, cells, chain, least⟩ :=
      StoredTable.insertAll_generates guards empty all
    have answers : keyRows t' key written = keys.map fun k => [.int k] := by
      have each (row : List Cell) : project [keyColumn key] [⟨t'.name, t'.definition, row⟩] =
          [(cellAt row i).toValue] := by
        rw [project, List.map_singleton, keyColumn, Scope.cell_of_index (same ▸ place)]
      have apart : (fun row => [(cellAt row i).toValue]) = (fun v => [v.toValue]) ∘ (cellAt · i) :=
        rfl
      rw [keyRows, funext each, apart, ← List.map_map, cells, List.map_map]
      rfl
    refine ⟨t', keys, found, same, answers, fun some => rowKey ?_, grows, chain, least⟩
    rintro rfl
    cases all
    cases keys with
    | nil => exact some rfl
    | cons _ _ => cases cells

/-- A copied row keeps its key where the copy keeps an integer key. -/
theorem run_copy_keys {target source : String} {fills before after : List (String × Sql.Fill Cell)}
    {from_ : StoredTable} {j : Nat} (start : db.table? target = some t)
    (there : db.table? source = some from_) (place : t.definition.index? column = some i)
    (old : from_.definition.index? column = some j)
    (parts : fills = before ++ (column, .existing) :: after)
    (others : ∀ f ∈ after, t.definition.index? f.1 ≠ some i)
    (h : db.run enforced (.copyRows target fills source) = .ok (db', outcome)) :
    ∃ t', db'.table? target = some t' ∧ t'.definition = t.definition ∧
      (t.definition.rowKey? = some i →
        ∀ row ∈ from_.rows, ∀ n, cellAt row j = .int n → n ≤ t'.sequence) := by
  obtain ⟨⟨_, count⟩, copied, h⟩ := Except.bind_eq_ok.mp h
  cases h
  obtain ⟨from₀, source', h⟩ := Except.bind_eq_ok.mp copied
  obtain rfl := Option.some.inj (there.symm.trans (table_ok source'))
  obtain ⟨⟨_, t', written⟩, inserted, h⟩ := Except.bind_eq_ok.mp h
  cases h
  obtain ⟨t₀, complete, start', whole, all, rfl⟩ := insertRows_inserted inserted
  obtain rfl := Option.some.inj (start.symm.trans start')
  have same := (StoredTable.insertAll_ok all).1
  have named : sameIgnoringCase t'.name target = true := by
    rw [StoredTable.name, same]
    exact table?_name start
  refine ⟨t', table?_put named start, same, fun key row hrow n own => ?_⟩
  have scanned := ((from_.scan_perm (fills.filterMap needed?)).mem_iff).mpr hrow
  obtain ⟨row', made, completed⟩ := Except.mapM_mem_left whole (List.mem_map_of_mem scanned)
  refine StoredTable.key_le_of_insertAll key all made ?_
  rw [List.zip_map', parts, List.map_append, List.map_cons] at completed
  have value : (filled [⟨source, from_.definition, row⟩] (column, .existing)).2 = cellAt row j :=
    Scope.cell_of_index old
  rw [value] at completed
  rw [StoredTable.cellAt_rowOf place ?_ completed, own, affinity_of_rowKey key]
  · rfl
  · rw [List.forall_mem_map]
    exact others

end Database

section

variable {enforced : Bool} {db db' : Database} {u current : Table} {copies : List ColumnCopy}
  {p : Planner} {t : StoredTable} {j : Nat}

/-- A column that was required before is copied as it is. -/
theorem copies_existing {old : Column} (hc : c ∈ u.columns)
    (rules : p.copyRules u current = .ok copies) (known : current.column? c.name = some old)
    (required : old.nullable = false) : ⟨c.name, c.fieldType, .existing⟩ ∈ copies := by
  obtain ⟨each, made, rfl⟩ := Except.map_eq_ok.mp rules
  obtain ⟨rule, there, own⟩ := Except.mapM_mem_left made hc
  refine List.mem_filterMap.mpr ⟨rule, there, ?_⟩
  cases Planner.rule_of_copyRule own with
  | kept _ _ _ => rfl
  | replaced old' type v found free _ _ =>
    obtain rfl := Option.some.inj (known.symm.trans found)
    rw [required] at free
    cases free
  | filled type v absent _ _ =>
    rw [known] at absent
    cases absent
  | unset absent _ =>
    rw [known] at absent
    cases absent

variable {ε : Type} {encode : Param → Except ε Cell} {fills : List (String × Sql.Fill Param)}
  {fills' : List (String × Sql.Fill Cell)}

theorem fills_existing {type : Option FieldType} {name : String}
    (there : ⟨name, type, .existing⟩ ∈ copies) (filled : copies.mapM ColumnCopy.fill = .ok fills)
    (stored : fills.mapM (fun (c, fill) => do pure (c, ← Sql.Command.mapFillM encode fill)) =
      .ok fills') : (name, .existing) ∈ fills' := by
  obtain ⟨fill, hfill, made⟩ := Except.mapM_mem_left filled there
  cases made
  obtain ⟨fill', hfill', made⟩ := Except.mapM_mem_left stored hfill
  cases made
  exact hfill'

theorem fills_columns (filled : copies.mapM ColumnCopy.fill = .ok fills)
    (stored : fills.mapM (fun (c, fill) => do pure (c, ← Sql.Command.mapFillM encode fill)) =
      .ok fills') : fills'.map (·.1) = copies.map (·.column) := by
  refine (Except.mapM_map_eq (fun fill fill' made => ?_) stored).trans
    (ColumnCopy.fills_columns filled)
  obtain ⟨_, -, made⟩ := Except.bind_eq_ok.mp made
  cases made
  rfl

/-- A rebuilt table guards its generated key, and never gives out a key again that a row had when it
was rebuilt. -/
theorem ran_rebuild_keys {old : Column} (expected : Expected u) (hc : c ∈ u.columns)
    (generated : c.Generated) (rules : p.copyRules u current = .ok copies)
    (known : current.column? c.name = some old) (old_required : old.nullable = false)
    (there : db.table? u.name = some t) (place : t.definition.index? c.name = some j)
    (h : Ran enforced db [.rebuildTable u copies] db') :
    ∃ t' i, db'.table? u.name = some t' ∧ t'.name = u.name ∧ t'.definition.Guards c.name i ∧
      (t'.definition.rowKey? = some i →
        ∀ row ∈ t.rows, ∀ n, cellAt row j = .int n → n ≤ t'.sequence) := by
  obtain ⟨commands, cells, written, encoded, ran⟩ := h.single
  obtain ⟨fills, fills', made, _, copied, filled, stored, creation, copy, swap⟩ :=
    Step.rebuild_runs written encoded ran
  obtain ⟨start, there, different⟩ := Database.run_create creation there
  obtain ⟨-, tidy, -⟩ := Database.definitions_create (Ran.linked_columns u _) creation
  rw [kept_definition expected] at start tidy
  obtain ⟨i, guards⟩ := guards_definition tidy hc generated
  have existing := fills_existing (copies_existing hc rules known old_required) filled stored
  obtain ⟨before, after, parts⟩ := List.append_of_mem existing
  have others : ∀ f ∈ after,
      (u.definition .sqlite (Dialect.sqlite.scratchName u.name)).index? f.1 ≠ some i := by
    intro f hf again
    obtain ⟨rules, each, rfl⟩ := Planner.copyRules_ok rules
    have distinct : (u.columns.map (·.name)).Pairwise fun a b => sameIgnoringCase a b = false :=
      List.pairwise_map.mpr (List.pairwise_map.mp tidy.distinct)
    have apart := distinct.sublist (Planner.columns_sublist each)
    rw [← fills_columns filled stored, parts, List.map_append, List.map_cons] at apart
    have first := (List.pairwise_cons.mp (List.pairwise_append.mp apart).2.1).1 f.1
      (List.mem_map_of_mem hf)
    obtain ⟨own, hi, named, -⟩ := guards.named
    rw [index?_eq_some tidy hi, named] at again
    rw [again] at first
    cases first
  unfold Step.copyCommand at copy
  split at copy
  · rename_i none
    rw [List.isEmpty_iff] at none
    rw [none] at existing
    cases existing
  · obtain ⟨_, copy⟩ := run_single copy
    obtain ⟨t₁, start₁, same, least⟩ :=
      Database.run_copy_keys start there guards.place place parts others copy
    refine ⟨_, i, Database.run_swap swap different start₁, rfl, ?_, ?_⟩
    · exact StoredTable.guards_renamed (same ▸ guards) _ _
    · rw [StoredTable.rowKey?_renamed, same]
      exact least

end

end Engine

end EntityStore
