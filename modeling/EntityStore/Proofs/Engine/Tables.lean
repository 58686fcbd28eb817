import EntityStore.Engine.Run
import EntityStore.Proofs.Outcome
import Mathlib.Data.List.Find

namespace EntityStore

/-- Names of one table are the same as the same other names. -/
theorem Text.sameIgnoringCase_congr {a b : String} (same : sameIgnoringCase a b = true) (c : String) :
    sameIgnoringCase a c = sameIgnoringCase b c := by
  simp only [sameIgnoringCase, beq_iff_eq] at same ⊢
  rw [same]

namespace Engine

open EntityStore.Sql (Command TableDef Fill)
open EntityStore.Text (sameIgnoringCase sameIgnoringCase_comm sameIgnoringCase_congr
  sameIgnoringCase_refl)

namespace StoredTable

theorem placeByKey_perm (i : Nat) (row : List Cell) (others : List (List Cell)) :
    (placeByKey i row others).Perm (row :: others) := by
  induction others with
  | nil => rfl
  | cons r rest ih =>
    rw [placeByKey]
    split
    · rfl
    · exact (ih.cons r).trans (List.Perm.swap row r rest)

theorem place_perm (t : StoredTable) (row : List Cell) (others : List (List Cell)) :
    (t.place row others).Perm (row :: others) := by
  unfold place
  split
  · exact placeByKey_perm _ row others
  · exact List.perm_append_singleton row others

theorem insert_ok {t t' : StoredTable} {row written : List Cell}
    (h : t.insert row = .ok (t', written)) :
    t'.definition = t.definition ∧ t'.rows.Perm (written :: t.rows) := by
  obtain ⟨_, -, h⟩ := Except.bind_eq_ok.mp h
  obtain ⟨-, -, h⟩ := Except.bind_eq_ok.mp h
  cases h
  exact ⟨rfl, place_perm t written t.rows⟩

/-- Every row goes in once. -/
theorem insertAll_ok {t t' : StoredTable} {rows written : List (List Cell)}
    (h : t.insertAll rows = .ok (t', written)) :
    t'.definition = t.definition ∧ written.length = rows.length ∧
      t'.rows.Perm (written ++ t.rows) := by
  induction rows generalizing t written with
  | nil =>
    cases h
    exact ⟨rfl, rfl, .refl _⟩
  | cons row rest ih =>
    obtain ⟨⟨next, first⟩, inserted, h⟩ := Except.bind_eq_ok.mp h
    obtain ⟨⟨last, others⟩, more, h⟩ := Except.bind_eq_ok.mp h
    cases h
    obtain ⟨definition, perm⟩ := insert_ok inserted
    obtain ⟨definition', length, perm'⟩ := ih more
    refine ⟨definition'.trans definition, congrArg Nat.succ length, ?_⟩
    exact (perm'.trans (perm.append_left others)).trans List.perm_middle

theorem addColumn_ok {t t' : StoredTable} {c : Sql.ColumnDef} (h : t.addColumn c = .ok t') :
    (t.definition.index? c.name).isSome = false ∧ t' = { t with
      definition := { t.definition with columns := t.definition.columns ++ [c] }
      rows := t.rows.map fun row => row ++ [.null] } := by
  unfold addColumn at h
  split at h
  · cases h
  · rename_i fresh
    cases h
    exact ⟨Bool.eq_false_iff.mpr fresh, rfl⟩

theorem dropColumn_name {t t' : StoredTable} {column : String} (h : t.dropColumn column = .ok t') :
    t'.name = t.name := by
  unfold dropColumn at h
  split at h <;> cases h
  rfl

/-- The table under another name, with the references to itself. -/
def renamed (t : StoredTable) (old new : String) : StoredTable :=
  ({ t with definition := { t.definition with name := new } } : StoredTable).retarget old new

theorem retarget_name (t : StoredTable) (old new : String) : (t.retarget old new).name = t.name := rfl

theorem scan_perm (t : StoredTable) (used : List String) : (t.scan used).Perm t.rows := by
  unfold scan
  split
  · exact List.mergeSort_perm _ _
  · rfl

end StoredTable

theorem Scope.cell_of_index {table column : String} {d : TableDef} {row : List Cell} {i : Nat}
    (there : d.index? column = some i) :
    Scope.cell [⟨table, d, row⟩] ⟨none, column⟩ = cellAt row i := by
  simp [Scope.cell, Frame.cell?, there]

namespace Database

variable {db db' : Database} {name other : String} {t : StoredTable}

theorem table?_name (h : db.table? name = some t) : sameIgnoringCase t.name name = true :=
  List.find?_some (p := fun t : StoredTable => sameIgnoringCase t.name name) h

theorem table?_of_mem (here : t ∈ db.tables) (same : sameIgnoringCase t.name name = true) :
    ∃ first, db.table? name = some first := by
  rw [← Option.isSome_iff_exists, table?, List.find?_isSome]
  exact ⟨t, here, same⟩

theorem table_ok (h : db.table name = .ok t) : db.table? name = some t := by
  unfold table at h
  split at h
  · rename_i found
    cases h
    exact found
  · cases h

/-- Tables of one name are one table. -/
theorem table?_congr (same : sameIgnoringCase name other = true) :
    db.table? name = db.table? other := by
  refine congrArg (List.find? · db.tables) (funext fun t => ?_)
  rw [sameIgnoringCase_comm t.name, sameIgnoringCase_comm t.name, sameIgnoringCase_congr same]

theorem table?_add (t : StoredTable) :
    (⟨db.tables ++ [t]⟩ : Database).table? name =
      (db.table? name).or (if sameIgnoringCase t.name name then some t else none) := by
  rw [table?, List.find?_append, List.find?_singleton]
  rfl

theorem table?_put (same : sameIgnoringCase t.name name = true) {old : StoredTable}
    (there : db.table? name = some old) : (db.put t).table? name = some t := by
  unfold table? put at *
  rw [List.find?_map]
  have replaced : ((fun t => sameIgnoringCase t.name name) ∘ fun old : StoredTable =>
        if sameIgnoringCase old.name t.name then t else old) =
      fun t => sameIgnoringCase t.name name := by
    funext old
    simp only [Function.comp]
    split
    · rename_i here
      rw [same, sameIgnoringCase_congr here, same]
    · rfl
  rw [replaced, there, Option.map_some, if_pos]
  have here := List.find?_some there
  rw [sameIgnoringCase_congr here, sameIgnoringCase_comm]
  exact same

theorem table?_put_of_ne (different : sameIgnoringCase t.name name = false) :
    (db.put t).table? name = db.table? name := by
  unfold table? put
  rw [List.find?_map]
  have kept : ((fun t => sameIgnoringCase t.name name) ∘ fun old : StoredTable =>
        if sameIgnoringCase old.name t.name then t else old) =
      fun old => sameIgnoringCase old.name name := by
    funext old
    simp only [Function.comp]
    split
    · rename_i here
      rw [different, sameIgnoringCase_congr here, different]
    · rfl
  rw [kept]
  cases found : db.tables.find? fun old => sameIgnoringCase old.name name with
  | none => rfl
  | some old =>
    rw [Option.map_some, if_neg]
    intro here
    have same := List.find?_some found
    rw [sameIgnoringCase_congr here, different] at same
    cases same

theorem table?_remove (different : sameIgnoringCase other name = false) :
    (db.remove other).table? name = db.table? name := by
  unfold table? remove
  rw [List.find?_filter]
  refine congrArg (List.find? · db.tables) (funext fun t => ?_)
  cases here : sameIgnoringCase t.name name with
  | false => simp
  | true =>
    rw [sameIgnoringCase_congr here, sameIgnoringCase_comm, different]
    rfl

theorem create_eq (d : TableDef) :
    db.create d =
      if reserved d.name then .error (.reservedName d.name)
      else if (db.table? d.name).isSome then .error (.tableExists d.name)
      else if d.kept.columns.isEmpty then
        .error (.unexpected (if d.kept.key.isEmpty then ")" else "PRIMARY"))
      else (do
        checkColumns d.kept [] false d.kept.columns
        if d.kept.key.any fun column => (d.kept.index? column).isNone then .error .keyExpression
        else .ok ⟨db.tables ++ [.ofDefinition d.kept]⟩) := by
  rfl

/-- A table is created where there is none of its name, after a look at its columns and its key. -/
theorem create_ok {d : TableDef} (h : db.create d = .ok db') :
    db.table? d.name = none ∧ db' = ⟨db.tables ++ [.ofDefinition d.kept]⟩ ∧
      checkColumns d.kept [] false d.kept.columns = .ok () ∧
      ∀ part ∈ d.kept.key, (d.kept.index? part).isSome := by
  rw [create_eq] at h
  split at h
  · cases h
  · split at h
    · cases h
    · rename_i absent
      split at h
      · cases h
      · obtain ⟨⟨⟩, checked, h⟩ := Except.bind_eq_ok.mp h
        split at h
        · cases h
        · rename_i found
          cases h
          refine ⟨by simpa using absent, rfl, checked, fun part hpart => ?_⟩
          have there := List.any_eq_false.mp (Bool.eq_false_iff.mpr found) part hpart
          rwa [Option.isNone_iff_eq_none, ← Ne, ← Option.isSome_iff_ne_none] at there

/-- The table is found under its new name. -/
theorem rename_ok {old new : String} (h : db.rename old new = .ok db') :
    ∃ t, db.table? old = some t ∧ db'.table? new = some (t.renamed old new) := by
  obtain ⟨t, found, h⟩ := Except.bind_eq_ok.mp h
  split at h
  · cases h
  · rename_i free
    cases h
    have there := table_ok found
    generalize whole : ({ t with definition := { t.definition with name := new } } : StoredTable) =
      renamed
    have name : renamed.name = new := by rw [← whole]; rfl
    have only (other : StoredTable) (here : other ∈ db.tables) :
        sameIgnoringCase (if sameIgnoringCase other.name old then renamed else other).name new =
          sameIgnoringCase other.name old := by
      split
      · rename_i same
        rw [name, same]
        exact sameIgnoringCase_refl new
      · rename_i different
        rw [Bool.eq_false_iff.mpr different, Bool.eq_false_iff]
        intro same
        obtain ⟨first, taken⟩ := table?_of_mem here same
        rw [taken] at free
        have moves : sameIgnoringCase first.name old = true := by simpa using free
        rw [sameIgnoringCase_congr (table?_name taken) old] at moves
        exact different ((sameIgnoringCase_congr same old).trans moves)
    have first : db.tables.find? (fun other => sameIgnoringCase
        (if sameIgnoringCase other.name old then renamed else other).name new) = some t :=
      (List.find?_congr only).trans there
    refine ⟨t, there, ?_⟩
    rw [StoredTable.renamed, whole, table?, List.find?_map, List.find?_map]
    simp only [Function.comp_def, StoredTable.retarget_name]
    rw [first, Option.map_some, Option.map_some, if_pos (table?_name there)]

theorem insertRows_eq (enforced alone : Bool) (table : String) (columns : List String)
    (rows : List (List Cell)) :
    db.insertRows enforced table columns rows alone =
      if columns.isEmpty then .error (.unexpected ")")
      else (do
        let t ← db.table table
        let complete ← rows.mapM fun row => t.rowOf table (columns.zip row)
        let _ ← (if enforced then db.checkLinks t.definition .rows alone else .ok ())
        let (t', written) ← t.insertAll complete
        let _ ← (if enforced then settle (db.insertBalance t alone t.rows written 0) else .ok ())
        .ok (db.put t', t', written)) := by
  cases enforced <;> rfl

/-- Rows are completed and put into the table one after another. -/
theorem insertRows_inserted {enforced alone : Bool} {table : String} {columns : List String}
    {rows written : List (List Cell)} {t' : StoredTable}
    (h : db.insertRows enforced table columns rows alone = .ok (db', t', written)) :
    ∃ t complete, db.table? table = some t ∧
      rows.mapM (fun row => t.rowOf table (columns.zip row)) = .ok complete ∧
      t.insertAll complete = .ok (t', written) ∧ db' = db.put t' := by
  rw [insertRows_eq] at h
  split at h
  · cases h
  · obtain ⟨t, found, h⟩ := Except.bind_eq_ok.mp h
    obtain ⟨complete, whole, h⟩ := Except.bind_eq_ok.mp h
    obtain ⟨-, -, h⟩ := Except.bind_eq_ok.mp h
    obtain ⟨⟨t', written⟩, inserted, h⟩ := Except.bind_eq_ok.mp h
    obtain ⟨-, -, h⟩ := Except.bind_eq_ok.mp h
    cases h
    exact ⟨t, complete, table_ok found, whole, inserted, rfl⟩

/-- Inserted rows are added to those that are there. -/
theorem insertRows_ok {enforced alone : Bool} {table : String} {columns : List String}
    {rows written : List (List Cell)} {t' : StoredTable}
    (h : db.insertRows enforced table columns rows alone = .ok (db', t', written)) :
    ∃ t, db.table? table = some t ∧ db' = db.put t' ∧ t'.definition = t.definition ∧
      t'.rows.length = rows.length + t.rows.length := by
  obtain ⟨t, complete, found, whole, inserted, rfl⟩ := insertRows_inserted h
  obtain ⟨definition, length, perm⟩ := StoredTable.insertAll_ok inserted
  refine ⟨t, found, rfl, definition, ?_⟩
  rw [perm.length_eq, List.length_append, length, (Except.mapM_forall₂ whole).length_eq]

theorem copyRows_ok {enforced : Bool} {target source : String} {fills : List (String × Fill Cell)}
    {n : Nat} (h : db.copyRows enforced target fills source = .ok (db', n)) :
    ∃ t t' from_, db.table? target = some t ∧ db.table? source = some from_ ∧ db' = db.put t' ∧
      t'.definition = t.definition ∧ t'.rows.length = from_.rows.length + t.rows.length := by
  obtain ⟨from_, source, h⟩ := Except.bind_eq_ok.mp h
  obtain ⟨⟨db', t', written⟩, inserted, h⟩ := Except.bind_eq_ok.mp h
  cases h
  obtain ⟨t, there, put, definition, length⟩ := insertRows_ok inserted
  refine ⟨t, t', from_, there, table_ok source, put, definition, ?_⟩
  rw [length, List.length_map, (from_.scan_perm _).length_eq]

theorem updateRows_ok {enforced : Bool} {table : String} {sets : List (String × Cell)}
    {filter : Option (Sql.Expr Cell)} {n : Nat}
    (h : db.updateRows enforced table sets filter = .ok (db', n)) :
    ∃ t rows, db.table? table = some t ∧ db' = db.put { t with rows := rows } := by
  obtain ⟨t, found, h⟩ := Except.bind_eq_ok.mp h
  obtain ⟨sets', -, h⟩ := Except.bind_eq_ok.mp h
  obtain ⟨-, -, h⟩ := Except.bind_eq_ok.mp h
  obtain ⟨t', changed, h⟩ := Except.bind_eq_ok.mp (Except.of_guarded h)
  cases Except.of_guarded h
  obtain ⟨rows, -, changed⟩ := Except.bind_eq_ok.mp changed
  cases changed
  exact ⟨t, _, table_ok found, rfl⟩

theorem deleteRows_ok {enforced : Bool} {table : String} {filter : Option (Sql.Expr Cell)} {n : Nat}
    (h : db.deleteRows enforced table filter = .ok (db', n)) :
    ∃ t rows, db.table? table = some t ∧ db' = db.put { t with rows := rows } := by
  obtain ⟨t, found, h⟩ := Except.bind_eq_ok.mp h
  obtain ⟨-, -, h⟩ := Except.bind_eq_ok.mp h
  cases Except.of_guarded (Except.of_guarded h)
  exact ⟨t, _, table_ok found, rfl⟩

/-- Runs statements one after another. -/
def runAll (enforced : Bool) (db : Database) : List (Command Cell) → Except Fault Database
  | [] => .ok db
  | c :: rest => do
    let (db', _) ← db.run enforced c
    runAll enforced db' rest

theorem runAll_cons_ok {enforced : Bool} {c : Command Cell} {rest : List (Command Cell)}
    (h : db.runAll enforced (c :: rest) = .ok db') :
    ∃ next outcome, db.run enforced c = .ok (next, outcome) ∧ next.runAll enforced rest = .ok db' := by
  obtain ⟨⟨next, outcome⟩, first, h⟩ := Except.bind_eq_ok.mp h
  exact ⟨next, outcome, first, h⟩

theorem runAll_append_ok {enforced : Bool} {commands rest : List (Command Cell)}
    (h : db.runAll enforced (commands ++ rest) = .ok db') :
    ∃ mid, db.runAll enforced commands = .ok mid ∧ mid.runAll enforced rest = .ok db' := by
  induction commands generalizing db with
  | nil => exact ⟨db, rfl, h⟩
  | cons c commands ih =>
    obtain ⟨next, outcome, first, h⟩ := runAll_cons_ok h
    obtain ⟨mid, others, later⟩ := ih h
    exact ⟨mid, Except.bind_eq_ok.mpr ⟨(next, outcome), first, others⟩, later⟩

end Database

end Engine

end EntityStore
