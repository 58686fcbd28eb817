import EntityStore.Proofs.Query.Parameters
import EntityStore.Proofs.Sql.Insertion

namespace EntityStore

namespace Entity

/-- The place of a field's column: fields that are left out before it have none. -/
def place (fields : List Field) (p : Nat) : Nat :=
  ((fields.take p).filter fun f => !leavesOut f).length

/-- A tuple binds the values of a row in the columns of their fields, and no other values. -/
structure Placed (fields : List Field) (row : List Value) (columns : List String)
    (tuple : List Param) : Prop where
  width : tuple.length = columns.length
  there : ∀ p f v, fields[p]? = some f → row[p]? = some v → leavesOut f = false →
    columns[place fields p]? = some f.column ∧ tuple[place fields p]? = some ⟨f.type, v⟩
  only : ∀ k param, tuple[k]? = some param → ∃ p f v, fields[p]? = some f ∧ row[p]? = some v ∧
    leavesOut f = false ∧ place fields p = k ∧ param = ⟨f.type, v⟩

theorem place_zero (fields : List Field) : place fields 0 = 0 := rfl

theorem place_succ (f : Field) (fields : List Field) (p : Nat) :
    place (f :: fields) (p + 1) = place fields p + if leavesOut f then 0 else 1 := by
  unfold place
  cases hf : leavesOut f <;> simp [hf]

/-- Fields that are not left out have places of their own, in the order of the fields. -/
theorem place_lt {fields : List Field} {p p' : Nat} (before : p < p') {f : Field}
    (here : fields[p]? = some f) (kept : leavesOut f = false) :
    place fields p < place fields p' := by
  induction fields generalizing p p' with
  | nil => cases here
  | cons g fields ih =>
    obtain ⟨p', rfl⟩ : ∃ k, p' = k + 1 := ⟨p' - 1, by omega⟩
    cases p with
    | zero =>
      obtain rfl : g = f := Option.some.inj here
      rw [place_zero, place_succ, if_neg (by simp [kept])]
      omega
    | succ p =>
      rw [place_succ, place_succ]
      have inside := ih (Nat.lt_of_succ_lt_succ before) here
      omega

section

variable {fields : List Field} {row : List Value} {columns : List String} {tuple : List Param}

theorem placed_nil : Placed [] [] [] [] where
  width := rfl
  there _ _ _ here := by cases here
  only _ _ here := by cases here

/-- A field that is left out moves no column. -/
theorem Placed.leave (placed : Placed fields row columns tuple) {f : Field}
    (left : leavesOut f = true) (v : Value) : Placed (f :: fields) (v :: row) columns tuple where
  width := placed.width
  there p g w hg hw kept := by
    cases p with
    | zero =>
      obtain rfl : f = g := Option.some.inj hg
      rw [left] at kept
      cases kept
    | succ p =>
      rw [place_succ, if_pos left]
      exact placed.there p g w hg hw kept
  only k param found := by
    obtain ⟨p, g, w, hg, hw, kept, rfl, same⟩ := placed.only k param found
    exact ⟨p + 1, g, w, hg, hw, kept, by rw [place_succ, if_pos left, Nat.add_zero], same⟩

/-- Any other takes the first column, and those behind it move down. -/
theorem Placed.take (placed : Placed fields row columns tuple) {f : Field}
    (kept : leavesOut f = false) (v : Value) :
    Placed (f :: fields) (v :: row) (f.column :: columns) (⟨f.type, v⟩ :: tuple) where
  width := congrArg Nat.succ placed.width
  there p g w hg hw stays := by
    cases p with
    | zero =>
      obtain rfl : f = g := Option.some.inj hg
      obtain rfl : v = w := Option.some.inj hw
      exact ⟨rfl, rfl⟩
    | succ p =>
      rw [place_succ, if_neg (by simp [kept])]
      exact placed.there p g w hg hw stays
  only k param found := by
    cases k with
    | zero =>
      obtain rfl : (⟨f.type, v⟩ : Param) = param := Option.some.inj found
      exact ⟨0, f, v, rfl, rfl, kept, rfl, rfl⟩
    | succ k =>
      obtain ⟨p, g, w, hg, hw, stays, rfl, same⟩ := placed.only k param found
      exact ⟨p + 1, g, w, hg, hw, stays, by rw [place_succ, if_neg (by simp [kept])], same⟩

end

theorem placed_boundValues {fields : List Field} {row : List Value}
    (wide : row.length = fields.length) :
    Placed fields row ((fields.filter fun f => !leavesOut f).map (·.column))
      (boundValues fields row) := by
  induction fields generalizing row with
  | nil =>
    obtain rfl := List.eq_nil_of_length_eq_zero wide
    exact placed_nil
  | cons f fields ih =>
    obtain ⟨v, row, rfl⟩ := List.exists_cons_of_length_eq_add_one wide
    have inside := ih (Nat.succ.inj wide)
    rw [boundValues]
    cases hf : leavesOut f with
    | true =>
      rw [if_pos (by simpa [leavesOut] using hf), List.filter_cons_of_neg (by simp [hf])]
      exact inside.leave hf v
    | false =>
      rw [if_neg (by simpa [leavesOut] using hf), List.filter_cons_of_pos (by simp [hf])]
      exact inside.take hf v

/-- What is wrong with rows that are to be inserted: there are none, or one is too wide or too
narrow. -/
def rowFaults (e : Entity) (rows : List (List Value)) : List Error :=
  if rows.isEmpty then [.invalidArgument .emptyInsert]
  else rows.flatMap fun row => if row.length = e.fields.length then []
    else [.invalidArgument (.rowWidth e.id.name row.length e.fields.length)]

theorem insert_reports (e : Entity) (d : Dialect) (rows : List (List Value)) :
    (e.insert d rows).Reports (e.rowFaults rows) := by
  rw [insert_eq, rowFaults]
  split
  · rfl
  · refine Except.Reports.bind_ok (Except.reports_forM fun row _ => ?_) fun _ => ⟨_, rfl⟩
    rw [checkWidth]
    split
    · exact ⟨(), rfl⟩
    · rfl

theorem rowFaults_eq_nil {e : Entity} {rows : List (List Value)} :
    e.rowFaults rows = [] ↔ rows ≠ [] ∧ ∀ row ∈ rows, row.length = e.fields.length := by
  cases rows with
  | nil => simp [rowFaults]
  | cons row rows => simp [rowFaults]

/-- Rows are inserted unless there are none or one has not a value for each field. The statement
reads as the columns of all fields but generated keys, in the order of the fields, and a tuple for
each row: the value of a field stands at its column under its type, and no other value is bound. -/
theorem values_in_columns (e : Entity) (d : Dialect) (rows : List (List Value)) :
    ((∃ error, e.insert d rows = .error error) ↔
      rows = [] ∨ ∃ row ∈ rows, row.length ≠ e.fields.length) ∧
    (∀ p p' f, p < p' → e.fields[p]? = some f → leavesOut f = false →
      place e.fields p < place e.fields p') ∧
    ∀ c, e.insert d rows = .ok c → ∃ i : Sql.Insertion Param,
      c = .insert i.table i.columns i.tuples i.returning ∧
      (d.Legible → Sql.readInsertion d (Statement.ofCommand d c).params
        (Statement.ofCommand d c).sql = some i) ∧
      i.table = e.id.table ∧
      i.columns = (e.fields.filter fun f => !(f.primaryKey && f.generated)).map (·.column) ∧
      i.tuples.length = rows.length ∧
      (Statement.ofCommand d c).params = i.tuples.flatten ∧
      ∀ (n : Nat) (row : List Value) (tuple : List Param), rows[n]? = some row →
        i.tuples[n]? = some tuple → Placed e.fields row i.columns tuple := by
  have reported := e.insert_reports d rows
  refine ⟨?_, fun p p' f before here kept => place_lt before here kept, ?_⟩
  · rw [reported.error_iff, ← List.isEmpty_eq_false_iff_exists_mem, List.isEmpty_eq_false_iff, Ne,
      rowFaults_eq_nil]
    push Not
    exact or_iff_not_imp_left.symm
  · intro c made
    obtain ⟨nonempty, wide⟩ := rowFaults_eq_nil.mp (reported.ok_iff.mp ⟨c, made⟩)
    obtain rfl := insert_ok made
    have tuples : rows.map e.rowParams ≠ [] := by simpa using nonempty
    refine ⟨⟨e.id.table, _, rows.map e.rowParams, e.returning d⟩, rfl, fun legible => ?_, rfl, rfl,
      List.length_map _, ?_, fun n row tuple there bound => ?_⟩
    · exact Sql.readInsertion_pieces legible _ _ tuples _
    · exact Sql.operands_insert d e.id.table (e.insertedFields.map (·.column))
        (rows.map e.rowParams) (e.returning d)
    · rw [List.getElem?_map, there] at bound
      obtain rfl := Option.some.inj bound
      rw [rowParams_eq]
      exact placed_boundValues (wide row (List.mem_of_getElem? there))

end Entity

/-- Parameters are marked by their numbers. -/
def Dialect.numbered : Dialect :=
  { Dialect.generic with placeholder := fun n => "$" ++ Nat.repr n, returnsKeys := true }

theorem Dialect.legible_numbered : numbered.Legible where
  quote := by decide
  mark n := ⟨'$', (Nat.repr n).toList, by simp [numbered], by decide, by decide⟩

namespace Entity

/-- One generated key stands between other fields, and one behind them. -/
def entries : Entity :=
  ⟨⟨"Entry", "entries"⟩,
    [.named "title" .text, (Field.named "id" .integer).asPrimaryKey.asGenerated,
      .named "pages" .integer, (Field.named "line" .integer).asPrimaryKey.asGenerated]⟩

def entryRows : List (List Value) :=
  [[.text "a", .int 7, .int 1, .null], [.text "b", .null, .int 2, .int 9]]

def entryInsertion : Sql.Insertion Param :=
  ⟨"entries", ["title", "pages"],
    [[⟨.text, .text "a"⟩, ⟨.integer, .int 1⟩], [⟨.text, .text "b"⟩, ⟨.integer, .int 2⟩]], some "id"⟩

theorem values_in_columns_entries :
    (∃ error, entries.insert .numbered [[.text "a", .int 1]] = .error error) ∧
    ∃ c, entries.insert .numbered entryRows = .ok c ∧
      (Statement.ofCommand .numbered c).sql =
        "INSERT INTO \"entries\" (\"title\", \"pages\") VALUES ($1, $2), ($3, $4)" ++
          " RETURNING \"id\"" ∧
      Sql.readInsertion .numbered (Statement.ofCommand .numbered c).params
        (Statement.ofCommand .numbered c).sql = some entryInsertion ∧
      Placed entries.fields [.text "b", .null, .int 2, .int 9] ["title", "pages"]
        [⟨.text, .text "b"⟩, ⟨.integer, .int 2⟩] := by
  have narrow := (values_in_columns entries .numbered [[.text "a", .int 1]]).1.mpr
    (.inr ⟨_, List.mem_cons_self, by decide⟩)
  obtain ⟨i, same, read, -, -, -, -, placed⟩ :=
    (values_in_columns entries .numbered entryRows).2.2 _ rfl
  obtain rfl : entryInsertion = i := by
    cases i
    cases same
    rfl
  exact ⟨narrow, _, rfl, by decide +kernel, read Dialect.legible_numbered, placed 1 _ _ rfl rfl⟩

end Entity

end EntityStore
