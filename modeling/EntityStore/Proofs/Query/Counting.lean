import EntityStore.Proofs.Query.Agreement
import EntityStore.Proofs.Query.Acceptance
import EntityStore.Proofs.Engine.Tables
import EntityStore.Engine.Connection

namespace EntityStore

open Sql (Collation Rows)

namespace Sql

/-- The text of a source, behind what is asked of its rows. -/
def Source.tail (d : Dialect) (s : Source Param) : String :=
  " FROM " ++ (Command.sourcePieces d.ident s).render d.placeholder 0

/-- The clause of a window, behind a blank. -/
def Command.pageText (d : Dialect) (page : Option Page) : String :=
  match page.bind d.pageClause with
  | some clause => " " ++ clause
  | none => ""

namespace Command

variable (d : Dialect) (source : Source Param) (page : Option Page)

theorem sql_select (columns : List ColumnRef) (order : List (ColumnRef × Direction)) :
    (Statement.ofCommand d (.select columns source order page)).sql =
      "SELECT " ++ String.intercalate ", " (columns.map (Expr.columnText d.ident)) ++
        source.tail d ++ orderText d.ident order ++ pageText d page := by
  cases clause : page.bind d.pageClause <;>
    simp only [Statement.ofCommand, pieces, Fragment.render, Fragment.render_append, Source.tail,
      pageText, clause, String.append_assoc, String.append_empty]

theorem sql_count :
    (Statement.ofCommand d (.count source page)).sql =
      match page.bind d.pageClause with
      | none => "SELECT COUNT(*)" ++ source.tail d
      | some clause =>
        "SELECT COUNT(*) FROM (SELECT 1" ++ source.tail d ++ " " ++ clause ++ ") AS " ++
          d.ident "page" := by
  have plain : "SELECT COUNT(*) FROM " = "SELECT COUNT(*)" ++ " FROM " := rfl
  have derived : "SELECT COUNT(*) FROM (SELECT 1 FROM " =
      "SELECT COUNT(*) FROM (SELECT 1" ++ " FROM " := rfl
  simp only [Statement.ofCommand, pieces]
  cases page.bind d.pageClause with
  | none => simp only [Fragment.render, Source.tail, plain, String.append_assoc]
  | some clause =>
    simp only [Fragment.render, Fragment.render_append, Source.tail, derived,
      String.append_assoc, String.append_empty]

theorem params_select (columns : List ColumnRef) (order : List (ColumnRef × Direction)) :
    d.params (.select columns source order page) = d.params (.count source page) := by
  simp only [Dialect.params, Statement.ofCommand, pieces]
  cases page.bind d.pageClause <;> simp [Fragment.operands, Fragment.operands_append]

end Command

/-- How a database arranges the rows of a source: an order moves them about, and a window takes
so many of so many. -/
structure Arrangement where
  sort : List (ColumnRef × Direction) → List Rows → List Rows
  window : String → List Rows → List Rows
  sort_perm : ∀ order rows, (sort order rows).Perm rows
  window_length : ∀ clause a b, a.length = b.length →
    (window clause a).length = (window clause b).length

section

variable (k : Collation) (tables : String → List Row)

/-- The joined rows of a source for which its condition is true. -/
def Source.rows (s : Source Param) : List Rows :=
  (s.extended k tables).filter (keeps k tables s.filter)

variable (d : Dialect) (a : Arrangement)

def Arrangement.page (page : Option Page) (rows : List Rows) : List Rows :=
  match page.bind d.pageClause with
  | some clause => a.window clause rows
  | none => rows

/-- The rows that a statement answers with: those that are selected, or one with their number. -/
def Command.answer : Command Param → List (List Value)
  | .select columns source order page =>
    (a.page d page (a.sort order (source.rows k tables))).map fun rows => columns.map rows.value
  | .count source page => [[.int (a.page d page (source.rows k tables)).length]]
  | _ => []

variable {k tables d a}

theorem Arrangement.page_length (page : Option Page) {rows rows' : List Rows}
    (same : rows.length = rows'.length) :
    (a.page d page rows).length = (a.page d page rows').length := by
  unfold Arrangement.page
  cases page.bind d.pageClause with
  | none => exact same
  | some clause => exact a.window_length clause rows rows' same

theorem Command.answer_count (columns : List ColumnRef) (source : Source Param)
    (order : List (ColumnRef × Direction)) (page : Option Page) :
    (count source page).answer k tables d a =
      [[.int ((select columns source order page).answer k tables d a).length]] := by
  have sorted : (a.sort order (source.rows k tables)).length = (source.rows k tables).length :=
    (a.sort_perm order _).length_eq
  rw [answer, answer, List.length_map, a.page_length page sorted]

end

end Sql

namespace Engine

open Sql (Source ColumnRef Command)

variable {α : Type}

theorem windowOf_length (page : Option Page) {rows rows' : List α}
    (same : rows.length = rows'.length) :
    (windowOf page rows).length = (windowOf page rows').length := by
  cases page with
  | none => exact same
  | some p => cases limited : p.limit <;> simp [windowOf, limited, same]

/-- What a statement needs of a table decides in what order its rows are read, not how many. -/
theorem sourceRows_length (db : Database) (source : Source Cell) (used used' : List String) :
    (sourceRows db source used).map List.length = (sourceRows db source used').map List.length := by
  unfold sourceRows
  refine Except.map_bind_right _ fun t => ?_
  cases plain : source.joins.isEmpty && source.filter.isNone with
  | false => rfl
  | true =>
    rw [Bool.and_eq_true, List.isEmpty_iff, Option.isNone_iff_eq_none] at plain
    have read : (t.scan used).length = (t.scan used').length :=
      ((t.scan_perm used).trans (t.scan_perm used').symm).length_eq
    simp [plain, joinAll, checkFilter, satisfies, read, bind, Except.bind, pure, Except.pure,
      Except.map]

namespace Database

theorem run_count (db : Database) (enforced : Bool) (columns : List ColumnRef)
    (source : Source Cell) (order : List (ColumnRef × Direction)) (page : Option Page) :
    db.run enforced (.count source page) =
      (db.run enforced (.select columns source order page)).map fun r =>
        (r.1, ⟨[[.int r.2.rows.length]], 0⟩) := by
  simp only [run, select]
  cases found : db.table source.table with
  | error fault => simp [sourceRows, found, bind, Except.bind, Except.map]
  | ok t =>
    have number := sourceRows_length db source []
      ((columns ++ order.map (·.1)).map (·.column))
    generalize sourceRows db source [] = plain at number ⊢
    generalize sourceRows db source ((columns ++ order.map (·.1)).map (·.column)) = asked
      at number ⊢
    cases plain with
    | error fault =>
      obtain rfl : asked = .error fault := Except.map_eq_error.mp number.symm
      rfl
    | ok rows =>
      obtain ⟨rows', rfl, same⟩ := Except.map_eq_ok.mp number.symm
      have sorted : (rows'.mergeSort (inOrder (wholeOrder t.definition order))).length =
          rows.length := (List.length_mergeSort rows').trans same
      have window := windowOf_length page sorted
      simp [bind, Except.bind, pure, Except.pure, Except.map, window]

end Database

end Engine

namespace Query

open Engine (Connection Database)

theorem count_of_select {q : Query} {selected : Sql.Command Param} (selects : q.select = .ok selected) :
    ∃ f, q.filter true = .ok f ∧
      selected = .select (q.entity.refs.map f.column) (f.source q.entity.id.table)
        (q.ordering.map fun o => (f.column o.1, o.2)) q.page ∧
      q.count = .ok (.count (f.source q.entity.id.table) q.page) := by
  obtain ⟨f, hf, rfl⟩ := selectFields_ok selects
  exact ⟨f, hf, rfl, by rw [count, hf]; rfl⟩

theorem stored_count {types : TypeMap} {columns : List Sql.ColumnRef} {source : Sql.Source Param}
    {order : List (Sql.ColumnRef × Direction)} {page : Option Page} {stored : Sql.Command Engine.Cell}
    (h : (Sql.Command.select columns source order page).mapM (Connection.stored types) =
      .ok stored) :
    ∃ source', stored = .select columns source' order page ∧
      (Sql.Command.count source page).mapM (Connection.stored types) = .ok (.count source' page) := by
  obtain ⟨source', hs, h⟩ := Except.bind_eq_ok.mp h
  cases h
  exact ⟨source', rfl, by rw [Sql.Command.mapM, hs]; rfl⟩

/-- A count is written around the text of the selection and counts its rows, whatever database
carries the two out. -/
theorem count_beside_select (q : Query) (selected : Sql.Command Param)
    (selects : q.select = .ok selected) :
    ∃ f counted, q.filter true = .ok f ∧ q.count = .ok counted ∧
      (∀ d : Dialect, ∃ tail, tail = (f.source q.entity.id.table).tail d ∧
        (Statement.ofCommand d selected).sql =
          "SELECT " ++ String.intercalate ", "
              ((q.entity.refs.map f.column).map (Sql.Expr.columnText d.ident)) ++ tail ++
            Sql.Command.orderText d.ident (q.ordering.map fun o => (f.column o.1, o.2)) ++
            Sql.Command.pageText d q.page ∧
        (Statement.ofCommand d counted).sql =
          (match q.page.bind d.pageClause with
          | none => "SELECT COUNT(*)" ++ tail
          | some clause =>
            "SELECT COUNT(*) FROM (SELECT 1" ++ tail ++ " " ++ clause ++ ") AS " ++
              d.ident "page") ∧
        (Statement.ofCommand d counted).params = (Statement.ofCommand d selected).params) ∧
      (∀ (k : Collation) (tables : String → List Sql.Row) (d : Dialect) (a : Sql.Arrangement),
        counted.answer k tables d a = [[.int (selected.answer k tables d a).length]]) ∧
      ∀ (types : TypeMap) (stored : Sql.Command Engine.Cell),
        selected.mapM (Connection.stored types) = .ok stored →
        ∃ stored', counted.mapM (Connection.stored types) = .ok stored' ∧
          ∀ (db : Database) (enforced : Bool), db.run enforced stored' =
            (db.run enforced stored).map fun r => (r.1, ⟨[[.int r.2.rows.length]], 0⟩) := by
  obtain ⟨f, hf, rfl, counts⟩ := count_of_select selects
  refine ⟨f, _, hf, counts, fun d => ⟨_, rfl, ?_, ?_, ?_⟩,
    fun k tables d a => ?_, fun types stored h => ?_⟩
  · exact Sql.Command.sql_select d (f.source q.entity.id.table) q.page _ _
  · exact Sql.Command.sql_count d (f.source q.entity.id.table) q.page
  · exact (Sql.Command.params_select d (f.source q.entity.id.table) q.page _ _).symm
  · exact Sql.Command.answer_count _ _ _ _
  · obtain ⟨source', rfl, stored'⟩ := stored_count h
    exact ⟨_, stored', fun db enforced => Database.run_count db enforced _ source' _ q.page⟩

/-- The last of the chores whose assignee has no name. -/
def lastAnonymous : Query :=
  { anonymous.orderBy [chores.ref (Field.named "id" .integer).asPrimaryKey] .desc with
    page := some ⟨none, some 1⟩ }

def anonymousSource : Sql.Source Param :=
  ⟨"chores", [⟨"people", "people", "chores", "assignee_id", "id"⟩],
    some (.nullTest ⟨some "people", "name"⟩ false)⟩

def lastAnonymousSelect : Sql.Command Param :=
  .select [⟨some "chores", "id"⟩, ⟨some "chores", "assignee_id"⟩] anonymousSource
    [(⟨some "chores", "id"⟩, .desc)] (some ⟨none, some 1⟩)

/-- Every order turns the rows round, and every window has room for one row. -/
def lastOne : Sql.Arrangement where
  sort _ rows := rows.reverse
  window _ rows := rows.take 1
  sort_perm _ rows := rows.reverse_perm
  window_length _ a b same := by simp [same]

theorem count_beside_select_anonymous :
    lastAnonymous.select = .ok lastAnonymousSelect ∧
    ∃ counted, lastAnonymous.count = .ok counted ∧
      (Statement.ofCommand .generic counted).sql =
        "SELECT COUNT(*) FROM (SELECT 1" ++ anonymousSource.tail .generic ++
          " FETCH FIRST 1 ROWS ONLY) AS \"page\"" ∧
      counted.answer sameValues (choreOf .null) .generic lastOne = [[.int 1]] := by
  have selects : lastAnonymous.select = .ok lastAnonymousSelect := rfl
  obtain ⟨f, counted, hf, counts, texts, answers, -⟩ :=
    count_beside_select lastAnonymous lastAnonymousSelect selects
  cases hf
  obtain ⟨tail, rfl, -, text, -⟩ := texts .generic
  have clause : lastAnonymous.page.bind Dialect.generic.pageClause =
      some "FETCH FIRST 1 ROWS ONLY" := rfl
  have close : " " ++ ("FETCH FIRST 1 ROWS ONLY" ++ (") AS " ++ Dialect.generic.ident "page")) =
      " FETCH FIRST 1 ROWS ONLY) AS \"page\"" := rfl
  rw [clause] at text
  simp only [String.append_assoc, close] at text
  refine ⟨selects, counted, counts, text, ?_⟩
  exact (answers sameValues (choreOf .null) .generic lastOne).trans rfl

end Query

end EntityStore
