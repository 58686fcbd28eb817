import EntityStore.Repository.Listing
import EntityStore.Proofs.Query.Counting
import EntityStore.Proofs.Repository.Task
import EntityStore.Proofs.Sql.Window

namespace EntityStore

open Engine (windowOf)

theorem Repository.compile_ok {σ : Type} {r : Repository} {x : Except Error (Sql.Command Param)}
    {s : Statement} {w w' : World σ} (h : (r.compile x).on w = (.ok s, w')) :
    ∃ command, x = .ok command ∧ s = r.statement command := by
  obtain ⟨command, w₁, core, h⟩ := Task.bind_eq_ok.mp h
  obtain ⟨made, rfl⟩ := Task.ofCore_eq_ok.mp core
  obtain ⟨⟨⟩, w₂, -, h⟩ := Task.bind_eq_ok.mp h
  obtain ⟨rfl, -⟩ := Task.pure_eq_ok.mp h
  exact ⟨command, made, rfl⟩

/-- A statement is another one with the clause of a window behind it. -/
structure Statement.Extends (s whole : Statement) (d : Dialect) (page : Option Page) : Prop where
  sql : s.sql = whole.sql ++ Sql.Command.pageText d page
  params : s.params = whole.params

/-- A selection from a window is the whole selection with a clause behind it. -/
theorem Repository.select_extends (r : Repository) (columns : List Sql.ColumnRef)
    (source : Sql.Source Param) (order : List (Sql.ColumnRef × Direction)) (page : Option Page) :
    (r.statement (.select columns source order page)).Extends
      (r.statement (.select columns source order none)) r.dialect page where
  sql := by
    rw [statement, statement, Sql.Command.sql_select, Sql.Command.sql_select]
    exact congrArg (· ++ Sql.Command.pageText r.dialect page) String.append_empty.symm
  params := by
    simp only [statement, Statement.ofCommand, Sql.Command.pieces, Sql.Fragment.operands,
      Sql.Fragment.operands_append]

namespace Query

variable {α : Type}

/-- Fewer rows of a query are the first rows of its window. -/
theorem windowOf_capped (q : Query) (cap : Nat) (rows : List α) :
    windowOf (q.capped cap).page rows = (windowOf q.page rows).take cap := by
  cases page : q.page with
  | none => simp [capped, window, page, windowOf]
  | some p =>
    cases limited : p.limit <;>
      simp [capped, window, page, windowOf, limited, List.take_take, Nat.min_comm]

/-- A query selects the same in every window of it. -/
theorem selectFields_window {q : Query} {fields : List FieldRef} {c : Sql.Command Param}
    (h : q.selectFields fields = .ok c) :
    ∃ columns source order, c = .select columns source order q.page ∧
      ∀ page, { q with page := page }.selectFields fields =
        .ok (.select columns source order page) := by
  rw [selectFields_eq] at h
  split at h
  · cases h
  · rename_i some
    obtain ⟨⟨⟩, checked, h⟩ := Except.bind_eq_ok.mp h
    obtain ⟨f, filtered, h⟩ := Except.bind_eq_ok.mp h
    obtain ⟨⟨⟩, ordered, h⟩ := Except.bind_eq_ok.mp h
    cases h
    refine ⟨_, _, _, rfl, fun page => ?_⟩
    have same : { q with page := page }.filter true = .ok f := filtered
    rw [selectFields_eq, if_neg some, checked, same, ordered]
    rfl

end Query

namespace Draft

variable {σ : Type} {draft : Draft} {r : Repository} {p : PreparedQuery} {w w' : World σ}

/-- The statements of a query select the same, each from a window of its own. -/
theorem prepare_ok (h : (draft.prepare r).on w = (.ok p, w')) :
    ∃ columns source order,
      (∀ page, { draft.query with page := page }.select =
        .ok (.select columns source order page)) ∧
      p.listing = r.statement (.select columns source order draft.query.page) ∧
      p.first = r.statement (.select columns source order (draft.query.capped 1).page) ∧
      p.single = r.statement (.select columns source order (draft.query.capped 2).page) := by
  obtain ⟨q, w₁, core, h⟩ := Task.bind_eq_ok.mp h
  obtain ⟨checked, rfl⟩ := Task.ofCore_eq_ok.mp core
  obtain rfl : draft.query = q := by
    unfold Draft.checked at checked
    split at checked
    · cases checked
    · cases checked; rfl
  obtain ⟨listing, w₂, listed, h⟩ := Task.bind_eq_ok.mp h
  obtain ⟨counting, w₃, -, h⟩ := Task.bind_eq_ok.mp h
  obtain ⟨first, w₄, one, h⟩ := Task.bind_eq_ok.mp h
  obtain ⟨single, w₅, two, h⟩ := Task.bind_eq_ok.mp h
  obtain ⟨⟨⟩, w₆, -, h⟩ := Task.bind_eq_ok.mp h
  obtain ⟨rfl, -⟩ := Task.pure_eq_ok.mp h
  obtain ⟨_, selects, rfl⟩ := Repository.compile_ok listed
  obtain ⟨_, selectsOne, rfl⟩ := Repository.compile_ok one
  obtain ⟨_, selectsTwo, rfl⟩ := Repository.compile_ok two
  obtain ⟨columns, source, order, rfl, every⟩ := Query.selectFields_window selects
  cases (every (draft.query.capped 1).page).symm.trans selectsOne
  cases (every (draft.query.capped 2).page).symm.trans selectsTwo
  exact ⟨columns, source, order, every, rfl, rfl, rfl⟩

end Draft

namespace Dialect

variable {d : Dialect} {read : String → List Row → List Row}

/-- A statement that asks for fewer rows finds the first rows of the window. Where there is no clause
to ask with, it finds more. -/
theorem through_capped (windows : d.Windows read) (q : Query) (cap : Nat) (rows : List Row) :
    (d.through read (q.capped cap).page rows).take cap = (d.through read q.page rows).take cap := by
  rcases windows with meant | unwritten
  · have every (page : Option Page) : d.through read page rows = windowOf page rows := by
      cases page with
      | none => rfl
      | some page => exact meant page rows
    rw [every, every, q.windowOf_capped, List.take_take, Nat.min_self]
  · have every (page : Option Page) : d.through read page rows = rows := by
      unfold through
      cases page with
      | none => rfl
      | some page => rw [Option.bind_some, unwritten page]
    rw [every, every]

end Dialect

/-- A database answers a query in each window from the same rows, which are all that it finds for the
query, in order. -/
def Backend.Lists {σ ε : Type} (b : Backend σ ε) (r : Repository)
    (read : String → List Row → List Row) (w : World σ) (q : Query) (rows : List Row) : Prop :=
  ∀ page command, { q with page := page }.select = .ok command →
    ∃ w', (b.select (r.statement command)).on w = (.ok (r.dialect.through read page rows), w')

/-- A database that goes by the texts of statements alone, and reads the clause behind the text of a
query, answers like that. -/
theorem Backend.lists_of_texts {σ ε : Type} {b : Backend σ ε} {r : Repository}
    {read : String → List Row → List Row} {w : World σ} {q : Query} {rows : List Row}
    {whole : Sql.Command Param} (selects : { q with page := none }.select = .ok whole)
    (answers : ∀ page s, s.Extends (r.statement whole) r.dialect page →
      ∃ w', (b.select s).on w = (.ok (r.dialect.through read page rows), w')) :
    b.Lists r read w q rows := by
  intro page command windowed
  obtain ⟨columns, source, order, rfl, every⟩ := Query.selectFields_window selects
  cases (every page).symm.trans windowed
  exact answers page _ (r.select_extends columns source order page)

namespace Engine

theorem windowOf_map {α β : Type} (page : Option Page) (rows : List α) (f : α → β) :
    (windowOf page rows).map f = windowOf page (rows.map f) := by
  cases page with
  | none => rfl
  | some p => cases limited : p.limit <;> simp [windowOf, limited]

/-- The embedded database is one of these: it cuts a window out of the rows that it selects without
one. -/
theorem Database.run_window (db : Database) (enforced : Bool) (columns : List Sql.ColumnRef)
    (source : Sql.Source Cell) (order : List (Sql.ColumnRef × Direction)) (page : Option Page) :
    db.run enforced (.select columns source order page) =
      (db.run enforced (.select columns source order none)).map fun r =>
        (r.1, ⟨windowOf page r.2.rows, 0⟩) := by
  simp only [run, select]
  cases db.table source.table with
  | error fault => rfl
  | ok t =>
    cases sourceRows db source ((columns ++ order.map (·.1)).map (·.column)) with
    | error fault => rfl
    | ok rows => exact congrArg (fun rows => Except.ok (db, Outcome.mk rows 0)) (windowOf_map _ _ _)

end Engine

namespace PreparedQuery

variable {σ ε : Type} {t : RecordType} {b : Backend σ ε} {p : PreparedQuery} {w w' : World σ}
  {rows : List Row}

theorem firstOf_take (t : RecordType) (rows : List Row) :
    firstOf t (rows.take 1) = firstOf t rows := by
  cases rows <;> rfl

theorem onlyOf_take (t : RecordType) (rows : List Row) :
    onlyOf t (rows.take 2) = onlyOf t rows := by
  rcases rows with _ | ⟨first, _ | ⟨second, rest⟩⟩ <;> rfl

theorem firstOf_eq_none : firstOf t rows = .ok none ↔ rows = [] := by
  cases rows with
  | nil => simp [firstOf]
  | cons row rest => cases read : t.ofRow row <;> simp [firstOf, read, Except.map]

theorem onlyOf_eq_none : onlyOf t rows = .ok none ↔ rows = [] := by
  rcases rows with _ | ⟨row, _ | ⟨other, rest⟩⟩
  · simp [onlyOf]
  · cases read : t.ofRow row <;> simp [onlyOf, read, Except.map]
  · simp [onlyOf]

theorem on_first? (answered : (b.select p.first).on w = (.ok rows, w')) :
    (p.first? t b).on w = (firstOf t rows, w') := by
  rw [first?, Task.on_bind, Backend.on_call, answered]
  exact Task.on_ofExcept _ _

theorem on_single? (answered : (b.select p.single).on w = (.ok rows, w')) :
    (p.single? t b).on w = (onlyOf t rows, w') := by
  rw [single?, Task.on_bind, Backend.on_call, answered]
  exact Task.on_ofExcept _ _

/-- The first row and the only row that a query asks for are those of its listing, though each has a
statement of its own, which asks for fewer rows. -/
theorem lookups_beside_listing {draft : Draft} {r : Repository}
    {read : String → List Row → List Row} {w₀ w₀' : World σ}
    (prepared : (draft.prepare r).on w₀ = (.ok p, w₀')) (windows : r.dialect.Windows read)
    (lists : b.Lists r read w draft.query rows) (t : RecordType) :
    (∃ whole, p.listing.Extends whole r.dialect draft.query.page ∧
      p.first.Extends whole r.dialect (draft.query.capped 1).page ∧
      p.single.Extends whole r.dialect (draft.query.capped 2).page) ∧
    ∃ listed, (∃ w', (b.select p.listing).on w = (.ok listed, w')) ∧
      listed = r.dialect.through read draft.query.page rows ∧
      (∃ found w', (p.first? t b).on w = (found, w') ∧ (found = .ok none ↔ listed = []) ∧
        ∀ row rest, listed = row :: rest → found = (t.ofRow row).map some) ∧
      ∃ found w', (p.single? t b).on w = (found, w') ∧ (found = .ok none ↔ listed = []) ∧
        (∀ row, listed = [row] → found = (t.ofRow row).map some) ∧
        ∀ row other rest, listed = row :: other :: rest → found = .error .multipleResults := by
  obtain ⟨columns, source, order, selects, sent, sentOne, sentTwo⟩ := Draft.prepare_ok prepared
  obtain ⟨w₁, answered⟩ := lists draft.query.page _ (selects _)
  obtain ⟨w₂, answeredOne⟩ := lists (draft.query.capped 1).page _ (selects _)
  obtain ⟨w₃, answeredTwo⟩ := lists (draft.query.capped 2).page _ (selects _)
  rw [← sent] at answered
  rw [← sentOne] at answeredOne
  rw [← sentTwo] at answeredTwo
  generalize whole : r.dialect.through read draft.query.page rows = listed at answered
  have one : firstOf t (r.dialect.through read (draft.query.capped 1).page rows) =
      firstOf t listed := by
    rw [← firstOf_take, Dialect.through_capped windows, whole, firstOf_take]
  have two : onlyOf t (r.dialect.through read (draft.query.capped 2).page rows) =
      onlyOf t listed := by
    rw [← onlyOf_take, Dialect.through_capped windows, whole, onlyOf_take]
  have behind := r.select_extends columns source order
  refine ⟨⟨_, sent ▸ behind _, sentOne ▸ behind _, sentTwo ▸ behind _⟩, listed,
    ⟨w₁, answered⟩, rfl, ⟨firstOf t listed, w₂, ?_, firstOf_eq_none, ?_⟩,
    onlyOf t listed, w₃, ?_, onlyOf_eq_none, ?_, ?_⟩
  · rw [on_first? answeredOne, one]
  · rintro row rest rfl
    rfl
  · rw [on_single? answeredTwo, two]
  · rintro row rfl
    rfl
  · rintro row other rest rfl
    rfl

/-- A database that has some rows for one text, and reads the clause behind it. -/
def shelf (text : String) (rows : List Row) : Backend Unit Empty where
  select s := pure (match s.sql.toList.drop text.toList.length with
    | _ :: clause => Dialect.readClause (String.ofList clause) rows
    | [] => rows)
  count _ := pure 0
  insert _ := pure []
  execute _ := pure 0
  introspect := pure .empty
  message := Empty.elim

theorem shelf_lists {r : Repository} {q : Query} {whole : Sql.Command Param}
    (selects : { q with page := none }.select = .ok whole) (rows : List Row) (w : World Unit) :
    (shelf (r.statement whole).sql rows).Lists r Dialect.readClause w q rows := by
  refine Backend.lists_of_texts selects fun page s behind => ⟨w, ?_⟩
  have clause : s.sql.toList.drop (r.statement whole).sql.toList.length =
      (Sql.Command.pageText r.dialect page).toList := by
    rw [behind.sql, String.toList_append, List.drop_left]
  change (Except.ok _, w) = _
  rw [clause]
  unfold Sql.Command.pageText Dialect.through
  cases page.bind r.dialect.pageClause with
  | none => rfl
  | some text =>
    have blank : (" " ++ text).toList = ' ' :: text.toList := by rw [String.toList_append]; rfl
    rw [blank]
    simp

def note : RecordType :=
  ⟨⟨⟨"Note", "notes"⟩, [(Field.named "id" .integer).asPrimaryKey, .named "text" .text]⟩,
    [.int64, .text], none⟩

def noted : List Row :=
  [⟨[("id", .int 1), ("text", .text "a")]⟩, ⟨[("id", .int 2), ("text", .text "b")]⟩,
    ⟨[("id", .int 3), ("text", .text "c")]⟩]

/-- All notes but the first. -/
def laterNotes : Draft := (Draft.all note.entity).skip 1

def allNotes : Sql.Command Param :=
  .select [⟨none, "id"⟩, ⟨none, "text"⟩] ⟨"notes", [], none⟩ [] none

theorem lookups_beside_listing_notes : ∃ p w',
    (laterNotes.prepare (.of .sqlite)).on (⟨(), []⟩ : World Unit) = (.ok p, w') ∧
    ((p.first? note (shelf ((Repository.of .sqlite).statement allNotes).sql noted)).on
      ⟨(), []⟩).1 = .ok (some [.int 2, .text "b"]) ∧
    ((p.single? note (shelf ((Repository.of .sqlite).statement allNotes).sql noted)).on
      ⟨(), []⟩).1 = .error .multipleResults := by
  have prepared : ∃ p w', (laterNotes.prepare (.of .sqlite)).on (⟨(), []⟩ : World Unit) =
      (.ok p, w') := ⟨_, _, rfl⟩
  obtain ⟨p, w', prepared⟩ := prepared
  have selects : { laterNotes.query with page := none }.select = .ok allNotes := rfl
  obtain ⟨-, listed, -, through, ⟨first, w₁, onFirst, -, firstRow⟩, single, w₂, onSingle, -, -,
    several⟩ := lookups_beside_listing prepared Dialect.windows_sqlite
      (shelf_lists selects noted ⟨(), []⟩) note
  have later : listed = noted.drop 1 :=
    through.trans (Dialect.through_sqlite ⟨some 1, none⟩ noted)
  refine ⟨p, w', prepared, ?_, ?_⟩
  · rw [onFirst]
    exact firstRow _ _ later
  · rw [onSingle]
    exact several _ _ _ later

end PreparedQuery

end EntityStore
