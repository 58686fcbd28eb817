import EntityStore.Proofs.Condition.Holds
import EntityStore.Proofs.Query.Paths
import EntityStore.Proofs.Query.Compile
import EntityStore.Proofs.Sql.Grammar

namespace EntityStore

open Engine (Truth)
open Sql (Collation Row Rows)

namespace Condition

theorem normal_binaryExpr {column : Sql.ColumnRef} {field : FieldRef} {op : BinaryOp}
    {operand : Value} {e : Sql.Expr Param} (h : binaryExpr column field op operand = .ok e) :
    e.Normal := by
  unfold binaryExpr at h
  split at h
  · cases op <;> cases h <;> exact .nullTest _ _
  · split at h
    · cases operand <;> cases h
      exact .compare _ _ _
    · cases h
      exact .compare _ _ _

theorem normal_toExpr (reach : Reach) (qualify : Bool) {scope : Option Nat} {name : String}
    {c : Condition} {e : Sql.Expr Param} (h : c.toExpr reach qualify scope name = .ok e) :
    e.Normal := by
  induction c generalizing scope name e with
  | unary f op => cases h; exact .nullTest _ _
  | binary f op v => exact normal_binaryExpr h
  | ternary f op v w => cases op; cases h; exact .between _ _ _
  | collection f op vs =>
    cases h
    cases vs with
    | nil => exact .constant _
    | cons v vs => exact .among _ _ _ _
  | relational relation inner ih =>
    simp only [toExpr] at h
    cases reach with
    | joined joins =>
      dsimp only at h
      split at h
      · cases h
      · split at h
        · cases h
        · exact ih h
    | nested =>
      obtain ⟨hop, -, h⟩ := Except.bind_eq_ok.mp h
      obtain ⟨e', he, h⟩ := Except.bind_eq_ok.mp h
      cases h
      exact .amongRows _ _ _ (ih he)
  | composite op children ih =>
    obtain ⟨es, hes, h⟩ := Except.bind_eq_ok.mp h
    cases h
    rw [toExprs_eq] at hes
    refine .ofParts op fun e he => ?_
    obtain ⟨c, hc, h⟩ := Except.mapM_mem hes he
    exact ih c hc h

/-- The name of the table that a join, or the root, goes by. -/
def Standing (root : String) (joins : List Join) (name : String) : Option Nat → Prop
  | none => name = root
  | some i => ∃ j, joins[i]? = some j ∧ name = j.name

section

variable {root : String} {joins : List Join} (rows : Path → Row)

theorem value_standing (distinct : (root :: joins.map (·.name)).Nodup) {scope : Option Nat}
    {name : String} (standing : Standing root joins name scope) (column : String) :
    (Join.rowsAt (root :: joins.map (·.name)) ([] :: Join.paths joins) rows).value
        ⟨some name, column⟩ =
      rows (Hop.pathAt (Join.paths joins) scope) column := by
  cases scope with
  | none =>
    subst standing
    exact Join.value_rowsAt (i := 0) distinct rfl rfl rows column
  | some i =>
    obtain ⟨j, hj, rfl⟩ := standing
    have place : i < (Join.paths joins).length := by
      rw [Join.paths, Hop.paths_length, List.length_map]
      exact (List.getElem?_eq_some_iff.mp hj).1
    have path : ([] :: Join.paths joins)[i + 1]? =
        some (Hop.pathAt (Join.paths joins) (some i)) := by
      simp [Hop.pathAt, place]
    have named : (root :: joins.map (·.name))[i + 1]? = some j.name := by
      rw [List.getElem?_cons_succ, List.getElem?_map, hj]
      rfl
    exact Join.value_rowsAt distinct named path rows column

/-- Columns carry the name of their table where there is more than one, and so find its row. -/
theorem value_columnOf (distinct : (root :: joins.map (·.name)).Nodup) {scope : Option Nat}
    {name : String} (standing : Standing root joins name scope) (field : FieldRef) :
    (Join.rowsAt (root :: joins.map (·.name)) ([] :: Join.paths joins) rows).value
        (columnOf (!joins.isEmpty) name field) =
      rows (Hop.pathAt (Join.paths joins) scope) field.field.column := by
  cases joins with
  | nil =>
    cases scope with
    | none => rfl
    | some i =>
      obtain ⟨j, hj, -⟩ := standing
      simp at hj
  | cons first joins => exact value_standing rows distinct standing field.field.column

variable {k : Collation} {tables : String → List Row}

/-- The join that a relation takes ends the path that goes on by the relation. -/
theorem pathAt_taken (grown : Hop.Grown (joins.map (·.toHop))) {scope : Option Nat}
    {relation : FieldRef} {index : Nat} {join : Join}
    (taken : joins.findIdx? (fun j => j.toHop.takes scope relation) = some index)
    (found : joins[index]? = some join) :
    Hop.pathAt (Join.paths joins) (some index) =
      Hop.pathAt (Join.paths joins) scope ++ [relation.step] := by
  obtain ⟨inside, takes, -⟩ := List.findIdx?_eq_some_iff_getElem.mp taken
  have same : joins[index] = join := by
    rw [List.getElem?_eq_getElem inside] at found
    exact Option.some.inj found
  rw [same] at takes
  simp only [Hop.takes, FieldRef.same, Bool.and_eq_true, beq_iff_eq] at takes
  obtain ⟨start, owner, field⟩ := takes
  have hop : (joins.map (·.toHop))[index]? = some join.toHop := by
    rw [List.getElem?_map, found]
    rfl
  have path := (grown.path hop).1
  have step : join.relation.step = relation.step := by
    rw [FieldRef.step, FieldRef.step, owner, field]
  rw [Hop.pathAt, Join.paths, path, start, step]
  rfl

theorem truth_joined_leaf (distinct : (root :: joins.map (·.name)).Nodup) {scope : Option Nat}
    {name : String} (standing : Standing root joins name scope) {c : Condition} {e : Sql.Expr Param}
    (h : c.toExpr (.joined joins) (!joins.isEmpty) scope name = .ok e) (leaf : c.IsLeaf) :
    e.truth k tables (Join.rowsAt (root :: joins.map (·.name)) ([] :: Join.paths joins) rows) =
      c.truth k rows (Hop.pathAt (Join.paths joins) scope) :=
  truth_toExpr_leaf leaf rows _ (value_columnOf rows distinct standing) h

/-- A condition whose relations are joined has its own truth. -/
theorem truth_toExpr (grown : Hop.Grown (joins.map (·.toHop)))
    (distinct : (root :: joins.map (·.name)).Nodup) {scope : Option Nat} {name : String}
    (standing : Standing root joins name scope) {c : Condition} {e : Sql.Expr Param}
    (h : c.toExpr (.joined joins) (!joins.isEmpty) scope name = .ok e) :
    e.truth k tables (Join.rowsAt (root :: joins.map (·.name)) ([] :: Join.paths joins) rows) =
      c.truth k rows (Hop.pathAt (Join.paths joins) scope) := by
  induction c generalizing scope name e with
  | unary f op => exact truth_joined_leaf rows distinct standing h trivial
  | binary f op v => exact truth_joined_leaf rows distinct standing h trivial
  | ternary f op v w => exact truth_joined_leaf rows distinct standing h trivial
  | collection f op vs => exact truth_joined_leaf rows distinct standing h trivial
  | relational relation inner ih =>
    simp only [toExpr] at h
    split at h
    · cases h
    · rename_i index taken
      split at h
      · cases h
      · rename_i join found
        have there : Standing root joins join.name (some index) := ⟨join, found, rfl⟩
        rw [ih there h, truth, pathAt_taken grown taken found]
  | composite op children ih =>
    obtain ⟨es, hes, h⟩ := Except.bind_eq_ok.mp h
    cases h
    rw [toExprs_eq] at hes
    rw [Sql.Expr.truth_ofParts, truth, truthOfAll_eq]
    congr 1
    have each := ((List.forall₂_and_left _ _).mpr ⟨ih, Except.mapM_forall₂ hes⟩).imp
      fun c e h => h.1 standing h.2
    rw [← List.forall₂_eq_eq_eq, List.forall₂_map_left_iff, List.forall₂_map_right_iff]
    exact each.flip

end

end Condition

namespace Sql

variable {α : Type}

theorem Fragment.render_texts (mark : Nat → String) {f : Fragment α} (texts : f.operands = [])
    (n : Nat) : f.render mark n = f.lead := by
  induction f with
  | nil => rfl
  | cons p f ih =>
    cases p with
    | text s => rw [render, lead, ih texts]
    | hole a => cases texts

namespace Command

/-- The names that the tables of a selection go by. -/
def sourceNames : Command α → List String
  | .select _ source _ _ | .count source _ => source.table :: source.joins.map (·.name)
  | _ => []

/-- The selection of all rows, whether or not they match. -/
def unfiltered : Command α → Command α
  | .select columns source order page => .select columns { source with filter := none } order page
  | .count source page => .count { source with filter := none } page
  | c => c

theorem sourcePieces_eq (ident : String → String) (table : String) (joins : List JoinClause)
    (filter : Option (Expr α)) :
    sourcePieces ident ⟨table, joins, filter⟩ =
      .text (ident table ++ String.join (joins.map (joinText ident))) ::
        filterPieces ident filter := rfl

theorem pieces_select (d : Dialect) (columns : List ColumnRef) (table : String)
    (joins : List JoinClause) (order : List (ColumnRef × Direction)) (page : Option Page) :
    ∃ before after : Fragment α, before.operands = [] ∧ after.operands = [] ∧
      ∀ filter, (Command.select columns ⟨table, joins, filter⟩ order page).pieces d =
        before ++ filterPieces d.ident filter ++ after := by
  simp only [pieces, sourcePieces_eq]
  exact ⟨[.text _, .text _], [.text _], rfl, rfl, fun filter => rfl⟩

theorem pieces_count (d : Dialect) (table : String) (joins : List JoinClause) (page : Option Page) :
    ∃ before after : Fragment α, before.operands = [] ∧ after.operands = [] ∧
      ∀ filter, (Command.count ⟨table, joins, filter⟩ page).pieces d =
        before ++ filterPieces d.ident filter ++ after := by
  simp only [pieces, sourcePieces_eq]
  cases page.bind d.pageClause with
  | none =>
    exact ⟨[.text _, .text _], [], rfl, rfl, fun filter => (List.append_nil _).symm⟩
  | some clause => exact ⟨[.text _, .text _], [.text _], rfl, rfl, fun filter => rfl⟩

end Command

end Sql

namespace Query

/-- Statements of a query that read rows. -/
def Selects (q : Query) (command : Sql.Command Param) : Prop :=
  q.select = .ok command ∨ (∃ fields, q.selectFields fields = .ok command) ∨ q.count = .ok command

theorem Selects.fields_or_count {q : Query} {command : Sql.Command Param} (h : q.Selects command) :
    (∃ fields, q.selectFields fields = .ok command) ∨ q.count = .ok command := by
  rcases h with h | h | h
  · exact .inl ⟨_, h⟩
  · exact .inl h
  · exact .inr h

theorem Selects.filter {q : Query} {command : Sql.Command Param} (h : q.Selects command)
    (d : Dialect) :
    ∃ f before after, q.filter true = .ok f ∧
      command.sourceNames = q.entity.id.table :: f.joins.map (·.name) ∧
      Sql.Fragment.operands before = [] ∧ Sql.Fragment.operands after = [] ∧
      command.pieces d = before ++ Sql.Command.filterPieces d.ident f.clause ++ after ∧
      command.unfiltered.pieces d = before ++ after := by
  rcases h.fields_or_count with ⟨fields, h⟩ | h
  · obtain ⟨f, hf, rfl⟩ := selectFields_ok h
    obtain ⟨before, after, hb, ha, pieces⟩ := Sql.Command.pieces_select d (fields.map f.column)
      q.entity.id.table (f.joins.map f.joinClause)
      (q.ordering.map fun o => (f.column o.1, o.2)) q.page
    refine ⟨f, before, after, hf, ?_, hb, ha, pieces f.clause, ?_⟩
    · simp [Sql.Command.sourceNames, Filter.source, Filter.joinClause, Function.comp_def]
    · have rows := pieces none
      rwa [Sql.Command.filterPieces, List.append_nil] at rows
  · obtain ⟨f, hf, rfl⟩ := count_ok h
    obtain ⟨before, after, hb, ha, pieces⟩ := Sql.Command.pieces_count d q.entity.id.table
      (f.joins.map f.joinClause) q.page
    refine ⟨f, before, after, hf, ?_, hb, ha, pieces f.clause, ?_⟩
    · simp [Sql.Command.sourceNames, Filter.source, Filter.joinClause, Function.comp_def]
    · have rows := pieces none
      rwa [Sql.Command.filterPieces, List.append_nil] at rows

/-- The WHERE text of a selection, read by the grammar of SQL with the statement's parameters, has
the truth of the condition, for any rows at the root and at the ends of the paths of the joins. -/
theorem where_truth (d : Dialect) (legible : d.Legible) (q : Query) (c : Condition)
    (joins : List Join) (command : Sql.Command Param) (predicate : q.predicate = some c)
    (joined : c.joins q.entity = .ok joins) (selects : q.Selects command)
    (distinct : (q.entity.id.table :: joins.map (·.name)).Nodup) :
    (command.sourceNames = q.entity.id.table :: joins.map (·.name) ∧
      ([] :: Join.paths joins).Nodup) ∧
    (∃ before condition after e,
      (Statement.ofCommand d command).sql = before ++ " WHERE " ++ condition ++ after ∧
      (Statement.ofCommand d command.unfiltered).sql = before ++ after ∧
      Sql.readCondition d (Statement.ofCommand d command).params condition = some e ∧
      ∀ (k : Collation) (tables : String → List Row) (rows : Path → Row),
        e.truth k tables (Join.rowsAt command.sourceNames ([] :: Join.paths joins) rows) =
          c.truth k rows []) ∧
    ∀ (k : Collation) (rows : Path → Row) (p : Path) (a b : Condition),
      (a.and b).truth k rows p = (a.truth k rows p).and (b.truth k rows p) ∧
        (a.or b).truth k rows p = (a.truth k rows p).or (b.truth k rows p) := by
  obtain ⟨f, before, after, hf, names, hb, ha, pieces, unfiltered⟩ := selects.filter d
  have grown := Join.grown_of_joins joined
  rcases filter_ok hf with ⟨none, -⟩ | ⟨c', joins', e, some, hj, he, rfl⟩
  · rw [predicate] at none
    cases none
  · rw [predicate] at some
    cases some
    rw [joined] at hj
    cases hj
    simp only [if_true] at names he
    refine ⟨⟨names, grown.places_nodup⟩, ⟨before.lead, (e.pieces d.ident).render d.placeholder 0,
      after.lead, e, ?_, ?_, ?_, fun k tables rows => ?_⟩, fun k rows p a b => ?_⟩
    · simp [Statement.ofCommand, pieces, Sql.Fragment.render_append, Sql.Command.filterPieces,
        Sql.Fragment.render, Sql.Fragment.render_texts _ hb, Sql.Fragment.render_texts _ ha, hb,
        String.append_assoc]
    · simp [Statement.ofCommand, unfiltered, Sql.Fragment.render_append,
        Sql.Fragment.render_texts _ hb, Sql.Fragment.render_texts _ ha]
    · have params : (Statement.ofCommand d command).params = (e.pieces d.ident).operands := by
        simp [Statement.ofCommand, pieces, Sql.Fragment.operands_append, hb, ha,
          Sql.Command.filterPieces, Sql.Fragment.operands]
      rw [params]
      exact Sql.readCondition_pieces legible (Condition.normal_toExpr _ _ he)
    · have standing : Condition.Standing q.entity.id.table joins q.entity.id.table none := rfl
      rw [names]
      exact Condition.truth_toExpr rows grown distinct standing he
    · exact ⟨Condition.truth_combine .and a b, Condition.truth_combine .or a b⟩

def people : Entity :=
  ⟨⟨"Person", "people"⟩, [(Field.named "id" .integer).asPrimaryKey,
    (Field.named "name" .text).asNullable]⟩

def owner : Field := ((Field.named "owner" .integer).inColumn "owner_id").referencing people.shape

def reviewer : Field :=
  ((Field.named "reviewer" .integer).inColumn "reviewer_id").referencing people.shape

def tickets : Entity :=
  ⟨⟨"Ticket", "tickets"⟩, [(Field.named "id" .integer).asPrimaryKey, .named "title" .text, owner,
    reviewer]⟩

/-- Tickets of someone without a name that one of the first people reviews, or whose title begins
with a letter. -/
def reviewed : Condition :=
  .composite .or
    [.composite .and
      [.relational (tickets.ref owner) (.binary (people.ref (.named "name" .text)) .eq .null),
        .relational (tickets.ref reviewer)
          (.ternary (people.ref (.named "id" .integer)) .between (.int 1) (.int 9))],
      .composite .and [.collection (tickets.ref (.named "id" .integer)) .isIn []],
      .binary (tickets.ref (.named "title" .text)) .startsWith (.text "a")]

def reviewedJoins : List Join :=
  [⟨⟨none, tickets.ref owner, people.shape, (Field.named "id" .integer).asPrimaryKey.toAttribute⟩,
      "people__owner_id"⟩,
    ⟨⟨none, tickets.ref reviewer, people.shape,
      (Field.named "id" .integer).asPrimaryKey.toAttribute⟩, "people__reviewer_id"⟩]

def reviewedCount : Sql.Command Param :=
  .count
    ⟨"tickets",
      [⟨"people", "people__owner_id", "tickets", "owner_id", "id"⟩,
        ⟨"people", "people__reviewer_id", "tickets", "reviewer_id", "id"⟩],
      some (.junction .or
        [.junction .and
          [.nullTest ⟨some "people__owner_id", "name"⟩ false,
            .between ⟨some "people__reviewer_id", "id"⟩ ⟨.integer, .int 1⟩ ⟨.integer, .int 9⟩],
          .constant false,
          .compare ⟨some "tickets", "title"⟩ .like ⟨.text, .text "a%"⟩])⟩
    none

theorem where_truth_reviewed :
    reviewed.joins tickets = .ok reviewedJoins ∧
    ((Query.all tickets).restrict reviewed).Selects reviewedCount ∧
    ("tickets" :: reviewedJoins.map (·.name)).Nodup ∧
    ∃ before condition after e,
      (Statement.ofCommand .generic reviewedCount).sql =
        before ++ " WHERE " ++ condition ++ after ∧
      (Statement.ofCommand .generic reviewedCount.unfiltered).sql = before ++ after ∧
      Sql.readCondition .generic (Statement.ofCommand .generic reviewedCount).params condition =
        some e ∧
      ∀ (k : Collation) (tables : String → List Row) (rows : Path → Row),
        e.truth k tables
            (Join.rowsAt reviewedCount.sourceNames ([] :: Join.paths reviewedJoins) rows) =
          reviewed.truth k rows [] := by
  have joins : reviewed.joins tickets = .ok reviewedJoins := rfl
  have selects : ((Query.all tickets).restrict reviewed).Selects reviewedCount := .inr (.inr rfl)
  have distinct : ("tickets" :: reviewedJoins.map (·.name)).Nodup := by decide
  exact ⟨joins, selects, distinct,
    (where_truth .generic Dialect.legible_generic ((Query.all tickets).restrict reviewed) reviewed reviewedJoins
      reviewedCount rfl joins selects distinct).2.1⟩

end Query

end EntityStore
