import EntityStore.Proofs.Query.Compile
import EntityStore.Proofs.Query.Phrase
import EntityStore.Query.Written

namespace EntityStore

open Condition (Visit)
open Sql (Fragment)

variable {d : Dialect}

/-- A filter as it is written behind what is bound already. -/
def Filter.written (d : Dialect) (w : Writer) (f : Filter) : WrittenFilter :=
  ⟨f.joins, f.clause.map fun e => w.text d (e.pieces d.ident), f.qualify⟩

/-- The joins of a filter as they stand behind the table. -/
def Filter.joinsText (d : Dialect) (f : Filter) : String :=
  String.join ((f.joins.map f.joinClause).map (Sql.Command.joinText d.ident))

namespace WrittenFilter

theorem column_written (w : Writer) (f : Filter) (field : FieldRef) :
    (f.written d w).column d field = Sql.Expr.columnText d.ident (f.column field) := by
  unfold column Filter.written Filter.column
  cases f.qualify <;> rfl

theorem foldl_text {α : Type} (text : α → String) (items : List α) (sql : String) :
    items.foldl (fun sql item => sql ++ text item) sql = sql ++ String.join (items.map text) := by
  induction items generalizing sql with
  | nil => simp
  | cons item items ih => simp [ih, String.append_assoc]

/-- Joins and condition stand behind a text, in this order. -/
theorem tailing_written (w : Writer) (f : Filter) (sql : String) :
    (f.written d w).tailing d sql =
      sql ++ f.joinsText d ++ w.text d (Sql.Command.filterPieces d.ident f.clause) := by
  have joins : f.joins.foldl (fun sql j => sql ++ (f.written d w).joinText d j) sql =
      sql ++ f.joinsText d := by
    rw [foldl_text, Filter.joinsText, List.map_map]
    rfl
  unfold tailing Filter.written
  dsimp only
  rw [← Filter.written, joins]
  cases f.clause with
  | none => exact (String.append_empty).symm
  | some e => exact String.append_assoc

end WrittenFilter

namespace Condition.Visit

/-- Texts that are only checked. -/
theorem result_checked {σ α : Type} (check : α → Except Error Unit) (text : α → String)
    (as : List α) (s : σ) :
    (as.mapM fun a => (do ofExcept (check a); pure (text a) : Visit σ String)).result s =
      (as.forM check).map fun _ => (as.map text, s) := by
  induction as with
  | nil => rfl
  | cons a as ih =>
    rw [List.mapM_cons, List.forM_eq_forM, List.forM_cons, bind_assoc]
    refine result_beside (result_ofExcept (check a) s) fun _ _ => ?_
    rw [pure_bind, result_bind, ih, Except.bind_map, List.forM_eq_forM]
    cases forM as check <;> rfl

end Condition.Visit

namespace Query

theorem result_writeFilter (q : Query) (joining : Bool) (w : Writer) :
    (q.writeFilter d joining).result w = (q.filter joining).map fun f =>
      (f.written d w, w.after (Sql.Command.filterPieces d.ident f.clause)) := by
  unfold writeFilter filter
  cases q.predicate with
  | none =>
    rw [Except.map, Sql.Command.filterPieces, Writer.after_nil]
    rfl
  | some c =>
    refine Visit.result_beside (Visit.result_ofExcept (c.joins q.entity) w) fun joins _ => ?_
    exact Visit.result_beside (ConditionWriter.result_write c w) fun e _ => rfl

/-- A term of the ordering as it is written. -/
def termText (d : Dialect) (f : Filter) (term : FieldRef × Direction) : String :=
  Sql.Expr.columnText d.ident (f.column term.1) ++ " " ++ term.2.keyword

theorem result_terms (q : Query) (f : Filter) (w w' : Writer) :
    (q.ordering.mapM (q.writeTerm d (f.written d w))).result w' =
      (q.ordering.forM fun term => q.entity.shape.check term.1).map fun _ =>
        (q.ordering.map (termText d f), w') := by
  have terms := Visit.result_checked (fun term : FieldRef × Direction => q.entity.shape.check term.1)
    (termText d f) q.ordering w'
  unfold writeTerm
  simp only [WrittenFilter.column_written]
  exact terms

theorem orderText_terms (f : Filter) (ordering : List (FieldRef × Direction)) :
    Sql.Command.orderText d.ident (ordering.map fun term => (f.column term.1, term.2)) =
      if ordering.isEmpty then ""
      else " ORDER BY " ++ String.intercalate ", " (ordering.map (termText d f)) := by
  cases ordering with
  | nil => rfl
  | cons term ordering =>
    rw [Sql.Command.orderText, List.map_map]
    · rfl
    · simp

theorem sourcePieces_text (f : Filter) (table : String) (w : Writer) :
    w.text d (Sql.Command.sourcePieces d.ident (f.source table)) =
      d.ident table ++ f.joinsText d ++ w.text d (Sql.Command.filterPieces d.ident f.clause) := by
  rw [Sql.Command.sourcePieces, Writer.text_text]
  rfl

theorem sourcePieces_after (f : Filter) (table : String) (w : Writer) :
    w.after (Sql.Command.sourcePieces d.ident (f.source table)) =
      w.after (Sql.Command.filterPieces d.ident f.clause) := by
  rw [Sql.Command.sourcePieces, Writer.after_text]
  rfl

/-- A selection is written as what it compiles to, or refused with the same error. -/
theorem writes_fields (q : Query) (fields : List FieldRef) :
    Writer.Writes d (q.writeFields d fields) ((q.selectFields fields).map (·.pieces d)) := by
  intro w
  rw [writeFields, selectFields_eq]
  cases fields.isEmpty with
  | true => rfl
  | false =>
    simp only [Bool.false_eq_true, if_false]
    rw [Except.map_map]
    refine Visit.result_beside (Visit.result_ofExcept _ w) fun _ _ => ?_
    refine Visit.result_beside (q.result_writeFilter true w) fun f _ => ?_
    refine Visit.result_beside (q.result_terms f w _) fun _ _ => ?_
    have columns : fields.map ((f.written d w).column d) =
        (fields.map f.column).map (Sql.Expr.columnText d.ident) := by
      rw [List.map_map]
      exact List.map_congr_left fun field _ => WrittenFilter.column_written w f field
    change Except.ok _ = Except.ok _
    apply congrArg Except.ok
    simp only [Sql.Command.pieces, Writer.text_text, Writer.text_append, sourcePieces_text,
      Writer.after_text, Writer.after_append, sourcePieces_after, orderText_terms, columns,
      WrittenFilter.tailing_written, Writer.text_nil, Writer.after_nil, Prod.mk.injEq, and_true]
    cases q.ordering.isEmpty <;> cases q.page.bind d.pageClause <;> simp [String.append_assoc]

theorem writes_count (q : Query) :
    Writer.Writes d (q.writeCount d) (q.count.map (·.pieces d)) := by
  intro w
  rw [writeCount, count, Except.map_map]
  refine Visit.result_beside (q.result_writeFilter true w) fun f _ => ?_
  change Except.ok _ = Except.ok _
  apply congrArg Except.ok
  simp only [Sql.Command.pieces]
  cases q.page.bind d.pageClause with
  | none =>
    simp only [Writer.text_text, Writer.after_text, sourcePieces_text, sourcePieces_after,
      WrittenFilter.tailing_written, String.append_assoc]
  | some clause =>
    have opening : "SELECT COUNT(*) FROM (SELECT 1 FROM " =
        "SELECT COUNT(*) FROM (" ++ "SELECT 1 FROM " := rfl
    simp only [Writer.text_text, Writer.text_append, Writer.after_text, Writer.after_append,
      sourcePieces_text, sourcePieces_after, WrittenFilter.tailing_written, Writer.text_nil,
      Writer.after_nil, String.append_empty, opening, String.append_assoc]

/-- The filter of a statement that cannot join. -/
theorem filter_alone {q : Query} {f : Filter} (h : q.filter false = .ok f) : f.joins = [] := by
  rcases filter_ok h with ⟨-, rfl⟩ | ⟨c, joins, e, -, -, -, rfl⟩
  · rfl
  · rfl

theorem tailing_alone {f : Filter} (alone : f.joins = []) (w : Writer) (sql : String) :
    (f.written d w).tailing d sql =
      sql ++ w.text d (Sql.Command.filterPieces d.ident f.clause) := by
  have none : f.joinsText d = "" := by
    rw [Filter.joinsText, alone]
    rfl
  rw [WrittenFilter.tailing_written, none, String.append_empty]

theorem writes_delete (q : Query) :
    Writer.Writes d (q.writeDelete d) (q.delete.map (·.pieces d)) := by
  intro w
  rw [writeDelete, delete, Except.map_map]
  refine Visit.result_beside (q.result_writeFilter false w) fun f filtered => ?_
  change Except.ok _ = Except.ok _
  apply congrArg Except.ok
  simp only [Sql.Command.pieces, Writer.text_text, Writer.after_text,
    tailing_alone (filter_alone filtered)]

/-- An assignment: its field is checked, and its value bound. -/
theorem writes_assignment (q : Query) (a : FieldRef × Value) :
    Writer.Writes d (q.writeAssignment d a) ((q.entity.shape.check a.1).map fun _ =>
      [.text (d.ident a.1.field.column ++ " = "), .hole ⟨a.1.field.type, a.2⟩]) :=
  ((Writer.writes_bind a.1.field.type a.2).prepend _).guarded _

/-- Assigned values are bound before those of the condition. -/
theorem writes_update (q : Query) :
    Writer.Writes d (q.writeUpdate d) (q.update.map (·.pieces d)) := by
  intro w
  rw [writeUpdate, update_eq]
  cases q.assignments.isEmpty with
  | true => rfl
  | false =>
    let sets : List (Fragment Param) := q.assignments.map fun a =>
      [.text (d.ident a.1.field.column ++ " = "), .hole ⟨a.1.field.type, a.2⟩]
    have assigned : (q.assignments.mapM (q.writeAssignment d)).result w =
        (q.assignments.forM fun a => q.entity.shape.check a.1).map fun _ =>
          (w.texts d sets, sets.foldl Writer.after w) :=
      Writer.Writes.checked q.writes_assignment q.assignments w
    simp only [Bool.false_eq_true, if_false]
    rw [Except.map_map]
    refine Visit.result_beside assigned fun _ _ => ?_
    refine Visit.result_beside (q.result_writeFilter false _) fun f filtered => ?_
    have pieces : q.assignments.map (fun a => ([.text (d.ident a.1.field.column ++ " = "),
        .hole ⟨a.1.field.type, a.2⟩] : Fragment Param)) = sets := rfl
    change Except.ok _ = Except.ok _
    apply congrArg Except.ok
    rw [tailing_alone (filter_alone filtered), Writer.intercalate_texts]
    simp only [Sql.Command.pieces, List.map_map, Function.comp_def, pieces, Writer.text_text,
      Writer.text_append, Writer.after_text, Writer.after_append, Writer.after_separated,
      String.append_assoc]

end Query

namespace Entity

/-- Fields that are kept with the values at their places, some values further on. -/
theorem zip_places (keep : Field → Bool) (fields : List Field) (before row : List Value)
    (fits : row.length = fields.length) :
    ((fields.zip row).filter fun item => keep item.1).map
        (fun item => (⟨item.1.type, item.2⟩ : Param)) =
      ((fields.zipIdx before.length).filter fun place => keep place.1).map fun place =>
        ⟨place.1.type, (before ++ row).getD place.2 .null⟩ := by
  induction fields generalizing before row with
  | nil => rfl
  | cons f fields ih =>
    cases row with
    | nil => cases fits
    | cons v row =>
      have here : (before ++ v :: row).getD before.length .null = v := by simp
      have rest := ih (before ++ [v]) row (by simpa using fits)
      rw [List.length_append, List.length_singleton, List.append_assoc, List.singleton_append]
        at rest
      rw [List.zip_cons_cons, List.zipIdx_cons, List.filter_cons, List.filter_cons]
      cases keep f with
      | false => exact rest
      | true =>
        simp only [if_true, List.map_cons, here, rest]

/-- The inserted fields with their places name the values of a row that are bound. -/
theorem rowParams_places (e : Entity) (row : List Value) (fits : row.length = e.fields.length) :
    e.rowParams row = e.insertedPlaces.map fun place => ⟨place.1.type, row.getD place.2 .null⟩ :=
  zip_places (fun f => !leavesOut f) e.fields [] row fits

theorem columns_places (e : Entity) :
    e.insertedPlaces.map (fun place => d.ident place.1.column) =
      (e.insertedFields.map (·.column)).map d.ident := by
  have fields : e.insertedPlaces.map (·.1) = e.insertedFields := by
    have unzipped : e.fields.zipIdx.map (·.1) = e.fields := List.zipIdx_map_fst ..
    rw [insertedPlaces, insertedFields]
    conv_rhs => rw [← unzipped, List.filter_map]
    rfl
  rw [← fields, List.map_map, List.map_map]
  rfl

theorem text_tuple (params : List Param) (w : Writer) :
    w.text d (Sql.Command.tuple params) = "(" ++ w.text d (Sql.Expr.holes params) ++ ")" := by
  simp only [Sql.Command.tuple, Writer.text_text, Writer.text_append, Writer.text_nil,
    String.append_empty, String.append_assoc]

theorem after_tuple (params : List Param) (w : Writer) :
    w.after (Sql.Command.tuple params) = w.after (Sql.Expr.holes params) := by
  rw [Sql.Command.tuple, Writer.after_text, Writer.after_append, Writer.after_text,
    Writer.after_nil]

/-- A row: its width is checked, and then its values are bound. -/
theorem writes_row (e : Entity) (row : List Value) :
    Writer.Writes d (e.writeRow d row)
      ((e.checkWidth row).map fun _ => Sql.Command.tuple (e.rowParams row)) := by
  intro w
  rw [writeRow, checkWidth]
  by_cases fits : row.length = e.fields.length
  · rw [if_pos fits, if_pos fits]
    let marks : List (Fragment Param) := e.insertedPlaces.map fun place =>
      [.hole ⟨place.1.type, row.getD place.2 .null⟩]
    have bound := Writer.Writes.each (fun place : Field × Nat =>
      Writer.writes_bind (d := d) place.1.type (row.getD place.2 .null)) e.insertedPlaces w
    have holes : Sql.Expr.holes (e.rowParams row) = .separated ", " marks := by
      rw [Sql.Expr.holes, rowParams_places e row fits, List.map_map]
      rfl
    rw [Visit.result_then bound, Writer.intercalate_texts]
    change Except.ok _ = Except.ok _
    dsimp only
    rw [text_tuple, after_tuple, holes, Writer.after_separated]
  · rw [if_neg fits, if_neg fits]
    rfl

theorem writes_insert (e : Entity) (rows : List (List Value)) :
    Writer.Writes d (e.writeInsert d rows) ((e.insert d rows).map (·.pieces d)) := by
  intro w
  rw [writeInsert, insert_eq]
  cases rows.isEmpty with
  | true => rfl
  | false =>
    let tuples : List (Fragment Param) := rows.map fun row => Sql.Command.tuple (e.rowParams row)
    have written : (rows.mapM (e.writeRow d)).result w =
        (rows.forM e.checkWidth).map fun _ => (w.texts d tuples, tuples.foldl Writer.after w) :=
      Writer.Writes.checked e.writes_row rows w
    simp only [Bool.false_eq_true, if_false]
    rw [Except.map_map]
    refine Visit.result_beside written fun _ _ => ?_
    have pieces : rows.map (fun row => Sql.Command.tuple (e.rowParams row)) = tuples := rfl
    change Except.ok _ = Except.ok _
    apply congrArg Except.ok
    rw [columns_places, Writer.intercalate_texts]
    simp only [Sql.Command.pieces, Sql.Command.identList, List.map_map, Function.comp_def, pieces,
      Writer.text_text, Writer.text_append, Writer.after_text, Writer.after_append,
      Writer.after_separated, String.append_assoc]
    rw [returning]
    cases e.key?.filter (·.generated) with
    | none => cases d.returnsKeys <;> simp [Writer.text_nil, Writer.after_nil]
    | some key =>
      cases d.returnsKeys <;>
        simp [Writer.text_nil, Writer.after_nil, Writer.text_text, Writer.after_text]

end Entity

end EntityStore
