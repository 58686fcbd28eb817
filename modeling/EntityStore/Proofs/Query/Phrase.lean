import EntityStore.Proofs.Condition.Form
import EntityStore.Proofs.Sql.Bound
import EntityStore.Proofs.Sql.Writer
import EntityStore.Query.Phrase

namespace EntityStore

open Condition (Visit visit visitAll)
open Sql (Fragment)

/-- A search condition as a phrase behind what is bound already. -/
def Phrase.of (d : Dialect) (w : Writer) (e : Sql.Expr Param) : Phrase :=
  ⟨w.text d (e.pieces d.ident), e.isJunction⟩

/-- Search conditions one after another, each behind what those before it have bound. -/
def Phrase.ofAll (d : Dialect) : Writer → List (Sql.Expr Param) → List Phrase
  | _, [] => []
  | w, e :: es => .of d w e :: ofAll d (w.after (e.pieces d.ident)) es

namespace ConditionWriter

variable {d : Dialect} {reach : Reach} {qualify : Bool} {root : String}

theorem result_start {α : Type} (x : Visit ConditionWriter α) (w : Writer) :
    (start x).result w = (x.result ⟨w, []⟩).map fun r => (r.1, r.2.writer) := by
  have ran : start x w = ((x ⟨w, []⟩).1, (x ⟨w, []⟩).2.writer) := rfl
  rw [Visit.result, Visit.result, ran]
  rcases x ⟨w, []⟩ with ⟨_ | _, s⟩ <;> rfl

theorem result_writing {α : Type} (x : Visit Writer α) (w : Writer) (scopes : List Scope) :
    (writing x).result ⟨w, scopes⟩ = (x.result w).map fun r => (r.1, ⟨r.2, scopes⟩) := by
  have ran : writing x ⟨w, scopes⟩ = ((x w).1, ⟨(x w).2, scopes⟩) := rfl
  rw [Visit.result, Visit.result, ran]
  rcases x w with ⟨_ | _, w'⟩ <;> rfl

theorem result_column (field : FieldRef) (s : ConditionWriter) :
    (column d qualify root field).result s =
      .ok (Sql.Expr.columnText d.ident (Condition.columnOf qualify (s.qualifier root) field), s) := by
  cases qualify <;> rfl

/-- Some work writes a search condition down if it is granted, and leaves the relations around it. -/
def Phrases (d : Dialect) (x : Visit ConditionWriter Phrase) (s : ConditionWriter)
    (granted : Except Error (Sql.Expr Param)) : Prop :=
  x.result s = granted.map fun e => (.of d s.writer e, ⟨s.writer.after (e.pieces d.ident), s.scopes⟩)

theorem Phrases.column {field : FieldRef} {f : String → Visit ConditionWriter Phrase}
    {s : ConditionWriter} {granted : Except Error (Sql.Expr Param)}
    (h : Phrases d
      (f (Sql.Expr.columnText d.ident (Condition.columnOf qualify (s.qualifier root) field))) s
      granted) :
    Phrases d (ConditionWriter.column d qualify root field >>= f) s granted := by
  rw [Phrases, Visit.result_then (result_column field s)]
  exact h

/-- A text without operands. -/
theorem phrases_simple {s : ConditionWriter} {text : String} {e : Sql.Expr Param}
    (pieces : e.pieces d.ident = [.text text]) (plain : e.isJunction = false) :
    Phrases d (pure (.simple text)) s (.ok e) := by
  have phrase : Phrase.of d s.writer e = .simple text := by
    simp only [Phrase.of, pieces, plain, Phrase.simple, Writer.text_text, Writer.text_nil,
      String.append_empty]
  have unbound : s.writer.after (e.pieces d.ident) = s.writer := by
    rw [pieces, Writer.after_text, Writer.after_nil]
  rw [Phrases, Except.map, phrase, unbound]
  rfl

/-- A phrase that the writer alone puts together. -/
theorem phrases_writing {x : Visit Writer Phrase} {s : ConditionWriter}
    {granted : Except Error (Sql.Expr Param)}
    (writes : x.result s.writer = granted.map fun e =>
      (.of d s.writer e, s.writer.after (e.pieces d.ident))) :
    Phrases d (writing x) s granted := by
  rw [Phrases, result_writing, writes, Except.map_map]

variable (s : ConditionWriter)

theorem phrases_unary (field : FieldRef) (op : UnaryOp) :
    Phrases d ((visitor d reach qualify root).unary field op) s
      (.ok (.nullTest (Condition.columnOf qualify (s.qualifier root) field) (op == .isNotNull))) := by
  apply Phrases.column
  apply phrases_simple
  · cases op <;> simp only [Sql.Expr.pieces, String.append_assoc] <;> rfl
  · rfl

/-- The parameter of a comparison; patterns have to be texts. -/
def operandParam (field : FieldRef) (op : BinaryOp) (v : Value) : Except Error Param :=
  if op.isPattern then
    match v with
    | .text s => .ok ⟨.text, .text (Condition.likePattern op s)⟩
    | _ => .error (.invalidArgument (.patternOperand op field.label))
  else .ok ⟨field.field.type, v⟩

theorem writes_operand (field : FieldRef) (op : BinaryOp) (v : Value) :
    Writer.Writes d (operand d field op v)
      ((operandParam field op v).map fun p => [.hole p]) := by
  unfold operand operandParam
  cases op.isPattern with
  | false => exact Writer.writes_bind field.field.type v
  | true =>
    cases v with
    | text s => exact Writer.writes_bind .text (.text (Condition.likePattern op s))
    | _ => exact fun w => rfl

theorem binaryExpr_bound {column : Sql.ColumnRef} {field : FieldRef} {op : BinaryOp} {v : Value}
    (bound : v.isNull = false) :
    Condition.binaryExpr column field op v =
      (operandParam field op v).map (.compare column (Condition.comparison op)) := by
  unfold Condition.binaryExpr operandParam
  rw [bound]
  cases op.isPattern with
  | false => rfl
  | true => cases v <;> rfl

theorem phrases_binary (field : FieldRef) (op : BinaryOp) (v : Value) :
    Phrases d ((visitor d reach qualify root).binary field op v) s
      (Condition.binaryExpr (Condition.columnOf qualify (s.qualifier root) field) field op v) := by
  apply Phrases.column
  generalize Condition.columnOf qualify (s.qualifier root) field = column
  cases null : v.isNull with
  | true =>
    unfold Condition.binaryExpr
    rw [if_pos rfl, if_pos null]
    cases op with
    | eq => exact phrases_simple rfl rfl
    | notEq => exact phrases_simple rfl rfl
    | _ => exact rfl
  | false =>
    rw [if_neg Bool.false_ne_true, binaryExpr_bound null]
    apply phrases_writing
    rw [Visit.result_bind, writes_operand field op v s.writer, Except.map_map, Except.map_map,
      Except.bind_map]
    cases operandParam field op v with
    | error e => rfl
    | ok p => rfl

theorem phrases_ternary (field : FieldRef) (low high : Value) :
    Phrases d ((visitor d reach qualify root).ternary field .between low high) s
      (.ok (.between (Condition.columnOf qualify (s.qualifier root) field)
        ⟨field.field.type, low⟩ ⟨field.field.type, high⟩)) := by
  apply Phrases.column
  generalize Condition.columnOf qualify (s.qualifier root) field = column
  apply phrases_writing
  let first : Param := ⟨field.field.type, low⟩
  let second : Param := ⟨field.field.type, high⟩
  have pieces : (Sql.Expr.between column first second).pieces d.ident =
      .text (Sql.Expr.columnText d.ident column ++ " BETWEEN ") ::
        ([.hole first] ++ .text " AND " :: [.hole second]) := rfl
  have phrase : Phrase.of d s.writer (.between column first second) =
      .simple (Sql.Expr.columnText d.ident column ++ " BETWEEN " ++ s.writer.text d [.hole first] ++
        " AND " ++ (s.writer.after [.hole first]).text d [.hole second]) := by
    rw [Phrase.of, pieces, Writer.text_text, Writer.text_append, Writer.text_text]
    simp only [Phrase.simple, Sql.Expr.isJunction, String.append_assoc]
  have bound : s.writer.after ((Sql.Expr.between column first second).pieces d.ident) =
      (s.writer.after [.hole first]).after [.hole second] := by
    rw [pieces, Writer.after_text, Writer.after_append, Writer.after_text]
  rw [(Writer.writes_bind field.field.type low).then, (Writer.writes_bind field.field.type high).then,
    Except.map, phrase, bound]
  rfl

theorem phrases_collection (field : FieldRef) (op : CollectionOp) (vs : List Value) :
    Phrases d ((visitor d reach qualify root).collection field op vs) s
      (.ok (Condition.collectionExpr (Condition.columnOf qualify (s.qualifier root) field) field op
        vs)) := by
  simp only [visitor, Condition.collectionExpr]
  cases vs with
  | nil => cases op <;> exact phrases_simple rfl rfl
  | cons v vs =>
    apply Phrases.column
    generalize Condition.columnOf qualify (s.qualifier root) field = column
    apply phrases_writing
    let marks : List (Fragment Param) := (v :: vs).map fun v => [.hole ⟨field.field.type, v⟩]
    let params : List Param := (v :: vs).map fun v => ⟨field.field.type, v⟩
    have holes : Sql.Expr.holes params = .separated ", " marks := by
      rw [Sql.Expr.holes, List.map_map]
      rfl
    have list := Writer.Writes.each
      (fun v => Writer.writes_bind (d := d) field.field.type v) (v :: vs) s.writer
    have phrase : Phrase.of d s.writer (.among column (op == .notIn) params) =
        .simple (Sql.Expr.columnText d.ident column ++ " " ++
          op.keyword ++ " (" ++ String.intercalate ", " (s.writer.texts d marks) ++ ")") := by
      rw [Writer.intercalate_texts, Phrase.of, Sql.Expr.pieces, Writer.text_text,
        Writer.text_append, Writer.text_text, Writer.text_nil, holes]
      cases op <;> simp [Phrase.simple, Sql.Expr.isJunction, CollectionOp.keyword, String.append_assoc]
    have bound : s.writer.after ((Sql.Expr.among column (op == .notIn) params).pieces d.ident) =
        marks.foldl Writer.after s.writer := by
      rw [Sql.Expr.pieces, Writer.after_text, Writer.after_append, Writer.after_text,
        Writer.after_nil, holes, Writer.after_separated]
    rw [Visit.result_bind, list]
    exact congrArg Except.ok (Prod.ext phrase.symm bound.symm)

theorem part_of (w : Writer) (e : Sql.Expr Param) :
    (Phrase.of d w e).part = w.text d (e.partFragment d.ident) := by
  rw [Phrase.part, Phrase.of, Sql.Expr.partFragment]
  cases e.isJunction with
  | false => rfl
  | true =>
    simp only [if_true, Writer.text_text, Writer.text_append, Writer.text_nil, String.append_empty,
      String.append_assoc]

theorem after_part (w : Writer) (e : Sql.Expr Param) :
    w.after (e.partFragment d.ident) = w.after (e.pieces d.ident) := by
  rw [Writer.after, Writer.after, Sql.Expr.operands_partFragment]

theorem parts_ofAll (es : List (Sql.Expr Param)) (w : Writer) :
    (Phrase.ofAll d w es).map Phrase.part = w.texts d (es.map (Sql.Expr.partFragment d.ident)) := by
  induction es generalizing w with
  | nil => rfl
  | cons e es ih =>
    rw [Phrase.ofAll, List.map_cons, List.map_cons, part_of, ih, Writer.texts, after_part]

/-- The writer behind search conditions one after another. -/
def afterAll (d : Dialect) (w : Writer) (es : List (Sql.Expr Param)) : Writer :=
  es.foldl (fun w e => w.after (e.pieces d.ident)) w

theorem after_ofParts (op : Connective) (es : List (Sql.Expr Param)) (w : Writer) :
    w.after ((Sql.Expr.ofParts op es).pieces d.ident) = afterAll d w es := by
  match es with
  | [] => cases op <;> exact w.after_nil
  | [e] => rfl
  | e :: e' :: es =>
    rw [Sql.Expr.ofParts, Sql.Expr.pieces, Sql.Expr.partPieces_eq, Writer.after_separated,
      List.foldl_map, afterAll]
    · simp only [after_part]
    · simp
    · simp

/-- The phrases of the parts are put together to that of the whole. -/
theorem composite_ofAll (op : Connective) (w : Writer) {children : List Condition}
    {es : List (Sql.Expr Param)} (fits : children.length = es.length) :
    (visitor d reach qualify root).composite op children (Phrase.ofAll d w es) =
      pure (Phrase.of d w (.ofParts op es)) := by
  match children, es, fits with
  | [], [], _ => cases op <;> rfl
  | [_], [e], _ => rfl
  | _ :: _ :: _, e :: e' :: es, _ =>
    have parts := parts_ofAll (d := d) (e :: e' :: es) w
    have phrase : Phrase.of d w (.ofParts op (e :: e' :: es)) =
        ⟨String.intercalate (Sql.keyword op) ((Phrase.ofAll d w (e :: e' :: es)).map Phrase.part),
          true⟩ := by
      rw [parts, Writer.intercalate_texts, Phrase.of, Sql.Expr.ofParts, Sql.Expr.pieces,
        Sql.Expr.partPieces_eq]
      · rfl
      · simp
      · simp
    rw [phrase]
    rfl

theorem result_enter (relation : FieldRef) :
    ((visitor d reach qualify root).enter relation).result s =
      (s.scope reach relation).map fun scope => ((), ⟨s.writer, scope :: s.scopes⟩) := by
  have entering : (visitor d reach qualify root).enter relation =
      get >>= fun s => .ofExcept (s.scope reach relation) >>= fun scope =>
        set (⟨s.writer, scope :: s.scopes⟩ : ConditionWriter) := rfl
  have here : (get : Visit ConditionWriter ConditionWriter).result s = .ok (s, s) := rfl
  rw [entering, Visit.result_then here, Visit.result_bind, Visit.result_ofExcept, Except.bind_map]
  cases s.scope reach relation <;> rfl

theorem toExpr_joined (joins : List Join) (name : String) (relation : FieldRef) (inner : Condition) :
    (Condition.relational relation inner).toExpr (.joined joins) qualify s.join name = (do
      let scope ← s.scope (.joined joins) relation
      inner.toExpr (.joined joins) qualify scope.join scope.qualifier) := by
  simp only [Condition.toExpr, scope]
  cases joins.findIdx? fun j => j.toHop.takes s.join relation with
  | none => rfl
  | some index =>
    dsimp only
    cases joins[index]? <;> rfl

/-- Inside of a relation, the inner condition is about the scope that was entered. -/
theorem phrases_joined {joins : List Join} {relation : FieldRef} {inner : Condition}
    (below : ∀ s, Phrases d (visit (visitor d (.joined joins) qualify root) inner) s
      (inner.toExpr (.joined joins) qualify s.join (s.qualifier root))) :
    Phrases d (visit (visitor d (.joined joins) qualify root) (.relational relation inner)) s
      ((Condition.relational relation inner).toExpr (.joined joins) qualify s.join
        (s.qualifier root)) := by
  rw [Phrases, visit, toExpr_joined]
  refine Visit.result_beside (s.result_enter relation) fun scope _ => ?_
  have inside : (visit (visitor d (.joined joins) qualify root) inner).result
      ⟨s.writer, scope :: s.scopes⟩ =
        (inner.toExpr (.joined joins) qualify scope.join scope.qualifier).map fun e =>
          (.of d s.writer e, ⟨s.writer.after (e.pieces d.ident), scope :: s.scopes⟩) := below _
  dsimp only
  rw [Visit.result_bind, inside, Except.bind_map]
  cases inner.toExpr (.joined joins) qualify scope.join scope.qualifier <;> rfl

theorem result_subquery {relation : FieldRef} {hop : Hop} (found : Hop.of relation none = .ok hop)
    (inner : Condition) (output : Phrase) (scope : Scope) :
    ((visitor d .nested qualify root).relational relation inner output).result
        ⟨s.writer, scope :: s.scopes⟩ =
      .ok (.simple (Sql.Expr.columnText d.ident
          (Condition.columnOf qualify (s.qualifier root) relation) ++ " IN (SELECT " ++
        d.qualified hop.target.id.table hop.targetKey.column ++ " FROM " ++
        d.ident hop.target.id.table ++ " WHERE " ++ output.sql ++ ")"), s) := by
  have left : (modify fun s => { s with scopes := s.scopes.tail } : Visit ConditionWriter Unit).result
      ⟨s.writer, scope :: s.scopes⟩ = .ok ((), s) := rfl
  simp only [visitor, found, Visit.ofExcept, pure_bind]
  rw [Visit.result_then left, Visit.result_then (result_column relation s)]
  rfl

theorem phrase_amongRows (w : Writer) (column : Sql.ColumnRef) (table key : String)
    (e : Sql.Expr Param) :
    Phrase.of d w (.amongRows column table key e) =
      .simple (Sql.Expr.columnText d.ident column ++ " IN (SELECT " ++ d.qualified table key ++
        " FROM " ++ d.ident table ++ " WHERE " ++ (Phrase.of d w e).sql ++ ")") := by
  simp only [Phrase.of, Phrase.simple, Sql.Expr.isJunction, Sql.Expr.pieces, Writer.text_text,
    Writer.text_append, Writer.text_nil, String.append_empty, String.append_assoc]
  rfl

theorem after_amongRows (w : Writer) (column : Sql.ColumnRef) (table key : String)
    (e : Sql.Expr Param) :
    w.after ((Sql.Expr.amongRows column table key e).pieces d.ident) =
      w.after (e.pieces d.ident) := by
  rw [Sql.Expr.pieces, Writer.after_text, Writer.after_append, Writer.after_text, Writer.after_nil]

/-- A subquery stands behind the column of its relation, which is one of the scope outside. -/
theorem phrases_nested {relation : FieldRef} {inner : Condition}
    (below : ∀ s, Phrases d (visit (visitor d .nested qualify root) inner) s
      (inner.toExpr .nested qualify s.join (s.qualifier root))) :
    Phrases d (visit (visitor d .nested qualify root) (.relational relation inner)) s
      ((Condition.relational relation inner).toExpr .nested qualify s.join (s.qualifier root)) := by
  have entered : ((visitor d .nested qualify root).enter relation).result s =
      (Hop.of relation none).map fun hop =>
        ((), ⟨s.writer, ⟨none, hop.target.id.table⟩ :: s.scopes⟩) := by
    rw [result_enter, scope, Except.map_map]
  rw [Phrases, visit, Condition.toExpr]
  refine Visit.result_beside entered fun hop found => ?_
  refine Visit.result_beside (below ⟨s.writer, ⟨none, hop.target.id.table⟩ :: s.scopes⟩)
    fun e _ => ?_
  let outside : ConditionWriter := ⟨s.writer.after (e.pieces d.ident), s.scopes⟩
  refine (result_subquery outside found inner (.of d s.writer e) _).trans ?_
  apply congrArg Except.ok
  dsimp only
  rw [phrase_amongRows, after_amongRows]
  rfl

/-- Children one after another. -/
theorem result_visitAll {cs : List Condition}
    (each : ∀ c ∈ cs, ∀ s, Phrases d (visit (visitor d reach qualify root) c) s
      (c.toExpr reach qualify s.join (s.qualifier root))) (s : ConditionWriter) :
    (visitAll (visitor d reach qualify root) cs).result s =
      (cs.mapM (Condition.toExpr reach qualify s.join (s.qualifier root))).map fun es =>
        (Phrase.ofAll d s.writer es, ⟨afterAll d s.writer es, s.scopes⟩) := by
  induction cs generalizing s with
  | nil => rfl
  | cons c cs ih =>
    obtain ⟨first, others⟩ := List.forall_mem_cons.mp each
    rw [visitAll, List.mapM_cons]
    refine Visit.result_beside (first s) fun e _ => ?_
    exact Visit.result_beside (ih others ⟨s.writer.after (e.pieces d.ident), s.scopes⟩) fun es _ =>
      rfl

/-- A visit writes down what the condition compiles to, wherever it stands. -/
theorem phrases_visit (c : Condition) (s : ConditionWriter) :
    Phrases d (visit (visitor d reach qualify root) c) s
      (c.toExpr reach qualify s.join (s.qualifier root)) := by
  induction c generalizing s with
  | unary field op => exact phrases_unary s field op
  | binary field op v => exact phrases_binary s field op v
  | ternary field op low high =>
    cases op
    exact phrases_ternary s field low high
  | collection field op vs => exact phrases_collection s field op vs
  | relational relation inner ih =>
    cases reach with
    | joined joins => exact phrases_joined s ih
    | nested => exact phrases_nested s ih
  | composite op children ih =>
    rw [Phrases, visit, Condition.toExpr, Condition.toExprs_eq]
    refine Visit.result_beside (result_visitAll ih s) fun es parts => ?_
    have fits := (Except.mapM_forall₂ parts).length_eq
    dsimp only
    rw [composite_ofAll op s.writer fits, ← after_ofParts op]
    rfl

/-- A condition about a table is written as what it compiles to, or refused with the same error. -/
theorem result_write (c : Condition) (w : Writer) :
    (write d reach qualify root c).result w = (c.toExpr reach qualify none root).map fun e =>
      (Phrase.of d w e, w.after (e.pieces d.ident)) := by
  have outside : (visit (visitor d reach qualify root) c).result ⟨w, []⟩ =
      (c.toExpr reach qualify none root).map fun e =>
        (Phrase.of d w e, ⟨w.after (e.pieces d.ident), []⟩) := phrases_visit c ⟨w, []⟩
  rw [write, result_start, outside, Except.map_map]

end ConditionWriter

end EntityStore
