import EntityStore.Proofs.Condition.Holds
import EntityStore.Proofs.Query.Where

namespace EntityStore

open Engine (Truth)
open Sql (Collation Row)

theorem Hop.of_ok {relation : FieldRef} {parent : Option Nat} {hop : Hop}
    (h : Hop.of relation parent = .ok hop) :
    relation.field.references = some hop.target ∧ hop.target.key? = some hop.targetKey := by
  unfold Hop.of at h
  split at h
  · cases h
  · rename_i target points
    split at h
    · cases h
    · rename_i key keyed
      cases h
      exact ⟨points, keyed⟩

namespace Condition

variable {k : Collation} {tables : String → List Row}

/-- The innermost row answers to the name of its table, and to columns without a name. -/
theorem value_columnOf_inner (qualify : Bool) (name : String) (row : Row) (outer : Sql.Rows)
    (field : FieldRef) :
    Sql.Rows.value ((name, row) :: outer) (columnOf qualify name field) =
      row field.field.column := by
  cases qualify <;> simp [Sql.Rows.value, columnOf]

theorem truth_nested_leaf {qualify : Bool} {scope : Option Nat} {name : String} {c : Condition}
    {e : Sql.Expr Param} (h : c.toExpr .nested qualify scope name = .ok e) (leaf : c.IsLeaf)
    (row : Row) (outer : Sql.Rows) :
    e.truth k tables ((name, row) :: outer) = some true ↔ c.Holds k tables row := by
  have found := value_columnOf_inner qualify name row outer
  rw [truth_toExpr_leaf leaf (fun _ => row) [] found h]
  exact truth_leaf leaf (fun _ => row) []

/-- Keys are looked up among the rows of the target that satisfy the inner condition. -/
theorem truth_amongRows {frames : Sql.Rows} {column : Sql.ColumnRef} {table key : String}
    {inner : Sql.Expr Param} :
    (Sql.Expr.amongRows column table key inner).truth k tables frames = some true ↔
      ∃ row, k.partner tables table key (frames.value column) row ∧
        inner.truth k tables ((table, row) :: frames) = some true := by
  have own (row : Row) : Sql.Rows.value [(table, row)] ⟨some table, key⟩ = row key := by
    simp [Sql.Rows.value]
  rw [Sql.Expr.truth, Truth.join_or_eq_true, List.mem_map]
  simp only [List.mem_filter, own, Collation.keyTruth_eq_true, beq_iff_eq]
  constructor
  · rintro ⟨row, ⟨there, holds⟩, refers⟩
    exact ⟨row, ⟨there, refers⟩, holds⟩
  · rintro ⟨row, ⟨there, refers⟩, holds⟩
    exact ⟨row, ⟨there, holds⟩, refers⟩

/-- Whatever rows stand around it, a nested condition is about the innermost one. -/
theorem truth_nested {qualify : Bool} {scope : Option Nat} {name : String} {c : Condition}
    {e : Sql.Expr Param} (h : c.toExpr .nested qualify scope name = .ok e) (row : Row)
    (outer : Sql.Rows) :
    e.truth k tables ((name, row) :: outer) = some true ↔ c.Holds k tables row := by
  induction c generalizing scope name row outer e with
  | unary f op => exact truth_nested_leaf h trivial row outer
  | binary f op v => exact truth_nested_leaf h trivial row outer
  | ternary f op v w => exact truth_nested_leaf h trivial row outer
  | collection f op vs => exact truth_nested_leaf h trivial row outer
  | relational relation inner ih =>
    simp only [toExpr] at h
    obtain ⟨hop, hhop, h⟩ := Except.bind_eq_ok.mp h
    obtain ⟨e', he, h⟩ := Except.bind_eq_ok.mp h
    cases h
    obtain ⟨points, keyed⟩ := Hop.of_ok hhop
    rw [truth_amongRows, value_columnOf_inner, Holds, holdsAlong_relational points keyed]
    exact exists_congr fun other => and_congr_right fun _ => ih he other ((name, row) :: outer)
  | composite op children ih =>
    obtain ⟨es, hes, h⟩ := Except.bind_eq_ok.mp h
    cases h
    rw [toExprs_eq] at hes
    have each := ((List.forall₂_and_left _ _).mpr ⟨ih, Except.mapM_forall₂ hes⟩).imp
      fun c e h => h.1 h.2 row outer
    rw [Sql.Expr.truth_ofParts]
    apply join_eq_true_iff
    rw [List.forall₂_map_left_iff]
    exact each.flip

end Condition

namespace Sql.Command

variable {α : Type}

/-- The table whose rows a statement changes or removes. -/
def changedTable : Command α → Option String
  | .update table _ _ | .delete table _ => some table
  | _ => none

/-- The change of all rows, whether or not they match. -/
def unrestricted : Command α → Command α
  | .update table assignments _ => .update table assignments none
  | .delete table _ => .delete table none
  | c => c

end Sql.Command

namespace Query

/-- Statements of a query that change rows. -/
def Changes (q : Query) (command : Sql.Command Param) : Prop :=
  q.delete = .ok command ∨ q.update = .ok command

theorem Changes.filter {q : Query} {command : Sql.Command Param} (h : q.Changes command)
    (d : Dialect) :
    ∃ f, q.filter false = .ok f ∧ command.changedTable = some q.entity.id.table ∧
      command.pieces d =
        command.unrestricted.pieces d ++ Sql.Command.filterPieces d.ident f.clause := by
  rcases h with h | h
  · obtain ⟨f, hf, rfl⟩ := delete_ok h
    exact ⟨f, hf, rfl, rfl⟩
  · obtain ⟨f, hf, rfl⟩ := update_ok h
    refine ⟨f, hf, rfl, ?_⟩
    simp [Sql.Command.pieces, Sql.Command.unrestricted, Sql.Command.filterPieces]

/-- The text of a change is that of the change of all rows and, where there is a condition, WHERE
and a text that is true for a row exactly when the condition holds for it. -/
theorem change_hits_matching (d : Dialect) (legible : d.Legible) (q : Query)
    (command : Sql.Command Param) (changes : q.Changes command) :
    command.changedTable = some q.entity.id.table ∧
    (q.predicate = none →
      Statement.ofCommand d command = ⟨command, (Statement.ofCommand d command.unrestricted).sql,
        (Statement.ofCommand d command.unrestricted).params⟩) ∧
    ∀ c, q.predicate = some c → ∃ condition bound e,
      (Statement.ofCommand d command).sql =
        (Statement.ofCommand d command.unrestricted).sql ++ " WHERE " ++ condition ∧
      (Statement.ofCommand d command).params =
        (Statement.ofCommand d command.unrestricted).params ++ bound ∧
      Sql.readConditionAfter d (Statement.ofCommand d command.unrestricted).params.length bound
        condition = some e ∧
      ∀ (k : Collation) (tables : String → List Row) (row : Row),
        e.truth k tables [(q.entity.id.table, row)] = some true ↔ c.Holds k tables row := by
  obtain ⟨f, hf, table, pieces⟩ := changes.filter d
  rcases filter_ok hf with ⟨none, rfl⟩ | ⟨c, joins, e, some, -, he, rfl⟩
  · refine ⟨table, fun _ => ?_, fun c some => ?_⟩
    · rw [Sql.Command.filterPieces, List.append_nil] at pieces
      simp only [Statement.ofCommand, pieces]
    · rw [none] at some
      cases some
  · refine ⟨table, fun none => ?_, fun c' some' => ?_⟩
    · rw [some] at none
      cases none
    · rw [some] at some'
      cases some'
      simp only [Bool.false_eq_true, if_false] at he
      have normal := Condition.normal_toExpr _ _ he
      refine ⟨(e.pieces d.ident).render d.placeholder (command.unrestricted.pieces d).operands.length,
        (e.pieces d.ident).operands, e, ?_, ?_, Sql.readConditionAfter_pieces legible _ normal,
        fun k tables row => Condition.truth_nested he row []⟩
      · simp [Statement.ofCommand, pieces, Sql.Fragment.render_append, Sql.Command.filterPieces,
          Sql.Fragment.render, String.append_assoc]
      · simp [Statement.ofCommand, pieces, Sql.Fragment.operands_append, Sql.Command.filterPieces,
          Sql.Fragment.operands]

def staffShape : Shape :=
  ⟨⟨"Staff", "staff"⟩, [(Field.named "id" .integer).asPrimaryKey.toAttribute,
    (Field.named "name" .text).asNullable.toAttribute,
    ((Field.named "manager" .integer).inColumn "manager_id").asNullable.toAttribute]⟩

def manager : Field :=
  ((Field.named "manager" .integer).inColumn "manager_id").asNullable.referencing staffShape

def holder : Field := ((Field.named "holder" .integer).inColumn "holder_id").referencing staffShape

def badges : Entity :=
  ⟨⟨"Badge", "badges"⟩, [(Field.named "id" .integer).asPrimaryKey, .named "label" .text, holder]⟩

/-- Labels the badges of everyone with a name whose manager's name begins with a letter. -/
def labelled : Query :=
  ((Query.all badges).restrict (.relational (badges.ref holder) (.composite .and
    [.relational ⟨staffShape.id, manager⟩
        (.binary ⟨staffShape.id, .named "name" .text⟩ .startsWith (.text "a")),
      .binary ⟨staffShape.id, .named "name" .text⟩ .notEq .null]))).assign
    (badges.ref (.named "label" .text)) (.text "b")

def labelledUpdate : Sql.Command Param :=
  .update "badges" [("label", ⟨.text, .text "b"⟩)]
    (some (.amongRows ⟨some "badges", "holder_id"⟩ "staff" "id" (.junction .and
      [.amongRows ⟨some "staff", "manager_id"⟩ "staff" "id"
          (.compare ⟨some "staff", "name"⟩ .like ⟨.text, .text "a%"⟩),
        .nullTest ⟨some "staff", "name"⟩ true])))

theorem change_hits_matching_labelled :
    labelled.Changes labelledUpdate ∧
    ∀ c, labelled.predicate = some c → ∃ condition bound e,
      (Statement.ofCommand .generic labelledUpdate).sql =
        (Statement.ofCommand .generic labelledUpdate.unrestricted).sql ++ " WHERE " ++ condition ∧
      (Statement.ofCommand .generic labelledUpdate).params =
        (Statement.ofCommand .generic labelledUpdate.unrestricted).params ++ bound ∧
      Sql.readConditionAfter .generic
        (Statement.ofCommand .generic labelledUpdate.unrestricted).params.length bound condition =
          some e ∧
      ∀ (k : Collation) (tables : String → List Row) (row : Row),
        e.truth k tables [("badges", row)] = some true ↔ c.Holds k tables row := by
  have changes : labelled.Changes labelledUpdate := .inr rfl
  exact ⟨changes,
    (change_hits_matching .generic Dialect.legible_generic labelled labelledUpdate changes).2.2⟩

end Query

end EntityStore
