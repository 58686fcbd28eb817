import EntityStore.Proofs.Condition.Form
import EntityStore.Query.Compile
import EntityStore.Migration.Ddl

namespace EntityStore

open Sql (Slot Fragment)

namespace Sql

/-- Slots of a list in parentheses. -/
def listSlots {α : Type} (words : String) : List α → List (Slot α)
  | [] => []
  | a :: as => ⟨words, a⟩ :: as.map fun a => ⟨", ", a⟩

namespace Fragment.HasSlots

variable {α : Type}

theorem separated (separator : String) {fs : List (Fragment α)} {slots : List (List (Slot α))}
    (h : List.Forall₂ HasSlots fs slots) : HasSlots (separated separator fs) slots.flatten := by
  induction h with
  | nil => exact .nil
  | @cons f first fs rest hf hfs ih =>
    cases hfs with
    | nil => simpa [Fragment.separated] using hf
    | cons hf' hfs => exact hf.append (ih.text separator)

theorem holes {f : Fragment α} {more : List (Slot α)} (before words : String) (operands : List α)
    (h : HasSlots f more) :
    HasSlots (.text (before ++ words) :: (Expr.holes operands ++ f))
      (listSlots words operands ++ more) := by
  induction operands generalizing before words with
  | nil => exact h.text (before ++ words)
  | cons a as ih =>
    cases as with
    | nil => exact h.hole before words a
    | cons b bs =>
      have rest := ih "" ", "
      rw [String.empty_append] at rest
      exact rest.hole before words a

end Fragment.HasSlots

theorem Expr.columnText_ends (ident : String → String) (c : ColumnRef) :
    ∃ before, columnText ident c = before ++ ident c.column := by
  cases c with
  | mk qualifier column =>
    cases qualifier with
    | none => exact ⟨"", (String.empty_append).symm⟩
    | some q => exact ⟨ident q ++ ".", rfl⟩

end Sql

namespace Condition

/-- The parameter of a comparison: patterns are texts whatever the type of the field. -/
def comparisonParam (field : FieldRef) (op : BinaryOp) (v : Value) : Param :=
  match v with
  | .text s =>
    if op.isPattern then ⟨.text, .text (likePattern op s)⟩ else ⟨field.field.type, .text s⟩
  | _ => ⟨field.field.type, v⟩

mutual

/-- The operands of a condition from left to right, each behind the words of its comparison. Null
is not bound. -/
def slots (ident : String → String) : Condition → List (Slot Param)
  | .unary _ _ => []
  | .binary field op v =>
    if v.isNull then []
    else [⟨ident field.field.column ++ " " ++ (comparison op).symbol ++ " ",
      comparisonParam field op v⟩]
  | .ternary field _ first second =>
    [⟨ident field.field.column ++ " BETWEEN ", ⟨field.field.type, first⟩⟩,
      ⟨" AND ", ⟨field.field.type, second⟩⟩]
  | .collection field op vs =>
    Sql.listSlots (ident field.field.column ++ if op == .notIn then " NOT IN (" else " IN (")
      (vs.map fun v => ⟨field.field.type, v⟩)
  | .relational _ inner => slots ident inner
  | .composite _ children => slotsOfAll ident children

def slotsOfAll (ident : String → String) : List Condition → List (Slot Param)
  | [] => []
  | c :: cs => slots ident c ++ slotsOfAll ident cs

end

theorem slotsOfAll_eq (ident : String → String) (cs : List Condition) :
    slotsOfAll ident cs = (cs.map (slots ident)).flatten := by
  induction cs with
  | nil => rfl
  | cons c cs ih => simp [slotsOfAll, ih]

variable (ident : String → String)

theorem hasSlots_compare (column : Sql.ColumnRef) (op : Sql.Comparison) (p : Param) :
    Fragment.HasSlots ((Sql.Expr.compare column op p).pieces ident)
      [⟨ident column.column ++ " " ++ op.symbol ++ " ", p⟩] := by
  obtain ⟨before, eq⟩ := Sql.Expr.columnText_ends ident column
  have words : Sql.Expr.columnText ident column ++ " " ++ op.symbol ++ " " =
      before ++ (ident column.column ++ " " ++ op.symbol ++ " ") := by
    simp only [eq, String.append_assoc]
  rw [Sql.Expr.pieces, words]
  exact .hole before _ p .nil

theorem hasSlots_binary {column : Sql.ColumnRef} {field : FieldRef} {op : BinaryOp} {v : Value}
    {e : Sql.Expr Param} (same : column.column = field.field.column)
    (h : binaryExpr column field op v = .ok e) :
    Fragment.HasSlots (e.pieces ident) ((Condition.binary field op v).slots ident) := by
  unfold binaryExpr at h
  simp only [slots]
  split at h
  · rename_i null
    rw [if_pos null]
    cases op <;> cases h <;> exact .text _ .nil
  · rename_i bound
    rw [if_neg bound, ← same]
    split at h
    · rename_i pattern
      cases v <;> cases h
      simp only [comparisonParam, if_pos pattern]
      exact hasSlots_compare ident column (comparison op) _
    · rename_i plain
      cases h
      have param : comparisonParam field op v = ⟨field.field.type, v⟩ := by
        cases v <;> simp [comparisonParam, plain]
      rw [param]
      exact hasSlots_compare ident column (comparison op) _

theorem hasSlots_between (column : Sql.ColumnRef) (low high : Param) :
    Fragment.HasSlots ((Sql.Expr.between column low high).pieces ident)
      [⟨ident column.column ++ " BETWEEN ", low⟩, ⟨" AND ", high⟩] := by
  obtain ⟨before, eq⟩ := Sql.Expr.columnText_ends ident column
  have second : Fragment.HasSlots [.text " AND ", .hole high] [⟨" AND ", high⟩] := by
    simpa using Fragment.HasSlots.hole "" " AND " high .nil
  rw [Sql.Expr.pieces, eq, String.append_assoc]
  exact second.hole before (ident column.column ++ " BETWEEN ") low

theorem hasSlots_collection (column : Sql.ColumnRef) (field : FieldRef) (op : CollectionOp)
    (vs : List Value) (same : column.column = field.field.column) :
    Fragment.HasSlots ((collectionExpr column field op vs).pieces ident)
      ((Condition.collection field op vs).slots ident) := by
  cases vs with
  | nil => cases op <;> exact .text _ .nil
  | cons v vs =>
    obtain ⟨before, eq⟩ := Sql.Expr.columnText_ends ident column
    have tail : Fragment.HasSlots ([.text ")"] : Fragment Param) [] := .text ")" .nil
    have list := tail.holes before
      (ident column.column ++ if op == .notIn then " NOT IN (" else " IN (")
      ((v :: vs).map fun v => (⟨field.field.type, v⟩ : Param))
    rw [← String.append_assoc, ← eq, List.append_nil, same] at list
    simpa [collectionExpr, slots, Sql.Expr.pieces] using list

theorem hasSlots_part {e : Sql.Expr Param} {slots : List (Slot Param)}
    (h : Fragment.HasSlots (e.pieces ident) slots) :
    Fragment.HasSlots (e.partFragment ident) slots := by
  rw [Sql.Expr.partFragment]
  split
  · have close : Fragment.HasSlots ([.text ")"] : Fragment Param) [] := .text ")" .nil
    simpa using (h.append close).text "("
  · exact h

theorem hasSlots_ofParts (op : Connective) {es : List (Sql.Expr Param)}
    {slots : List (List (Slot Param))}
    (h : List.Forall₂ (fun (e : Sql.Expr Param) s => Fragment.HasSlots (e.pieces ident) s)
      es slots) :
    Fragment.HasSlots ((Sql.Expr.ofParts op es).pieces ident) slots.flatten := by
  have parts : List.Forall₂ Fragment.HasSlots (es.map (Sql.Expr.partFragment ident)) slots := by
    rw [List.forall₂_map_left_iff]
    exact h.imp fun _ _ h => hasSlots_part ident h
  match es, h with
  | [], .nil => cases op <;> exact .text _ .nil
  | [e], .cons first .nil => simpa [Sql.Expr.ofParts] using first
  | e :: e' :: es, _ =>
    rw [Sql.Expr.ofParts, Sql.Expr.pieces, Sql.Expr.partPieces_eq]
    · exact .separated (Sql.keyword op) parts
    · simp
    · simp

section

variable (reach : Reach) (qualify : Bool)

/-- The parameters of a search condition are the operands of the condition, in order. -/
theorem hasSlots_toExpr {scope : Option Nat} {name : String} {c : Condition} {e : Sql.Expr Param}
    (h : c.toExpr reach qualify scope name = .ok e) :
    Fragment.HasSlots (e.pieces ident) (c.slots ident) := by
  induction c generalizing scope name e with
  | unary field op => cases h; exact .text _ .nil
  | binary field op v => exact hasSlots_binary ident rfl h
  | ternary field op first second =>
    cases op
    cases h
    exact hasSlots_between ident (columnOf qualify name field) _ _
  | collection field op vs =>
    cases h
    exact hasSlots_collection ident _ field op vs rfl
  | relational relation inner ih =>
    simp only [toExpr] at h
    cases reach with
    | joined joins =>
      dsimp only at h
      split at h
      · cases h
      · split at h
        · cases h
        · exact ih h
    | nested =>
      obtain ⟨hop, -, h⟩ := Except.bind_eq_ok.mp h
      obtain ⟨e', he, h⟩ := Except.bind_eq_ok.mp h
      cases h
      have close : Fragment.HasSlots ([.text ")"] : Fragment Param) [] := .text ")" .nil
      simpa [Sql.Expr.pieces, slots] using ((ih he).append close).text _
  | composite op children ih =>
    obtain ⟨es, hes, h⟩ := Except.bind_eq_ok.mp h
    cases h
    rw [toExprs_eq] at hes
    rw [slots, slotsOfAll_eq]
    apply hasSlots_ofParts
    rw [List.forall₂_map_right_iff]
    exact (((List.forall₂_and_left _ _).mpr ⟨ih, Except.mapM_forall₂ hes⟩).imp
      fun c e h => h.1 h.2).flip

end

end Condition

end EntityStore
