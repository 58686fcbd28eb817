import EntityStore.Proofs.Sql.Shape

namespace EntityStore.Sql

/-- An operand with the column that it is compared with or assigned to. -/
structure Binding (α : Type) where
  column : ColumnRef
  operand : α

variable {α : Type}

namespace Expr

mutual

/-- The bindings of a search condition, from left to right. -/
def bindings : Expr α → List (Binding α)
  | .constant _ => []
  | .nullTest _ _ => []
  | .compare column _ operand => [⟨column, operand⟩]
  | .between column low high => [⟨column, low⟩, ⟨column, high⟩]
  | .among column _ operands => operands.map fun a => ⟨column, a⟩
  | .amongRows _ _ _ inner => bindings inner
  | .junction _ parts => bindingsOfAll parts

def bindingsOfAll : List (Expr α) → List (Binding α)
  | [] => []
  | e :: es => bindings e ++ bindingsOfAll es

end

theorem bindingsOfAll_eq (es : List (Expr α)) : bindingsOfAll es = es.flatMap bindings := by
  induction es with
  | nil => rfl
  | cons e es ih => rw [bindingsOfAll, ih, List.flatMap_cons]

theorem bindings_ofParts (op : Connective) (es : List (Expr α)) :
    (ofParts op es).bindings = es.flatMap bindings := by
  match es with
  | [] => rfl
  | [e] => exact (List.flatMap_singleton ..).symm
  | e :: e' :: es => exact bindingsOfAll_eq (e :: e' :: es)

theorem operands_holes (operands : List α) : (holes operands).operands = operands := by
  rw [holes, Fragment.operands_separated, List.flatMap_map]
  exact List.flatMap_singleton' operands

theorem operands_partFragment (ident : String → String) (e : Expr α) :
    (partFragment ident e).operands = (e.pieces ident).operands := by
  rw [partFragment]
  split
  · rw [Fragment.operands, Fragment.operands_append]
    exact List.append_nil _
  · rfl

/-- A search condition binds nothing else. -/
theorem operands_pieces (ident : String → String) (e : Expr α) :
    (e.pieces ident).operands = e.bindings.map (·.operand) := by
  induction e with
  | constant value => cases value <;> rfl
  | nullTest column negated => rfl
  | compare column op operand => rfl
  | between column low high => rfl
  | among column negated operands =>
    simp [pieces, bindings, Fragment.operands, Fragment.operands_append, operands_holes,
      Function.comp_def]
  | amongRows column table key inner ih =>
    simp [pieces, bindings, Fragment.operands, Fragment.operands_append, ih]
  | junction op parts ih =>
    rw [pieces, bindings, partPieces_eq, bindingsOfAll_eq, Fragment.operands_separated,
      List.flatMap_map, List.map_flatMap]
    exact List.flatMap_congr fun e there => (operands_partFragment ident e).trans (ih e there)

end Expr

namespace Command

def filterBindings : Option (Expr α) → List (Binding α)
  | none => []
  | some e => e.bindings

/-- The bindings of a statement that may have a condition: assignments before comparisons. -/
def bindings : Command α → List (Binding α)
  | .select _ source _ _ => filterBindings source.filter
  | .count source _ => filterBindings source.filter
  | .update _ assignments filter =>
    (assignments.map fun a => ⟨⟨none, a.1⟩, a.2⟩) ++ filterBindings filter
  | .delete _ filter => filterBindings filter
  | _ => []

/-- Statements that may have a condition. -/
def mayFilter : Command α → Bool
  | .select .. | .count .. | .update .. | .delete .. => true
  | _ => false

theorem operands_filterPieces (ident : String → String) (filter : Option (Expr α)) :
    (filterPieces ident filter).operands = (filterBindings filter).map (·.operand) := by
  cases filter with
  | none => rfl
  | some e => exact e.operands_pieces ident

theorem operands_commandPieces (d : Dialect) {c : Command α} (filtered : c.mayFilter = true) :
    (c.pieces d).operands = c.bindings.map (·.operand) := by
  cases c with
  | select columns source order page =>
    simp [pieces, sourcePieces, bindings, Fragment.operands, Fragment.operands_append,
      operands_filterPieces]
  | count source page =>
    simp only [pieces]
    split <;> simp [sourcePieces, bindings, Fragment.operands, Fragment.operands_append,
      operands_filterPieces]
  | update table assignments filter =>
    have assigned : (assignments.map fun a =>
          ([.text (d.ident a.1 ++ " = "), .hole a.2] : Fragment α)).flatMap Fragment.operands =
        assignments.map (·.2) := by
      rw [List.flatMap_map]
      exact List.map_eq_flatMap.symm
    simp [pieces, bindings, Fragment.operands, Fragment.operands_append,
      Fragment.operands_separated, operands_filterPieces, assigned, Function.comp_def]
  | delete table filter => exact operands_filterPieces d.ident filter
  | _ => cases filtered

end Command

end EntityStore.Sql
