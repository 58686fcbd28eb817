import EntityStore.Proofs.Sql.Holes

namespace EntityStore.Sql

variable {α β : Type}

namespace Expr

/-- Conditions are built from parts that have the property already. -/
@[elab_as_elim, induction_eliminator]
theorem inductParts {motive : Expr α → Prop}
    (constant : ∀ value, motive (.constant value))
    (nullTest : ∀ column negated, motive (.nullTest column negated))
    (compare : ∀ column op operand, motive (.compare column op operand))
    (between : ∀ column low high, motive (.between column low high))
    (among : ∀ column negated operands, motive (.among column negated operands))
    (amongRows : ∀ column table key inner, motive inner →
      motive (.amongRows column table key inner))
    (junction : ∀ op parts, (∀ e ∈ parts, motive e) → motive (.junction op parts)) :
    (e : Expr α) → motive e
  | .constant value => constant value
  | .nullTest column negated => nullTest column negated
  | .compare column op operand => compare column op operand
  | .between column low high => between column low high
  | .among column negated operands => among column negated operands
  | .amongRows column table key inner => amongRows column table key inner
      (inductParts constant nullTest compare between among amongRows junction inner)
  | .junction op parts => junction op parts fun e _ =>
      inductParts constant nullTest compare between among amongRows junction e

mutual

/-- The condition with other operands. -/
def map (g : α → β) : Expr α → Expr β
  | .constant b => .constant b
  | .nullTest c negated => .nullTest c negated
  | .compare c op a => .compare c op (g a)
  | .between c low high => .between c (g low) (g high)
  | .among c negated operands => .among c negated (operands.map g)
  | .amongRows c table key inner => .amongRows c table key (map g inner)
  | .junction op parts => .junction op (mapParts g parts)

def mapParts (g : α → β) : List (Expr α) → List (Expr β)
  | [] => []
  | e :: es => map g e :: mapParts g es

end

theorem mapParts_eq (g : α → β) (es : List (Expr α)) : mapParts g es = es.map (map g) := by
  induction es with
  | nil => rfl
  | cons e es ih => simp [mapParts, ih]

theorem isJunction_map (g : α → β) (e : Expr α) : (e.map g).isJunction = e.isJunction := by
  cases e <;> rfl

theorem map_ofParts (g : α → β) (op : Connective) (es : List (Expr α)) :
    (ofParts op es).map g = ofParts op (es.map (map g)) := by
  match es with
  | [] => rfl
  | [e] => rfl
  | e :: e' :: es => simp [ofParts, map, mapParts_eq]

/-- A part of a junction as it is written. -/
def partFragment (ident : String → String) (e : Expr α) : Fragment α :=
  if e.isJunction then .text "(" :: (pieces ident e ++ [.text ")"]) else pieces ident e

theorem partPieces_eq (ident : String → String) (es : List (Expr α)) :
    partPieces ident es = es.map (partFragment ident) := by
  induction es with
  | nil => rfl
  | cons e es ih => simp [partPieces, partFragment, ih]

theorem holes_map (g : α → β) (operands : List α) :
    (holes operands).map g = holes (operands.map g) := by
  rw [holes, holes, Fragment.map_separated, List.map_map, List.map_map]
  rfl

theorem pieces_map (ident : String → String) (g : α → β) (e : Expr α) :
    (e.map g).pieces ident = (e.pieces ident).map g := by
  induction e with
  | constant value => cases value <;> rfl
  | nullTest column negated => rfl
  | compare column op operand => rfl
  | between column low high => rfl
  | among column negated operands =>
    simp [map, pieces, Fragment.map, Fragment.map_append, holes_map]
  | amongRows column table key inner ih =>
    simp [map, pieces, Fragment.map, Fragment.map_append, ih]
  | junction op parts ih =>
    have part : ∀ e ∈ parts, partFragment ident (e.map g) = (partFragment ident e).map g := by
      intro e he
      rw [partFragment, partFragment, isJunction_map, ih e he]
      split <;> simp [Fragment.map, Fragment.map_append]
    rw [map, pieces, pieces, mapParts_eq, partPieces_eq, partPieces_eq, Fragment.map_separated,
      List.map_map, List.map_map]
    congr 1
    exact List.map_congr_left part

end Expr

/-- The source with other operands. -/
def Source.map (g : α → β) (s : Source α) : Source β := ⟨s.table, s.joins, s.filter.map (Expr.map g)⟩

def Fill.map (g : α → β) : Fill α → Fill β
  | .existing => .existing
  | .existingOr a => .existingOr (g a)
  | .constant a => .constant (g a)

namespace Command

/-- The statement with other operands. -/
def map (g : α → β) : Command α → Command β
  | .select columns source order page => .select columns (source.map g) order page
  | .count source page => .count (source.map g) page
  | .echo operands => .echo (operands.map g)
  | .insert table columns rows returning =>
    .insert table columns (rows.map fun row => row.map g) returning
  | .update table assignments filter =>
    .update table (assignments.map fun a => (a.1, g a.2)) (filter.map (Expr.map g))
  | .delete table filter => .delete table (filter.map (Expr.map g))
  | .createTable t => .createTable t
  | .dropTable t => .dropTable t
  | .addColumn t c => .addColumn t c
  | .dropColumn t c => .dropColumn t c
  | .copyRows target columns source =>
    .copyRows target (columns.map fun c => (c.1, c.2.map g)) source
  | .renameTable t name => .renameTable t name

theorem filterPieces_map (ident : String → String) (g : α → β) (filter : Option (Expr α)) :
    filterPieces ident (filter.map (Expr.map g)) = (filterPieces ident filter).map g := by
  cases filter with
  | none => rfl
  | some e => simp [filterPieces, Fragment.map, Expr.pieces_map]

theorem sourcePieces_map (ident : String → String) (g : α → β) (s : Source α) :
    sourcePieces ident (s.map g) = (sourcePieces ident s).map g := by
  simp [sourcePieces, Source.map, Fragment.map, filterPieces_map]

theorem tuple_map (g : α → β) (operands : List α) :
    tuple (operands.map g) = (tuple operands).map g := by
  simp [tuple, Fragment.map, Fragment.map_append, Expr.holes_map]

theorem fillPieces_map (ident : String → String) (g : α → β) (column : String) (f : Fill α) :
    fillPieces ident column (f.map g) = (fillPieces ident column f).map g := by
  cases f <;> rfl

theorem pieces_map (d : Dialect) (g : α → β) (c : Command α) :
    (c.map g).pieces d = (c.pieces d).map g := by
  cases c with
  | select columns source order page =>
    simp [map, pieces, Fragment.map, Fragment.map_append, sourcePieces_map]
  | count source page =>
    simp only [map, pieces]
    cases page.bind d.pageClause <;>
      simp [Fragment.map, Fragment.map_append, sourcePieces_map]
  | echo operands =>
    simp only [map, pieces, Fragment.map, Fragment.map_separated]
    congr 2
    apply List.ext_getElem <;> simp [Fragment.map]
  | insert table columns rows returning =>
    have tuples : (rows.map fun row => row.map g).map tuple =
        (rows.map tuple).map (Fragment.map g) := by
      simp [tuple_map]
    simp only [map, pieces, Fragment.map, Fragment.map_append, Fragment.map_separated, tuples]
    cases returning <;> rfl
  | update table assignments filter =>
    simp [map, pieces, Fragment.map, Fragment.map_append, Fragment.map_separated, filterPieces_map]
    rfl
  | delete table filter => simp [map, pieces, Fragment.map, filterPieces_map]
  | copyRows target columns source =>
    simp [map, pieces, Fragment.map, Fragment.map_append, Fragment.map_separated, fillPieces_map,
      Function.comp_def]
  | createTable t => rfl
  | dropTable t => rfl
  | addColumn t c => rfl
  | dropColumn t c => rfl
  | renameTable t name => rfl

/-- Statements that differ in their operands alone have the same fixed texts. -/
theorem texts_congr (d : Dialect) {γ : Type} (g : α → γ) (h : β → γ) {c : Command α}
    {c' : Command β} (same : c.map g = c'.map h) :
    (c.pieces d).lead = (c'.pieces d).lead ∧ (c.pieces d).later = (c'.pieces d).later := by
  have pieces : (c.pieces d).map g = (c'.pieces d).map h := by
    rw [← pieces_map, ← pieces_map, same]
  constructor
  · rw [← Fragment.lead_map g, pieces, Fragment.lead_map]
  · rw [← Fragment.later_map g, pieces, Fragment.later_map]

end Command

end EntityStore.Sql
