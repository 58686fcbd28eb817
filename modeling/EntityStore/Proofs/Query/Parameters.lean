import EntityStore.Proofs.Query.Slots
import EntityStore.Proofs.Query.Compile

namespace EntityStore

open Sql (Slot Fragment)
open Param (blank)

/-- The dialect with other marks for parameters. -/
def Dialect.marking (d : Dialect) (mark : Nat → String) : Dialect := { d with placeholder := mark }

/-- What a filter is apart from its operands. -/
def Filter.form (f : Filter) : List Join × Option (Sql.Expr Unit) × Bool :=
  (f.joins, f.clause.map (Sql.Expr.map blank), f.qualify)

theorem Filter.column_congr {f f' : Filter} (same : f.form = f'.form) : f.column = f'.column := by
  simp only [form, Prod.mk.injEq] at same
  funext r
  rw [column, column, same.2.2]

theorem Filter.source_congr {f f' : Filter} (same : f.form = f'.form) (table : String) :
    (f.source table).map blank = (f'.source table).map blank := by
  simp only [form, Prod.mk.injEq] at same
  have clause : f.joinClause = f'.joinClause := by
    funext j
    rw [joinClause, joinClause, same.1]
  rw [source, source, Sql.Source.map, Sql.Source.map, same.1, same.2.1, clause]

namespace Query

/-- The query without the values that it binds. -/
def form (q : Query) : Query :=
  { q with
    predicate := q.predicate.map Condition.form
    assignments := q.assignments.map fun a => (a.1, .null) }

/-- The operands of the condition. -/
def slots (ident : String → String) (q : Query) : List (Slot Param) :=
  match q.predicate with
  | none => []
  | some c => c.slots ident

/-- The assigned values, in the order of the assignments. -/
def assignmentSlots (ident : String → String) (q : Query) : List (Slot Param) :=
  q.assignments.map fun a => ⟨ident a.1.field.column ++ " = ", ⟨a.1.field.type, a.2⟩⟩

theorem filter_form (q : Query) (joining : Bool) :
    (q.form.filter joining).map Filter.form = (q.filter joining).map Filter.form := by
  cases hp : q.predicate with
  | none => simp [filter, form, hp]
  | some c =>
    simp only [filter, form, hp, Option.map_some, Condition.joins_form]
    refine Except.map_bind_right _ fun joins => ?_
    refine Except.map_bind_congr (Condition.toExpr_form _ _ none q.entity.id.table c) ?_
    intro e e' same
    simp only [Except.map, Filter.form, Option.map_some, same]

theorem selectFields_form (q : Query) (fields : List FieldRef) :
    (q.form.selectFields fields).map (Sql.Command.map blank) =
      (q.selectFields fields).map (Sql.Command.map blank) := by
  rw [selectFields_eq, selectFields_eq]
  split
  · rfl
  · refine Except.map_bind_right _ fun _ => ?_
    refine Except.map_bind_congr (filter_form q true) fun f f' same => ?_
    refine Except.map_bind_right _ fun _ => ?_
    simp only [Except.map, Sql.Command.map, Filter.column_congr same, form,
      Filter.source_congr same]

theorem count_form (q : Query) :
    q.form.count.map (Sql.Command.map blank) = q.count.map (Sql.Command.map blank) := by
  refine Except.map_bind_congr (filter_form q true) fun f f' same => ?_
  simp only [Except.map, Sql.Command.map, form, Filter.source_congr same]

theorem update_form (q : Query) :
    q.form.update.map (Sql.Command.map blank) = q.update.map (Sql.Command.map blank) := by
  have members : (q.form.assignments.forM fun a => q.form.entity.shape.check a.1) =
      q.assignments.forM fun a => q.entity.shape.check a.1 := by
    simp [form]
  have empty : q.form.assignments.isEmpty = q.assignments.isEmpty := by
    simp [form]
  rw [update_eq, update_eq, members, empty]
  split
  · rfl
  · refine Except.map_bind_right _ fun _ => ?_
    refine Except.map_bind_congr (filter_form q false) fun f f' same => ?_
    simp only [Filter.form, Prod.mk.injEq] at same
    simp only [Except.map, Sql.Command.map, form, same.2.1, List.map_map, Function.comp_def, blank]

theorem delete_form (q : Query) :
    q.form.delete.map (Sql.Command.map blank) = q.delete.map (Sql.Command.map blank) := by
  refine Except.map_bind_congr (filter_form q false) fun f f' same => ?_
  simp only [Filter.form, Prod.mk.injEq] at same
  simp only [Except.map, Sql.Command.map, form, same.2.1]

end Query

namespace Entity

/-- The values of a row that are bound: those of all fields that are not generated keys. -/
def boundValues : List Field → List Value → List Param
  | f :: fs, v :: vs =>
    if f.primaryKey && f.generated then boundValues fs vs else ⟨f.type, v⟩ :: boundValues fs vs
  | _, _ => []

theorem rowParams_eq (e : Entity) (row : List Value) :
    e.rowParams row = boundValues e.fields row := by
  rw [rowParams]
  generalize e.fields = fields
  induction fields generalizing row with
  | nil => cases row <;> rfl
  | cons f fs ih =>
    cases row with
    | nil => rfl
    | cons v vs =>
      rw [boundValues, ← ih vs, List.zip_cons_cons, List.filter_cons]
      cases hf : (f.primaryKey && f.generated) <;> simp [leavesOut, hf]

theorem boundValues_blank (fields : List Field) (row : List Value) :
    (boundValues fields (row.map fun _ => .null)).map blank =
      (boundValues fields row).map blank := by
  induction fields generalizing row with
  | nil => cases row <;> rfl
  | cons f fs ih =>
    cases row with
    | nil => rfl
    | cons v vs =>
      rw [List.map_cons, boundValues, boundValues]
      split
      · exact ih vs
      · rw [List.map_cons, List.map_cons, ih vs]

theorem insert_form (e : Entity) (d : Dialect) (rows : List (List Value)) :
    (e.insert d (rows.map fun row => row.map fun _ => .null)).map (Sql.Command.map blank) =
      (e.insert d rows).map (Sql.Command.map blank) := by
  have widths : ((rows.map fun row => row.map fun _ => Value.null).forM e.checkWidth) =
      rows.forM e.checkWidth := by
    simp only [List.forM_eq_forM, List.forM_map, checkWidth, List.length_map]
    rfl
  rw [insert_eq, insert_eq, List.isEmpty_map, widths]
  split
  · rfl
  · refine Except.map_bind_right _ fun _ => ?_
    simp only [Except.map, Sql.Command.map, List.map_map, Function.comp_def, rowParams_eq,
      boundValues_blank]

end Entity

namespace ColumnCopy

/-- The rule without its default. -/
def form (c : ColumnCopy) : ColumnCopy :=
  { c with source := match c.source with
      | .existing => .existing
      | .existingOr _ => .existingOr .null
      | .constant _ => .constant .null }

theorem fill_form (c : ColumnCopy) :
    c.form.fill.map (fun f => (f.1, f.2.map blank)) = c.fill.map fun f => (f.1, f.2.map blank) := by
  cases c with
  | mk column fieldType source =>
    cases source <;> cases fieldType <;> rfl

theorem fills_form (copies : List ColumnCopy) :
    ((copies.map form).mapM fill).map (List.map fun f => (f.1, f.2.map blank)) =
      (copies.mapM fill).map (List.map fun f => (f.1, f.2.map blank)) := by
  induction copies with
  | nil => rfl
  | cons c copies ih =>
    rw [List.map_cons, List.mapM_cons, List.mapM_cons]
    refine Except.map_bind_congr (fill_form c) fun f f' head => ?_
    refine Except.map_bind_congr ih fun fs fs' tail => ?_
    simp only [pure, Except.pure, Except.map, List.map_cons, head, tail]

/-- The defaults in the order of the rules. One in place of null follows its column, and one alone
stands where a column would. -/
def slots (ident : String → String) : String → List ColumnCopy → List (Slot Param)
  | _, [] => []
  | before, c :: cs => (match c.source, c.fieldType with
    | .existingOr v, some t => [⟨"COALESCE(" ++ ident c.column ++ ", ", ⟨t, v⟩⟩]
    | .constant v, some t => [⟨before, ⟨t, v⟩⟩]
    | _, _ => []) ++ slots ident ", " cs

end ColumnCopy

/-- What a statement with parameters is made from. -/
inductive Request where
  | select (q : Query)
  | selectFields (q : Query) (fields : List FieldRef)
  | count (q : Query)
  | insert (e : Entity) (rows : List (List Value))
  | update (q : Query)
  | delete (q : Query)
  /-- The rows that a rebuilt table takes over. -/
  | copy (t : Table) (copies : List ColumnCopy)

namespace Request

def isCopy : Sql.Command Param → Bool
  | .copyRows .. => true
  | _ => false

/-- The statement of a request. A rebuild that copies no column has none. -/
def command (d : Dialect) : Request → Except Error (Option (Sql.Command Param))
  | .select q => q.select.map some
  | .selectFields q fields => (q.selectFields fields).map some
  | .count q => q.count.map some
  | .insert e rows => (e.insert d rows).map some
  | .update q => q.update.map some
  | .delete q => q.delete.map some
  | .copy t copies => (Step.commands d (.rebuildTable t copies)).map (List.find? isCopy)

/-- The request without the values that it binds. -/
def form : Request → Request
  | .select q => .select q.form
  | .selectFields q fields => .selectFields q.form fields
  | .count q => .count q.form
  | .insert e rows => .insert e (rows.map fun row => row.map fun _ => .null)
  | .update q => .update q.form
  | .delete q => .delete q.form
  | .copy t copies => .copy t (copies.map ColumnCopy.form)

/-- The operands of a request in the order in which they are bound. -/
def slots (ident : String → String) : Request → List (Slot Param)
  | .select q | .selectFields q _ | .count q | .delete q => q.slots ident
  | .insert e rows => rows.flatMap fun row => Sql.listSlots "(" (Entity.boundValues e.fields row)
  | .update q => q.assignmentSlots ident ++ q.slots ident
  | .copy _ copies => ColumnCopy.slots ident "SELECT " copies

theorem command_marking (d : Dialect) (mark : Nat → String) (r : Request) :
    r.command (d.marking mark) = r.command d := by
  cases r <;> rfl

theorem copy_command (d : Dialect) (t : Table) (copies : List ColumnCopy) :
    (copy t copies).command d = (do
      let _ ← t.create d (d.scratchName t.name)
      let fills ← copies.mapM ColumnCopy.fill
      .ok (Step.copyCommand d t fills).head?) := by
  rw [command, Step.commands, Step.rebuild_eq]
  cases hc : t.create d (d.scratchName t.name) with
  | error e => rfl
  | ok create =>
    rw [Table.create_ok hc]
    cases copies.mapM ColumnCopy.fill with
    | error e => rfl
    | ok fills => cases fills <;> rfl

theorem command_form (d : Dialect) (r : Request) :
    (r.form.command d).map (Option.map (Sql.Command.map blank)) =
      (r.command d).map (Option.map (Sql.Command.map blank)) := by
  have lift : ∀ {x y : Except Error (Sql.Command Param)},
      x.map (Sql.Command.map blank) = y.map (Sql.Command.map blank) →
      (x.map some).map (Option.map (Sql.Command.map blank)) =
        (y.map some).map (Option.map (Sql.Command.map blank)) := by
    intro x y same
    cases x <;> cases y <;> simp_all [Except.map]
  cases r with
  | select q => exact lift (q.selectFields_form q.entity.refs)
  | selectFields q fields => exact lift (q.selectFields_form fields)
  | count q => exact lift q.count_form
  | insert e rows => exact lift (e.insert_form d rows)
  | update q => exact lift q.update_form
  | delete q => exact lift q.delete_form
  | copy t copies =>
    rw [form, copy_command, copy_command]
    refine Except.map_bind_right _ fun _ => ?_
    refine Except.map_bind_congr (ColumnCopy.fills_form copies) fun fills fills' same => ?_
    have empty : fills.isEmpty = fills'.isEmpty := by
      rw [← List.isEmpty_map, same, List.isEmpty_map]
    simp only [Except.map, Step.copyCommand, empty]
    split
    · rfl
    · simp only [List.head?_cons, Option.map_some, Sql.Command.map, same]

/-- Requests of one form are granted alike, and their statements differ in operands alone. -/
theorem command_alike (d : Dialect) {r r' : Request} (alike : r'.form = r.form)
    {c : Sql.Command Param} (h : r.command d = .ok (some c)) :
    ∃ c', r'.command d = .ok (some c') ∧ c'.map blank = c.map blank := by
  have same : (r'.command d).map (Option.map (Sql.Command.map blank)) =
      .ok (some (c.map blank)) := by
    rw [← command_form, alike, command_form, h]
    rfl
  obtain ⟨found, hf, same⟩ := Except.map_eq_ok.mp same
  obtain ⟨c', hc, same⟩ := Option.map_eq_some_iff.mp same
  exact ⟨c', hc ▸ hf, same⟩

end Request

end EntityStore
