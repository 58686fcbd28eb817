import EntityStore.Proofs.Query.Binding

namespace EntityStore

open Param (blank)
open Sql (Slot Fragment)

namespace Condition

/-- Operands of a comparison that may stand for each other. -/
structure SameOperand (op : BinaryOp) (v w : Value) : Prop where
  null : v.isNull = w.isNull
  kind : op.isPattern = true → v.kindName = w.kindName

/-- Conditions that differ in the values of their operands alone. -/
inductive Alike : Condition → Condition → Prop
  | unary (field : FieldRef) (op : UnaryOp) : Alike (.unary field op) (.unary field op)
  | binary (field : FieldRef) {op : BinaryOp} {v w : Value} : SameOperand op v w →
      Alike (.binary field op v) (.binary field op w)
  | ternary (field : FieldRef) (op : TernaryOp) (v v' w w' : Value) :
      Alike (.ternary field op v v') (.ternary field op w w')
  | collection (field : FieldRef) (op : CollectionOp) {vs ws : List Value} :
      vs.length = ws.length → Alike (.collection field op vs) (.collection field op ws)
  | relational (relation : FieldRef) {c d : Condition} : Alike c d →
      Alike (.relational relation c) (.relational relation d)
  | composite (op : Connective) {cs ds : List Condition} : List.Forall₂ Alike cs ds →
      Alike (.composite op cs) (.composite op ds)

theorem operandForm_congr {op : BinaryOp} {v w : Value} (same : SameOperand op v w) :
    operandForm op v = operandForm op w := by
  unfold operandForm
  rw [same.null]
  split
  · rfl
  · split
    · rename_i pattern
      have kind := same.kind pattern
      cases v <;> cases w <;> simp_all [Value.kindName]
    · rfl

theorem formAll_eq (cs : List Condition) : formAll cs = cs.map form := by
  induction cs with
  | nil => rfl
  | cons c cs ih => rw [formAll, ih, List.map_cons]

theorem Alike.form_eq {c d : Condition} (h : c.Alike d) : c.form = d.form := by
  induction c generalizing d with
  | unary field op =>
    cases h
    rfl
  | binary field op v =>
    cases h with
    | binary _ same => rw [form, form, operandForm_congr same]
  | ternary field op v v' =>
    cases h
    rfl
  | collection field op vs =>
    cases h with
    | collection _ _ length => rw [form, form, List.map_const', List.map_const', length]
  | relational relation c ih =>
    cases h with
    | relational _ inner => rw [form, form, ih inner]
  | composite op cs ih =>
    cases h with
    | @composite _ _ ds each =>
      have forms : cs.map form = ds.map form := by
        rw [← List.forall₂_eq_eq_eq, List.forall₂_map_left_iff, List.forall₂_map_right_iff]
        exact ((List.forall₂_and_left _ _).mpr ⟨ih, each⟩).imp fun c d h => h.1 h.2
      rw [form, form, formAll_eq, formAll_eq, forms]

/-- The types of the parameters do not depend on the values. -/
theorem slots_types (ident : String → String) (c : Condition) :
    (c.form.slots ident).map (·.operand.type) = (c.slots ident).map (·.operand.type) := by
  induction c with
  | unary field op => rfl
  | binary field op v => cases op <;> cases v <;> rfl
  | ternary field op v v' => rfl
  | collection field op vs =>
    cases vs with
    | nil => rfl
    | cons v vs => simp [form, slots, Sql.listSlots, Function.comp_def]
  | relational relation c ih => exact ih
  | composite op cs ih =>
    rw [form, slots, slots, slotsOfAll_eq, slotsOfAll_eq, formAll_eq, List.map_flatten,
      List.map_flatten, List.map_map, List.map_map, List.map_map]
    exact congrArg List.flatten (List.map_congr_left ih)

end Condition

namespace Query

/-- Queries that differ in the values of their operands and assignments alone. -/
structure Alike (q q' : Query) : Prop where
  entity : q.entity = q'.entity
  predicate : Option.Rel Condition.Alike q.predicate q'.predicate
  page : q.page = q'.page
  ordering : q.ordering = q'.ordering
  assignments : q.assignments.map (·.1) = q'.assignments.map (·.1)

theorem Alike.form_eq {q q' : Query} (h : q.Alike q') : q.form = q'.form := by
  obtain ⟨entity, predicate, page, ordering, assignments⟩ := q
  obtain ⟨entity', predicate', page', ordering', assignments'⟩ := q'
  obtain ⟨rfl, same, rfl, rfl, fields⟩ := h
  have predicates : predicate.map Condition.form = predicate'.map Condition.form := by
    cases same with
    | some alike => exact congrArg some alike.form_eq
    | none => rfl
  have cleared := congrArg (List.map fun f : FieldRef => (f, Value.null)) fields
  rw [List.map_map, List.map_map] at cleared
  simp only [form, predicates]
  exact congrArg _ cleared

theorem slots_types (ident : String → String) (q : Query) :
    (q.form.slots ident).map (·.operand.type) = (q.slots ident).map (·.operand.type) := by
  unfold slots form
  cases q.predicate with
  | none => rfl
  | some c => exact c.slots_types ident

theorem assignmentSlots_types (ident : String → String) (q : Query) :
    (q.form.assignmentSlots ident).map (·.operand.type) =
      (q.assignmentSlots ident).map (·.operand.type) := by
  simp [assignmentSlots, form, Function.comp_def]

end Query

namespace Entity

theorem boundValues_types (fields : List Field) (row : List Value) :
    (boundValues fields (row.map fun _ => .null)).map (·.type) =
      (boundValues fields row).map (·.type) := by
  induction fields generalizing row with
  | nil => cases row <;> rfl
  | cons f fs ih =>
    cases row with
    | nil => rfl
    | cons v vs =>
      rw [List.map_cons, boundValues, boundValues]
      split
      · exact ih vs
      · rw [List.map_cons, List.map_cons, ih vs]

end Entity

theorem ColumnCopy.slots_types (ident : String → String) (before : String)
    (copies : List ColumnCopy) :
    (slots ident before (copies.map form)).map (·.operand.type) =
      (slots ident before copies).map (·.operand.type) := by
  induction copies generalizing before with
  | nil => rfl
  | cons c copies ih =>
    obtain ⟨column, type, source⟩ := c
    rw [List.map_cons, slots, slots, List.map_append, List.map_append, ih]
    cases source <;> cases type <;> rfl

namespace Request

theorem listSlots_types (words : String) (params : List Param) :
    (Sql.listSlots words params).map (·.operand.type) = params.map (·.type) := by
  cases params with
  | nil => rfl
  | cons p params => simp [Sql.listSlots, Function.comp_def]

theorem slots_types (ident : String → String) (r : Request) :
    (r.form.slots ident).map (·.operand.type) = (r.slots ident).map (·.operand.type) := by
  cases r with
  | select q => exact q.slots_types ident
  | selectFields q fields => exact q.slots_types ident
  | count q => exact q.slots_types ident
  | delete q => exact q.slots_types ident
  | update q =>
    simp only [form, slots, List.map_append, q.slots_types, q.assignmentSlots_types]
  | insert e rows =>
    simp only [form, slots, List.map_flatMap, List.flatMap_map, listSlots_types,
      Entity.boundValues_types]
  | copy t copies => exact ColumnCopy.slots_types ident "SELECT " copies

/-- Requests that differ in the values that they bind alone. -/
inductive Alike : Request → Request → Prop
  | select {q q' : Query} : q.Alike q' → Alike (.select q) (.select q')
  | selectFields {q q' : Query} (fields : List FieldRef) : q.Alike q' →
      Alike (.selectFields q fields) (.selectFields q' fields)
  | count {q q' : Query} : q.Alike q' → Alike (.count q) (.count q')
  | insert (e : Entity) {rows rows' : List (List Value)} :
      rows.map List.length = rows'.map List.length → Alike (.insert e rows) (.insert e rows')
  | update {q q' : Query} : q.Alike q' → Alike (.update q) (.update q')
  | delete {q q' : Query} : q.Alike q' → Alike (.delete q) (.delete q')
  | copy (t : Table) {copies copies' : List ColumnCopy} :
      copies.map ColumnCopy.form = copies'.map ColumnCopy.form →
      Alike (.copy t copies) (.copy t copies')

theorem Alike.form_eq {r r' : Request} (h : r.Alike r') : r.form = r'.form := by
  cases h with
  | select same => exact congrArg Request.select same.form_eq
  | selectFields fields same => exact congrArg (Request.selectFields · fields) same.form_eq
  | count same => exact congrArg Request.count same.form_eq
  | update same => exact congrArg Request.update same.form_eq
  | delete same => exact congrArg Request.delete same.form_eq
  | copy t same => exact congrArg (Request.copy t) same
  | insert e lengths =>
    have cleared := congrArg (List.map fun n => List.replicate n Value.null) lengths
    rw [List.map_map, List.map_map] at cleared
    simpa only [form, List.map_const', Function.comp_def] using congrArg (Request.insert e) cleared

/-- The statement of a request without the values of its parameters: its text, and their types. -/
def outline (d : Dialect) (r : Request) : Except Error (Option (String × List FieldType)) :=
  (r.command d).map (Option.map fun c =>
    let s := Statement.ofCommand d c
    (s.sql, s.params.map (·.type)))

/-- Statements of requests of one form have the same text, and parameters of the same types. -/
theorem outline_congr {d : Dialect} {r r' : Request} {c c' : Sql.Command Param}
    (h : r.command d = .ok (some c)) (h' : r'.command d = .ok (some c')) (alike : r.form = r'.form)
    (same : c.map blank = c'.map blank) :
    (Statement.ofCommand d c).sql = (Statement.ofCommand d c').sql ∧
      (Statement.ofCommand d c).params.map (·.type) =
        (Statement.ofCommand d c').params.map (·.type) := by
  obtain ⟨lead, later⟩ := Sql.Command.texts_congr d blank blank same
  have types {r : Request} {c : Sql.Command Param} (h : r.command d = .ok (some c)) :
      (Statement.ofCommand d c).params.map (·.type) =
        (r.form.slots d.ident).map (·.operand.type) := by
    rw [slots_types, Statement.ofCommand, (hasSlots_command h).operands_eq, List.map_map]
    rfl
  constructor
  · simp only [Statement.ofCommand, Fragment.render_weave, lead, later]
  · rw [types h, types h', alike]

/-- Requests that differ in values alone are refused for the same reason, or become the same text
with as many parameters of the same types. -/
theorem values_do_not_show (d : Dialect) (r r' : Request) (alike : r.Alike r') :
    r.outline d = r'.outline d := by
  have form := alike.form_eq
  have same : (r.command d).map (Option.map (Sql.Command.map blank)) =
      (r'.command d).map (Option.map (Sql.Command.map blank)) := by
    rw [← command_form, form, command_form]
  unfold outline
  cases h : r.command d with
  | error e =>
    rw [h] at same
    rw [Except.map_eq_error.mp same.symm]
  | ok found =>
    rw [h] at same
    obtain ⟨found', h', commands⟩ := Except.map_eq_ok.mp same.symm
    rw [h']
    cases found with
    | none =>
      obtain rfl := Option.map_eq_none_iff.mp commands
      rfl
    | some c =>
      obtain ⟨c', rfl, blanks⟩ := Option.map_eq_some_iff.mp commands
      obtain ⟨text, types⟩ := outline_congr h h' form blanks.symm
      simp only [Except.map, Option.map_some, text, types]

/-- The same renaming as `renamed` with other texts and bounds, none of them harmless. -/
def renamedOtherwise : Query :=
  ((Query.all users).restrict (.composite .or
    [.binary (users.ref (.named "name" .text)) .eq .null,
      .composite .and
        [.binary (users.ref (.named "name" .text)) .startsWith (.text "' OR 1 = 1 --"),
          .relational (users.ref (((Field.named "role" .integer).inColumn "role_id").referencing
            roles.shape)) (.ternary (roles.ref (.named "id" .integer)) .between .null (.text "?"))]])
    ).assign (users.ref (.named "name" .text)) (.text "\"; DROP TABLE users")

theorem values_do_not_show_renamed :
    (update renamed).Alike (update renamedOtherwise) ∧
      (update renamed).outline .sqlite = (update renamedOtherwise).outline .sqlite := by
  have predicate : Option.Rel Condition.Alike renamed.predicate renamedOtherwise.predicate :=
    .some (.composite .or (.cons (.binary _ ⟨rfl, fun _ => rfl⟩) (.cons
      (.composite .and (.cons (.binary _ ⟨rfl, fun _ => rfl⟩) (.cons
        (.relational _ (.ternary _ .between _ _ _ _)) .nil))) .nil)))
  have alike : (update renamed).Alike (update renamedOtherwise) :=
    .update ⟨rfl, predicate, rfl, rfl, rfl⟩
  exact ⟨alike, values_do_not_show .sqlite (update renamed) (update renamedOtherwise) alike⟩

end Request

end EntityStore
