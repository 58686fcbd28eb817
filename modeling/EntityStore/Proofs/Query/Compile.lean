import EntityStore.Proofs.Outcome
import EntityStore.Query.Compile
import EntityStore.Migration.Ddl

namespace EntityStore

namespace Query

theorem selectFields_eq (q : Query) (fields : List FieldRef) :
    q.selectFields fields =
      if fields.isEmpty then .error (.invalidArgument .emptySelect)
      else (do
        fields.forM q.entity.shape.check
        let f ← q.filter true
        q.ordering.forM fun o => q.entity.shape.check o.1
        .ok (.select (fields.map f.column) (f.source q.entity.id.table)
          (q.ordering.map fun o => (f.column o.1, o.2)) q.page)) := by
  rfl

theorem update_eq (q : Query) :
    q.update =
      if q.assignments.isEmpty then .error (.invalidArgument .emptyUpdate)
      else (do
        q.assignments.forM fun a => q.entity.shape.check a.1
        let f ← q.filter false
        .ok (.update q.entity.id.table
          (q.assignments.map fun a => (a.1.field.column, ⟨a.1.field.type, a.2⟩)) f.clause)) := by
  rfl

theorem selectFields_ok {q : Query} {fields : List FieldRef} {c : Sql.Command Param}
    (h : q.selectFields fields = .ok c) :
    ∃ f, q.filter true = .ok f ∧
      c = .select (fields.map f.column) (f.source q.entity.id.table)
        (q.ordering.map fun o => (f.column o.1, o.2)) q.page := by
  rw [selectFields_eq] at h
  split at h
  · cases h
  · obtain ⟨-, -, h⟩ := Except.bind_eq_ok.mp h
    obtain ⟨f, hf, h⟩ := Except.bind_eq_ok.mp h
    obtain ⟨-, -, h⟩ := Except.bind_eq_ok.mp h
    cases h
    exact ⟨f, hf, rfl⟩

theorem count_ok {q : Query} {c : Sql.Command Param} (h : q.count = .ok c) :
    ∃ f, q.filter true = .ok f ∧ c = .count (f.source q.entity.id.table) q.page := by
  obtain ⟨f, hf, h⟩ := Except.bind_eq_ok.mp h
  cases h
  exact ⟨f, hf, rfl⟩

theorem update_ok {q : Query} {c : Sql.Command Param} (h : q.update = .ok c) :
    ∃ f, q.filter false = .ok f ∧
      c = .update q.entity.id.table
        (q.assignments.map fun a => (a.1.field.column, ⟨a.1.field.type, a.2⟩)) f.clause := by
  rw [update_eq] at h
  split at h
  · cases h
  · obtain ⟨-, -, h⟩ := Except.bind_eq_ok.mp h
    obtain ⟨f, hf, h⟩ := Except.bind_eq_ok.mp h
    cases h
    exact ⟨f, hf, rfl⟩

theorem delete_ok {q : Query} {c : Sql.Command Param} (h : q.delete = .ok c) :
    ∃ f, q.filter false = .ok f ∧ c = .delete q.entity.id.table f.clause := by
  obtain ⟨f, hf, h⟩ := Except.bind_eq_ok.mp h
  cases h
  exact ⟨f, hf, rfl⟩

/-- A filter is there where a predicate is, and is what the predicate compiles to. -/
theorem filter_ok {q : Query} {joining : Bool} {f : Filter} (h : q.filter joining = .ok f) :
    (q.predicate = none ∧ f = ⟨[], none, false⟩) ∨
    ∃ c joins e, q.predicate = some c ∧ c.joins q.entity = .ok joins ∧
      c.toExpr (if joining then .joined joins else .nested) (!joins.isEmpty) none q.entity.id.table =
        .ok e ∧
      f = ⟨if joining then joins else [], some e, !joins.isEmpty⟩ := by
  unfold filter at h
  split at h
  · rename_i none
    cases h
    exact .inl ⟨none, rfl⟩
  · rename_i c some
    obtain ⟨joins, hj, h⟩ := Except.bind_eq_ok.mp h
    obtain ⟨e, he, h⟩ := Except.bind_eq_ok.mp h
    cases h
    exact .inr ⟨c, joins, e, some, hj, he, rfl⟩

/-- The filter of a selection with a condition: the joins of the condition, and what it compiles to
along them. -/
theorem filter_joined {q : Query} {c : Condition} {joins : List Join} {f : Filter}
    (predicate : q.predicate = some c) (joined : c.joins q.entity = .ok joins)
    (h : q.filter true = .ok f) :
    ∃ e, c.toExpr (.joined joins) (!joins.isEmpty) none q.entity.id.table = .ok e ∧
      f = ⟨joins, some e, !joins.isEmpty⟩ := by
  rcases filter_ok h with ⟨none, -⟩ | ⟨c', joins', e, given, found, compiled, rfl⟩
  · rw [predicate] at none
    cases none
  · rw [predicate] at given
    cases given
    rw [joined] at found
    cases found
    exact ⟨e, compiled, rfl⟩

end Query

namespace Entity

/-- The key that an insertion asks for. -/
def returning (e : Entity) (d : Dialect) : Option String :=
  if d.returnsKeys then (e.key?.filter (·.generated)).map (·.column) else none

/-- A row has one value for each field. -/
def checkWidth (e : Entity) (row : List Value) : Except Error Unit :=
  if row.length = e.fields.length then .ok ()
  else .error (.invalidArgument (.rowWidth e.id.name row.length e.fields.length))

theorem insert_eq (e : Entity) (d : Dialect) (rows : List (List Value)) :
    e.insert d rows =
      if rows.isEmpty then .error (.invalidArgument .emptyInsert)
      else (do
        rows.forM e.checkWidth
        .ok (.insert e.id.table (e.insertedFields.map (·.column)) (rows.map e.rowParams)
          (e.returning d))) := by
  rfl

theorem insert_ok {e : Entity} {d : Dialect} {rows : List (List Value)} {c : Sql.Command Param}
    (h : e.insert d rows = .ok c) :
    c = .insert e.id.table (e.insertedFields.map (·.column)) (rows.map e.rowParams)
      (e.returning d) := by
  rw [insert_eq] at h
  split at h
  · cases h
  · obtain ⟨-, -, h⟩ := Except.bind_eq_ok.mp h
    cases h
    rfl

end Entity

theorem Table.create_ok {d : Dialect} {name : String} {t : Table} {c : Sql.Command Param}
    (h : t.create d name = .ok c) : c = .createTable (t.definition d name) := by
  unfold create at h
  split at h
  · cases h
  · cases h; rfl

namespace Step

/-- The statement that copies the rows of a rebuilt table, where some column is copied. -/
def copyCommand {α : Type} (d : Dialect) (t : Table) (fills : List (String × Sql.Fill α)) :
    List (Sql.Command α) :=
  if fills.isEmpty then [] else [.copyRows (d.scratchName t.name) fills t.name]

theorem rebuild_eq (d : Dialect) (t : Table) (copies : List ColumnCopy) :
    rebuild d t copies = (do
      let create ← t.create d (d.scratchName t.name)
      let fills ← copies.mapM ColumnCopy.fill
      .ok (create :: (copyCommand d t fills ++
        [.dropTable t.name, .renameTable (d.scratchName t.name) t.name]))) := by
  rfl

/-- The statements of a rebuild; rows are copied where some column is to be filled. -/
theorem rebuild_ok {d : Dialect} {t : Table} {copies : List ColumnCopy}
    {commands : List (Sql.Command Param)} (h : rebuild d t copies = .ok commands) :
    ∃ fills : List (String × Sql.Fill Param), copies.mapM ColumnCopy.fill = .ok fills ∧
      commands = .createTable (t.definition d (d.scratchName t.name)) ::
        (copyCommand d t fills ++ [.dropTable t.name, .renameTable (d.scratchName t.name) t.name]) := by
  rw [rebuild_eq] at h
  obtain ⟨create, made, h⟩ := Except.bind_eq_ok.mp h
  obtain ⟨fills, filled, h⟩ := Except.bind_eq_ok.mp h
  cases h
  cases Table.create_ok made
  exact ⟨fills, filled, rfl⟩

end Step

end EntityStore
