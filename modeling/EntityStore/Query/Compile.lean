import EntityStore.Query.Filter

namespace EntityStore

namespace Query

def selectFields (q : Query) (fields : List FieldRef) : Except Error (Sql.Command Param) := do
  if fields.isEmpty then .error (.invalidArgument .emptySelect)
  fields.forM q.entity.shape.check
  let f ← q.filter true
  q.ordering.forM fun term => q.entity.shape.check term.1
  .ok (.select (fields.map f.column) (f.source q.entity.id.table)
    (q.ordering.map fun (field, d) => (f.column field, d)) q.page)

/-- Selects every field, in declaration order. -/
def select (q : Query) : Except Error (Sql.Command Param) := q.selectFields q.entity.refs

def count (q : Query) : Except Error (Sql.Command Param) := do
  let f ← q.filter true
  .ok (.count (f.source q.entity.id.table) q.page)

/-- Updates the rows that match, in the order of the assignments. -/
def update (q : Query) : Except Error (Sql.Command Param) := do
  if q.assignments.isEmpty then .error (.invalidArgument .emptyUpdate)
  q.assignments.forM fun a => q.entity.shape.check a.1
  let f ← q.filter false
  .ok (.update q.entity.id.table
    (q.assignments.map fun (field, v) => (field.field.column, ⟨field.field.type, v⟩)) f.clause)

def delete (q : Query) : Except Error (Sql.Command Param) := do
  let f ← q.filter false
  .ok (.delete q.entity.id.table f.clause)

end Query

namespace Entity

def leavesOut (f : Field) : Bool := f.primaryKey && f.generated

def insertedFields (e : Entity) : List Field := e.fields.filter fun f => !leavesOut f

def rowParams (e : Entity) (row : List Value) : List Param :=
  ((e.fields.zip row).filter fun (f, _) => !leavesOut f).map fun (f, v) => ⟨f.type, v⟩

/-- Inserts rows of one value per field, and asks for generated keys where a dialect gives them. -/
def insert (e : Entity) (d : Dialect) (rows : List (List Value)) :
    Except Error (Sql.Command Param) := do
  if rows.isEmpty then .error (.invalidArgument .emptyInsert)
  rows.forM fun row =>
    if row.length = e.fields.length then Except.ok ()
    else .error (.invalidArgument (.rowWidth e.id.name row.length e.fields.length))
  let returning := if d.returnsKeys then (e.key?.filter (·.generated)).map (·.column) else none
  .ok (.insert e.id.table (e.insertedFields.map (·.column)) (rows.map e.rowParams) returning)

end Entity

end EntityStore
