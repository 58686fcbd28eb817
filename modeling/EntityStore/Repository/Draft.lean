import EntityStore.Repository.Basic
import EntityStore.Query.Compile

namespace EntityStore

/-- A query or an update under construction. -/
structure Draft where
  query : Query
  /-- The first argument that was refused. -/
  refused : Option Error

/-- A prepared query: statements for the listing, its size, its first row and its only row. -/
structure PreparedQuery where
  query : Query
  listing : Statement
  counting : Statement
  first : Statement
  /-- Asks for two rows, so that a second one is noticed. -/
  single : Statement

structure Projection where
  fields : List FieldRef
  statement : Statement

namespace Draft

def ofQuery (q : Query) : Draft := ⟨q, none⟩

def all (e : Entity) : Draft := ofQuery (.all e)

/-- Keeps the first refusal. -/
def refuse (d : Draft) (e : Error) : Draft := { d with refused := some (d.refused.getD e) }

/-- Takes a change of the query, or remembers why there is none. -/
def take (d : Draft) : Except Error Query → Draft
  | .ok q => { d with query := q }
  | .error e => d.refuse e

def filter (d : Draft) (c : Condition) : Draft := { d with query := d.query.restrict c }

def skip (d : Draft) (n : Int) : Draft := d.take (d.query.skip n)

def limit (d : Draft) (n : Int) : Draft := d.take (d.query.limit n)

def orderBy (d : Draft) (fields : List FieldRef) (direction : Direction) : Draft :=
  { d with query := d.query.orderBy fields direction }

def set (d : Draft) (f : FieldRef) (v : Value) : Draft := { d with query := d.query.assign f v }

/-- Clears a field, which has to be nullable. -/
def clear (d : Draft) (f : FieldRef) : Draft :=
  if f.field.nullable then d.set f .null
  else d.refuse (.invalidArgument (.notNullable f.field.name))

def checked (d : Draft) : Except Error Query :=
  match d.refused with
  | some e => .error e
  | none => .ok d.query

variable {σ : Type}

def prepare (d : Draft) (r : Repository) : Task σ RepositoryError PreparedQuery := do
  let q ← Task.ofCore d.checked
  let listing ← r.compile q.select
  let counting ← r.compile q.count
  let first ← r.compile (q.capped 1).select
  let single ← r.compile (q.capped 2).select
  Task.log (.prepared .query q.entity.id.name listing.shown)
  pure ⟨q, listing, counting, first, single⟩

def project (d : Draft) (r : Repository) (fields : List FieldRef) :
    Task σ RepositoryError Projection := do
  let q ← Task.ofCore d.checked
  let statement ← r.compile (q.selectFields fields)
  Task.log (.prepared .projection q.entity.id.name statement.shown)
  pure ⟨fields, statement⟩

def prepareUpdate (d : Draft) (r : Repository) : Task σ RepositoryError Statement := do
  let q ← Task.ofCore d.checked
  let statement ← r.compile q.update
  Task.log (.prepared .update q.entity.id.name statement.shown)
  pure statement

def prepareDelete (d : Draft) (r : Repository) : Task σ RepositoryError Statement := do
  let q ← Task.ofCore d.checked
  let statement ← r.compile q.delete
  Task.log (.prepared .delete q.entity.id.name statement.shown)
  pure statement

end Draft

end EntityStore
