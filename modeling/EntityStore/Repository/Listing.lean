import EntityStore.Repository.Draft
import EntityStore.Repository.Record

namespace EntityStore

variable {σ ε : Type}

namespace PreparedQuery

def fork (p : PreparedQuery) : Draft := .ofQuery p.query

/-- The records of the listing; one that cannot be read does not spoil the others. -/
def each (p : PreparedQuery) (t : RecordType) (b : Backend σ ε) :
    Task σ RepositoryError (List (Except RepositoryError Record)) := do
  let rows ← b.call (b.select p.listing)
  pure (rows.map t.ofRow)

/-- All records of the listing, or the first error. -/
def toList (p : PreparedQuery) (t : RecordType) (b : Backend σ ε) :
    Task σ RepositoryError (List Record) := do
  let rows ← b.call (b.select p.listing)
  Task.ofExcept (rows.mapM t.ofRow)

def count (p : PreparedQuery) (b : Backend σ ε) : Task σ RepositoryError Nat :=
  b.call (b.count p.counting)

def firstOf (t : RecordType) : List Row → Except RepositoryError (Option Record)
  | [] => .ok none
  | row :: _ => (t.ofRow row).map some

def onlyOf (t : RecordType) : List Row → Except RepositoryError (Option Record)
  | [] => .ok none
  | [row] => (t.ofRow row).map some
  | _ => .error .multipleResults

def first? (p : PreparedQuery) (t : RecordType) (b : Backend σ ε) :
    Task σ RepositoryError (Option Record) := do
  Task.ofExcept (firstOf t (← b.call (b.select p.first)))

/-- The only record, if there is one; more than one is an error. -/
def single? (p : PreparedQuery) (t : RecordType) (b : Backend σ ε) :
    Task σ RepositoryError (Option Record) := do
  Task.ofExcept (onlyOf t (← b.call (b.select p.single)))

end PreparedQuery

namespace Projection

/-- A row under the names of the fields instead of their columns. -/
def rename (fields : List FieldRef) (row : Row) : Except RepositoryError Row := do
  let cells ← fields.zipIdx.mapM fun (f, i) =>
    match row.valueAt? i with
    | some v => Except.ok (f.field.name, v)
    | none => .error (.decode f.field.column .notInResult)
  pure ⟨cells⟩

def fetch (p : Projection) (b : Backend σ ε) : Task σ RepositoryError (List Row) := do
  let rows ← b.call (b.select p.statement)
  Task.ofExcept (rows.mapM (rename p.fields))

end Projection

end EntityStore
