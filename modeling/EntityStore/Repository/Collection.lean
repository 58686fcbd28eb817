import EntityStore.Repository.Listing
import EntityStore.Repository.Insertion

namespace EntityStore

def RecordType.storable (t : RecordType) : Storable Record := ⟨t.entity, id, t.setKey⟩

structure Collection where
  repository : Repository
  type : RecordType

namespace Collection

variable {σ ε : Type}

/-- Inserts records, and tells how they are afterwards. -/
def addAll (c : Collection) (b : Backend σ ε) (records : List Record) :
    StateM (World σ) (Except RepositoryError Unit × List Record) :=
  c.type.storable.addAll c.repository b records

/-- The deletion of records by their keys. -/
def removal (c : Collection) (records : List Record) : Except RepositoryError Query := do
  match c.type.entity.key? with
  | none => .error (.core (.schemaMismatch (.noKey c.type.entity.id.name)))
  | some key =>
    let keys ← records.mapM c.type.key
    pure ((Query.all c.type.entity).restrict (.collection (c.type.entity.ref key) .isIn keys))

/-- Deletes records by their keys and counts the rows that went. -/
def remove (c : Collection) (b : Backend σ ε) (records : List Record) :
    Task σ RepositoryError Nat := do
  if records.isEmpty then pure 0
  else
    let q ← Task.ofExcept (c.removal records)
    let statement ← c.repository.compile q.delete
    b.call (b.execute statement)

def find (c : Collection) (b : Backend σ ε) (p : Condition) :
    Task σ RepositoryError (List Record) := do
  let query ← ((Draft.all c.type.entity).filter p).prepare c.repository
  query.toList c.type b

def count (c : Collection) (b : Backend σ ε) : Task σ RepositoryError Nat := do
  let query ← (Draft.all c.type.entity).prepare c.repository
  query.count b

end Collection

end EntityStore
