import EntityStore.Repository.Basic
import EntityStore.Query.Compile

namespace EntityStore

/-- What it takes to store items of some type. -/
structure Storable (α : Type) where
  entity : Entity
  /-- One value per field, in declaration order. -/
  values : α → List Value
  /-- The item with a key that the database generated; one that refuses the key stays as it is. -/
  setKey : α → Value → Except RepositoryError α

namespace Storable

variable {σ ε α : Type}

/-- Compiles the insertion of some items. -/
def insertion (t : Storable α) (r : Repository) (items : List α) :
    Task σ RepositoryError Statement :=
  r.compile (t.entity.insert r.dialect (items.map t.values))

/-- The key in the answer to the insertion of one item. -/
def keyOf (t : Storable α) : List Row → Except RepositoryError Value
  | [row] =>
    match row.valueAt? 0 with
    | some key => .ok key
    | none => .error (.generatedKey t.entity.id.name 1)
  | rows => .error (.generatedKey t.entity.id.name rows.length)

/-- Inserts one item and gives it its generated key. -/
def addKeyed (t : Storable α) (r : Repository) (b : Backend σ ε) (item : α) :
    Task σ RepositoryError α := do
  let statement ← t.insertion r [item]
  let keys ← b.call (b.insert statement)
  Task.ofExcept (t.keyOf keys >>= t.setKey item)

/-- Inserts items one by one up to the first failure, and tells how they are afterwards. -/
def addEach (t : Storable α) (r : Repository) (b : Backend σ ε) :
    List α → StateM (World σ) (Except RepositoryError Unit × List α)
  | [] => pure (.ok (), [])
  | item :: rest => do
    match ← (t.addKeyed r b item).run with
    | .ok item' =>
      let (outcome, rest') ← addEach t r b rest
      pure (outcome, item' :: rest')
    | .error e => pure (.error e, item :: rest)

def addTogether (t : Storable α) (r : Repository) (b : Backend σ ε) (items : List α) :
    Task σ RepositoryError Unit := do
  let statement ← t.insertion r items
  let _ ← b.call (b.insert statement)
  Task.log (.inserted t.entity.id.name items.length false)

/-- Inserts items, and tells how they are afterwards: with their keys up to the first failure. -/
def addAll (t : Storable α) (r : Repository) (b : Backend σ ε) (items : List α) :
    StateM (World σ) (Except RepositoryError Unit × List α) := do
  if items.isEmpty then pure (.ok (), items)
  else if t.entity.hasGeneratedKey then
    let (outcome, after) ← t.addEach r b items
    match outcome with
    | .ok () =>
      let done : Task σ RepositoryError Unit :=
        Task.log (.inserted t.entity.id.name items.length true)
      pure (← done.run, after)
    | .error e => pure (.error e, after)
  else pure (← (t.addTogether r b items).run, items)

end Storable

end EntityStore
