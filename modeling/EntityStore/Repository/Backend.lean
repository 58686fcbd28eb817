import EntityStore.Repository.Row
import EntityStore.Repository.Event
import EntityStore.Sql.Statement
import EntityStore.Schema.Basic
import EntityStore.TypeMap

namespace EntityStore

structure World (σ : Type) where
  state : σ
  journal : List Event

/-- Work on a database. What was done before a failure is kept. -/
abbrev Task (σ ε : Type) := ExceptT ε (StateM (World σ))

namespace Task

variable {σ ε : Type} {α : Type}

def log (e : Event) : Task σ ε Unit := modify fun w => { w with journal := w.journal ++ [e] }

/-- Notes that a type map learns a layer of types. -/
def announce (layer : List (FieldType × Mapping)) : Task σ ε Unit :=
  layer.forM fun (t, mapping) => log (.registered t mapping.columnType)

/-- A result that needs no database. -/
def ofExcept : Except ε α → Task σ ε α
  | .ok a => pure a
  | .error e => throw e

/-- The same for a result that arises before a statement exists. -/
def ofCore (r : Except Error α) : Task σ RepositoryError α := ofExcept (r.mapError .core)

def turn (f : σ → σ) : Task σ ε Unit := modify fun w => { w with state := f w.state }

/-- Changes the state in one go, or refuses and leaves it. -/
def change (f : σ → Except ε (α × σ)) : Task σ ε α := do
  let w ← get
  let (a, s) ← ofExcept (f w.state)
  set { w with state := s }
  pure a

end Task

/-- A database: how it runs statements, reads its own schema, and words its errors. -/
structure Backend (σ ε : Type) where
  select : Statement → Task σ ε (List Row)
  count : Statement → Task σ ε Nat
  /-- Answers with the generated keys, a row for each inserted row. -/
  insert : Statement → Task σ ε (List Row)
  /-- Answers with the number of rows that changed. -/
  execute : Statement → Task σ ε Nat
  introspect : Task σ ε Schema
  message : ε → String

namespace Backend

variable {σ ε : Type} {α : Type}

/-- Work of the database as a part of a repository's work. -/
def call (b : Backend σ ε) (t : Task σ ε α) : Task σ RepositoryError α :=
  t.adapt fun e => .executor (b.message e)

end Backend

end EntityStore
