import EntityStore.Engine.Connection
import EntityStore.Engine.Settings
import EntityStore.Repository.Inspect
import EntityStore.Repository.Migration

namespace EntityStore.Engine

/-- A repository whose database is embedded. -/
structure Store where
  repository : Repository
  foreignKeys : Bool

namespace Store

/-- A store for a connection that is there already, whose foreign keys are taken to be enforced. -/
def wrap : Store := ⟨.of .sqlite, true⟩

/-- A store for a database that is opened with some settings. -/
def connect (s : Settings) : Except EngineError (Store × Connection) :=
  match s.check with
  | .error fault => .error (.address fault)
  | .ok () =>
    match s.fileSystem?.filter fun name => !Settings.fileSystems.contains name with
    | some name => .error (.statement (.noFileSystem name))
    | none => .ok (⟨.of .sqlite, s.foreignKeys⟩, .fresh s.foreignKeys !s.readOnly)

/-- A store shows none of its parts. -/
def inspect (_ : Store) : String := Inspect.parts "SqliteExecutor" [] true

def backend (s : Store) : Backend Connection EngineError := Connection.backend s.repository.types

def create (s : Store) (entities : List Entity) : Work Plan :=
  Connection.atomically Connection.drop
    ((s.repository.create s.backend entities).adapt .repository)

/-- Upgrades the schema, and checks every reference afterwards. -/
def migrate (s : Store) (entities : List Entity) : Work Plan := do
  let plan ← (s.repository.upgrade s.backend entities).adapt .repository
  Connection.checkForeignKeys
  pure plan

/-- Upgrades the schema while foreign keys are not enforced, which is switched around the
transaction. -/
def upgrade (s : Store) (entities : List Entity) : Work Plan := do
  Connection.enforce false
  let outcome : Except EngineError Plan ←
    liftM (Connection.atomically Connection.rollback (s.migrate entities)).run
  Connection.enforce s.foreignKeys
  match outcome with
  | .ok plan =>
    Task.log (.committed plan.length)
    pure plan
  | .error e =>
    Task.log (.rolledBack e.message)
    throw e

end Store

end EntityStore.Engine
