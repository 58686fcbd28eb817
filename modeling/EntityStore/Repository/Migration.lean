import EntityStore.Repository.Basic
import EntityStore.Migration.Ddl

namespace EntityStore

namespace Repository

def expected (r : Repository) (entities : List Entity) : Except Error Schema :=
  Schema.ofEntities entities r.types

def plan (r : Repository) (entities : List Entity) (actual : Schema) : Except Error Plan := do
  let wanted ← r.expected entities
  (Planner.of r.dialect r.types r.options).plan wanted actual

variable {σ ε : Type}

def planUpgrade (r : Repository) (entities : List Entity) (actual : Schema) :
    Task σ RepositoryError Plan := do
  let p ← Task.ofCore (r.plan entities actual)
  p.forM fun step => Task.log (.planned step.table step.isDestructive)
  pure p

def migrate (b : Backend σ ε) (s : Statement) : Task σ RepositoryError Unit := do
  Task.log (.migrating s.shown)
  let _ ← b.call (b.execute s)

def apply (r : Repository) (b : Backend σ ε) (p : Plan) : Task σ RepositoryError Unit := do
  let statements ← Task.ofCore (p.statements r.dialect)
  p.forM fun step => Task.log (.step step.table step.isDestructive)
  statements.forM (migrate b)

def create (r : Repository) (b : Backend σ ε) (entities : List Entity) :
    Task σ RepositoryError Plan := do
  let p ← r.planUpgrade entities .empty
  Task.log (.creating p.length r.dialect.name)
  r.apply b p
  pure p

def upgrade (r : Repository) (b : Backend σ ε) (entities : List Entity) :
    Task σ RepositoryError Plan := do
  let actual ← b.call b.introspect
  let p ← r.planUpgrade entities actual
  if p.isEmpty then Task.log (.upToDate r.dialect.name)
  else
    Task.log (.upgrading p.length r.dialect.name)
    r.apply b p
  pure p

end Repository

end EntityStore
