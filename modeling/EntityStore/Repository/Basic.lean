import EntityStore.Repository.Backend
import EntityStore.Migration.Planner

namespace EntityStore

structure Repository where
  dialect : Dialect
  types : TypeMap
  options : PlannerOptions

namespace Repository

def of (d : Dialect) : Repository := ⟨d, d.types, .default⟩

variable {σ : Type}

/-- Writes a command in the repository's dialect. -/
def compile (r : Repository) (c : Except Error (Sql.Command Param)) :
    Task σ RepositoryError Statement := do
  let s := Statement.ofCommand r.dialect (← Task.ofCore c)
  Task.log (.compiled r.dialect.name s.sql)
  pure s

end Repository

end EntityStore
