import EntityStore.Sql.Command

namespace EntityStore

/-- A bound value with the logical type that decides its storage. -/
structure Param where
  type : FieldType
  value : Value
  deriving DecidableEq

/-- A statement together with what it means. -/
structure Statement where
  command : Sql.Command Param
  sql : String
  params : List Param

namespace Statement

def ofCommand (d : Dialect) (c : Sql.Command Param) : Statement :=
  let pieces := c.pieces d
  ⟨c, pieces.render d.placeholder 0, pieces.operands⟩

/-- The statement with its parameters as literals behind it. -/
def shown (s : Statement) : String :=
  if s.params.isEmpty then s.sql
  else s.sql ++ " \x7bparams: [" ++
    String.intercalate ", " (s.params.map fun p => p.value.literal) ++ "]\x7d"

end Statement

end EntityStore
