import EntityStore.Condition.Visitor
import EntityStore.Sql.Statement

namespace EntityStore

open Condition (Visit)

/-- A statement as a database is given it. -/
structure Written where
  sql : String
  params : List Param
  deriving DecidableEq

/-- What a database is given of a statement. -/
def Statement.written (s : Statement) : Written := ⟨s.sql, s.params⟩

/-- The parameters that are bound while texts are put together. -/
structure Writer where
  params : List Param

namespace Writer

def fresh : Writer := ⟨[]⟩

/-- Records a parameter and gives its mark, which is put into a text later. -/
def bind (d : Dialect) (type : FieldType) (value : Value) : Visit Writer String := do
  modify fun w => ⟨w.params ++ [⟨type, value⟩]⟩
  let w ← get
  pure (d.placeholder w.params.length)

/-- The statement whose text some work comes to, with what is bound on the way. -/
def finish (text : Visit Writer String) : Except Error Written :=
  (text.result fresh).map fun r => ⟨r.1, r.2.params⟩

end Writer

def Dialect.qualified (d : Dialect) (table column : String) : String :=
  d.ident table ++ "." ++ d.ident column

end EntityStore
