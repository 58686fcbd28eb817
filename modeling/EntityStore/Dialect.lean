import EntityStore.Query.Basic
import EntityStore.TypeMap

namespace EntityStore

/-- The way of a database to write statements. -/
structure Dialect where
  name : String
  quote : Char
  /-- The mark of a parameter, counted from one. -/
  placeholder : Nat → String
  /-- The clause that restricts rows to a window, none where nothing needs restricting. -/
  pageClause : Page → Option String
  returnsKeys : Bool
  dropsColumns : Bool
  autoIncrement : Option String
  /-- Name of the table that a rebuild fills before it takes the place of the old one. -/
  scratchName : String → String
  types : TypeMap

namespace Dialect

def ident (d : Dialect) (name : String) : String := Text.quote d.quote name

/-- The standard's window: OFFSET and FETCH. -/
def fetchClause (p : Page) : Option String :=
  match p.offset, p.limit with
  | none, none => none
  | some o, none => some ("OFFSET " ++ Nat.repr o ++ " ROWS")
  | none, some l => some ("FETCH FIRST " ++ Nat.repr l ++ " ROWS ONLY")
  | some o, some l =>
    some ("OFFSET " ++ Nat.repr o ++ " ROWS FETCH FIRST " ++ Nat.repr l ++ " ROWS ONLY")

/-- LIMIT and OFFSET. An offset needs a limit before it, and -1 stands for none. -/
def limitClause (p : Page) : Option String :=
  match p.offset, p.limit with
  | none, none => none
  | none, some l => some ("LIMIT " ++ Nat.repr l)
  | some o, none => some ("LIMIT -1 OFFSET " ++ Nat.repr o)
  | some o, some l => some ("LIMIT " ++ Nat.repr l ++ " OFFSET " ++ Nat.repr o)

/-- Name of a scratch table unless a dialect says otherwise. -/
def suffixedScratch (table : String) : String := table ++ "__rebuild"

/-- Plain standard SQL. -/
def generic : Dialect where
  name := "generic"
  quote := '"'
  placeholder _ := "?"
  pageClause := fetchClause
  returnsKeys := false
  dropsColumns := true
  autoIncrement := none
  scratchName := suffixedScratch
  types := .generic

/-- SQLite. Its DROP COLUMN refuses key and indexed columns, so it is not used. -/
def sqlite : Dialect where
  name := "sqlite"
  quote := '"'
  placeholder _ := "?"
  pageClause := limitClause
  returnsKeys := true
  dropsColumns := false
  autoIncrement := some "AUTOINCREMENT"
  scratchName := suffixedScratch
  types := .sqlite

end Dialect

end EntityStore
