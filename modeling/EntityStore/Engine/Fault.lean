import EntityStore.Text.Decimal
import EntityStore.Text.Quoted

namespace EntityStore.Engine

inductive Fault where
  /-- The database is opened through a file system that does not exist. -/
  | noFileSystem (name : String)
  | noTable (name : String)
  /-- The table that a foreign key points at does not exist. -/
  | noParent (name : String)
  /-- A foreign key points at a column that is not the key of its table. -/
  | keyMismatch (child parent : String)
  | tableExists (name : String)
  | nameTaken (name : String)
  | reservedName (name : String)
  | duplicateColumn (name : String)
  /-- A list has no items; the token that comes instead of the first is named. -/
  | unexpected (token : String)
  | incomplete
  | unrecognized (characters : String)
  | keyRepeated (table : String)
  /-- A primary key consists of something else than columns. -/
  | keyExpression
  | autoIncrement
  /-- A row is written to a column that its table lacks. -/
  | noColumn (table column : String)
  | unknownColumn (name : String)
  /-- An integer key is given something else. -/
  | mismatch
  | notNull (table column : String)
  | keyTaken (table : String) (columns : List String)
  | foreignKey
  | readOnly
  | full
  deriving DecidableEq

namespace Fault

def code : Fault → Nat
  | .mismatch => 20
  | .notNull .. => 1299
  | .keyTaken .. => 1555
  | .foreignKey => 787
  | .readOnly => 8
  | .full => 13
  | _ => 1

def message : Fault → String
  | .noFileSystem name => "no such vfs: " ++ name
  | .noTable name => "no such table: " ++ name
  | .noParent name => "no such table: main." ++ name
  | .keyMismatch child parent =>
    "foreign key mismatch - " ++ Text.quote '"' child ++ " referencing " ++ Text.quote '"' parent
  | .tableExists name => "table " ++ Text.quote '"' name ++ " already exists"
  | .nameTaken name => "there is already another table or index with this name: " ++ name
  | .reservedName name => "object name reserved for internal use: " ++ name
  | .duplicateColumn name => "duplicate column name: " ++ name
  | .unexpected token => "near " ++ Text.quote '"' token ++ ": syntax error"
  | .incomplete => "incomplete input"
  | .unrecognized characters => "unrecognized token: \"" ++ characters ++ "\""
  | .keyRepeated table => "table " ++ Text.quote '"' table ++ " has more than one primary key"
  | .keyExpression => "expressions prohibited in PRIMARY KEY and UNIQUE constraints"
  | .autoIncrement => "AUTOINCREMENT is only allowed on an INTEGER PRIMARY KEY"
  | .noColumn table column => "table " ++ table ++ " has no column named " ++ column
  | .unknownColumn name => "no such column: " ++ name
  | .mismatch => "datatype mismatch"
  | .notNull table column => "NOT NULL constraint failed: " ++ table ++ "." ++ column
  | .keyTaken table columns =>
    "UNIQUE constraint failed: " ++
      String.intercalate ", " (columns.map fun c => table ++ "." ++ c)
  | .foreignKey => "FOREIGN KEY constraint failed"
  | .readOnly => "attempt to write a readonly database"
  | .full => "database or disk is full"

/-- Whether a statement is refused before it begins to run. -/
def isEarly (f : Fault) : Bool := f.code == 1

def report (f : Fault) : String :=
  "error returned from database: (code: " ++ Nat.repr f.code ++ ") " ++ f.message

end Fault

end EntityStore.Engine
