import EntityStore.Engine.Fault
import EntityStore.Repository.Error
import EntityStore.Text.Escaped
import EntityStore.Text.Utf8

namespace EntityStore.Engine

inductive AddressFault where
  /-- The name of the database is no text. -/
  | notText (fault : Text.Utf8.Fault)
  | unknownValue (value parameter : String)
  | unknownParameter (name : String)
  deriving DecidableEq

def AddressFault.message : AddressFault → String
  | .notText fault => fault.message
  | .unknownValue value parameter =>
    "unknown value " ++ Text.Escaped.quoted value ++ " for `" ++ parameter ++ "`"
  | .unknownParameter name =>
    "unknown query parameter `" ++ name ++ "` while parsing connection URL"

inductive CatalogFault where
  /-- A foreign key without a column points at a table without a key. -/
  | noKey (table : String)
  | custom (message : String)
  deriving DecidableEq

def CatalogFault.message : CatalogFault → String
  | .noKey table => "foreign key targets table " ++ table ++ " which has no primary key"
  | .custom message => message

inductive EngineError where
  | statement (fault : Fault)
  | address (fault : AddressFault)
  | repository (error : RepositoryError)
  | core (error : Error)
  | introspection (fault : CatalogFault)
  /-- A count was asked for, and a value of another storage class came. -/
  | notNumber (storage : String)
  | violations (count : Nat)
  deriving DecidableEq

namespace EngineError

def message : EngineError → String
  | .statement fault => "Database error: " ++ fault.report
  | .address fault => "Database error: error with configuration: " ++ fault.message
  | .repository error => error.message
  | .core error => error.message
  | .introspection fault => "Schema introspection failed: " ++ fault.message
  | .notNumber storage =>
    "Database error: error occurred while decoding column 0: mismatched types; Rust type `i64` " ++
      "(as SQL type `INTEGER`) is not compatible with SQL type `" ++ storage ++ "`"
  | .violations count => "Foreign key check failed with " ++ Nat.repr count ++ " violating row(s)"

def toRepository : EngineError → RepositoryError
  | .repository error => error
  | .core error => .core error
  | e => .executor e.message

end EngineError

end EntityStore.Engine
