import EntityStore.Error

namespace EntityStore

inductive DecodeFault where
  | notInRow
  /-- The row ends before the column. -/
  | notInResult
  | unreadable (error : Error)
  | custom (message : String)
  deriving DecidableEq

def DecodeFault.message : DecodeFault → String
  | .notInRow => "column not present in row"
  | .notInResult => "column missing from result"
  | .unreadable error => error.message
  | .custom message => message

inductive RepositoryError where
  /-- Nothing reached the database. -/
  | core (error : Error)
  /-- A query for one row met more. -/
  | multipleResults
  /-- An insertion did not answer with one generated key. -/
  | generatedKey (entity : String) (returned : Nat)
  | decode (column : String) (fault : DecodeFault)
  /-- The database refused a statement, in its own words. -/
  | executor (message : String)
  deriving DecidableEq

def RepositoryError.message : RepositoryError → String
  | .core error => error.message
  | .multipleResults => "query returned more than one row where at most one was expected"
  | .generatedKey entity returned =>
    "insert into " ++ entity ++ " returned " ++ Nat.repr returned ++
      " generated key rows, expected 1"
  | .decode column fault => "cannot decode column '" ++ column ++ "': " ++ fault.message
  | .executor message => "executor error: " ++ message

end EntityStore
