import EntityStore.Time.Rfc3339
import EntityStore.Number.Shortest
import EntityStore.Text.Quoted
import EntityStore.Text.Hex
import EntityStore.Text.Ascii

namespace EntityStore

inductive Value where
  | null
  | bool (b : Bool)
  | int (n : Int)
  | float (x : Binary64)
  | text (s : String)
  | blob (bytes : List UInt8)
  /-- A point in time, stored as the type mapping of its column says. -/
  | time (t : Instant)
  deriving DecidableEq, Inhabited

namespace Value

def isNull : Value → Bool
  | .null => true
  | _ => false

/-- The kind of a value as messages name it. -/
def kindName : Value → String
  | .null => "null"
  | .bool _ => "bool"
  | .int _ => "integer"
  | .float _ => "float"
  | .text _ => "text"
  | .blob _ => "blob"
  | .time _ => "timestamp"

/-- Equality of values of one kind; floating point numbers are equal as numbers. -/
def equals : Value → Value → Bool
  | .float x, .float y => x.equals y
  | v, w => v == w

/-- The value as a literal. Statements never hold values; logs show them this way. -/
def literal : Value → String
  | .null => "NULL"
  | .bool true => "TRUE"
  | .bool false => "FALSE"
  | .int n => Text.integer n
  | .float x => Shortest.plain x
  | .text s => Text.quote '\'' s
  | .blob bytes => "X'" ++ Text.upperCase (Text.hexBytes bytes) ++ "'"
  | .time t => "'" ++ Time.text "+00:00" t ++ "'"

end Value

end EntityStore
