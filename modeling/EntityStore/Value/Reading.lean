import EntityStore.Value.Basic
import EntityStore.Error

namespace EntityStore

namespace Value

def mismatch (v : Value) (expected : String) : Error := .typeMismatch expected v.kindName

def toBool : Value → Except Error Bool
  | .bool b => .ok b
  | .int n => .ok (n != 0)
  | v => .error (v.mismatch "bool")

def toInt64 : Value → Except Error Int
  | .int n => .ok n
  | .bool b => .ok (if b then 1 else 0)
  | v => .error (v.mismatch "i64")

def toInt32 (v : Value) : Except Error Int := do
  let n ← v.toInt64
  if n < Int32.minValue.toInt ∨ Int32.maxValue.toInt < n then
    .error (.invalidArgument (.tooWide n))
  else .ok n

def toFloat : Value → Except Error Binary64
  | .float x => .ok x
  | .int n => .ok (.ofInt n)
  | v => .error (v.mismatch "f64")

def toText : Value → Except Error String
  | .text s => .ok s
  | v => .error (v.mismatch "String")

def toBytes : Value → Except Error (List UInt8)
  | .blob bytes => .ok bytes
  | .text s => .ok s.toUTF8.toList
  | v => .error (v.mismatch "Vec<u8>")

def toInstant : Value → Except Error Instant
  | .time t => .ok t
  | .int ms =>
    match Instant.ofMillis? ms with
    | some t => .ok t
    | none => .error (.invalidArgument (.noInstant ms))
  | .text s => (Time.readStrict s).mapError fun fault => .invalidArgument (.badInstant s fault)
  | v => .error (v.mismatch "DateTime<Utc>")

end Value

/-- What a stored value is read as. -/
inductive Reading where
  | bool
  | int32
  | int64
  | float
  | text
  | bytes
  | instant
  | any
  /-- As the inner reading, null apart. -/
  | nullable (inner : Reading)

/-- The value after it was read: the reading decides its kind. -/
def Reading.apply : Reading → Value → Except Error Value
  | .bool, v => v.toBool.map .bool
  | .int32, v => v.toInt32.map .int
  | .int64, v => v.toInt64.map .int
  | .float, v => v.toFloat.map .float
  | .text, v => v.toText.map .text
  | .bytes, v => v.toBytes.map .blob
  | .instant, v => v.toInstant.map .time
  | .any, v => .ok v
  | .nullable _, .null => .ok .null
  | .nullable inner, v => inner.apply v

end EntityStore
