import EntityStore.Value.Basic
import EntityStore.FieldType
import EntityStore.Json.Decode

namespace EntityStore

def FieldType.toJson (t : FieldType) : Json := .text t.tag

/-- A saved field type; an alternative without content may also carry null. -/
def FieldType.ofJson? (j : Json) : Option FieldType :=
  match j.alternative? with
  | some (name, none) => FieldType.ofTag? name
  | some (name, some .null) => FieldType.ofTag? name
  | _ => none

namespace Value

def toJson : Value → Json
  | .null => .text "Null"
  | .bool b => .tagged "Bool" (.bool b)
  | .int n => .tagged "Int" (.ofInt n)
  | .float x => .tagged "Float" (.ofFloat x)
  | .text s => .tagged "Text" (.text s)
  | .blob bytes => .tagged "Blob" (.list (bytes.map fun b => .ofInt b.toNat))
  | .time t => .tagged "Timestamp" (.text (Time.text "Z" t))

def ofJson? (j : Json) : Option Value :=
  match j.alternative? with
  | some ("Null", none) => some .null
  | some ("Null", some .null) => some .null
  | some ("Bool", some j) => j.asBool?.map .bool
  | some ("Int", some j) => j.asInt?.map .int
  | some ("Float", some j) => j.asFloat?.map .float
  | some ("Text", some j) => j.asText?.map .text
  | some ("Blob", some j) => (j.asList?.bind fun items => items.mapM Json.asByte?).map .blob
  | some ("Timestamp", some j) =>
    (j.asText?.bind fun s => (Time.readLenient s).toOption).map .time
  | _ => none

end Value

end EntityStore
