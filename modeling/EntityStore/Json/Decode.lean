import EntityStore.Json.Basic

namespace EntityStore.Json

structure FieldSpec where
  name : String
  /-- An absent field is read as null. -/
  optional : Bool

/-- The value of a field among the members of an object. -/
def member? (members : List (String × Json)) (f : FieldSpec) : Option Json :=
  match members.filter fun m => m.1 == f.name with
  | [] => if f.optional then some .null else none
  | [m] => some m.2
  | _ => none

/-- The values of a record's fields, in the order of the fields, which is that of a list. -/
def record? (fields : List FieldSpec) : Json → Option (List Json)
  | .object members => fields.mapM (member? members)
  | .list items => if items.length = fields.length then some items else none
  | _ => none

/-- An alternative and what it carries. -/
def alternative? : Json → Option (String × Option Json)
  | .text name => some (name, none)
  | .object [(name, payload)] => some (name, some payload)
  | _ => none

def asText? : Json → Option String
  | .text s => some s
  | _ => none

def asBool? : Json → Option Bool
  | .bool b => some b
  | _ => none

def asList? : Json → Option (List Json)
  | .list items => some items
  | _ => none

def asInt? : Json → Option Int
  | .number n => n.toInt?.filter fun i =>
    decide (Int64.minValue.toInt ≤ i ∧ i ≤ Int64.maxValue.toInt)
  | _ => none

def asByte? (j : Json) : Option UInt8 :=
  j.asInt?.bind fun i => if 0 ≤ i ∧ i < 256 then some (UInt8.ofNat i.toNat) else none

/-- A floating point number; integers are numbers too. -/
def asFloat? : Json → Option Binary64
  | .number n => n.toFloat?
  | _ => none

/-- Null, or a value that the reader takes. -/
def asOptional? {α : Type} (read : Json → Option α) : Json → Option (Option α)
  | .null => some none
  | j => (read j).map some

def ofOptional {α : Type} (write : α → Json) : Option α → Json
  | none => .null
  | some a => write a

/-- An alternative that carries a value. -/
def tagged (name : String) (payload : Json) : Json := .object [(name, payload)]

end EntityStore.Json
