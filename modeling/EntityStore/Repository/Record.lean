import EntityStore.Repository.Row
import EntityStore.Entity

namespace EntityStore

/-- An entity in memory: one value per field, in declaration order. -/
abbrev Record := List Value

/-- The reading that a field's type and nullability suggest. -/
def Reading.ofAttribute (a : Attribute) : Reading :=
  if a.nullable then .nullable (plain a.type) else plain a.type
where
  plain : FieldType → Reading
    | .text | .enum => .text
    | .integer => .int64
    | .real => .float
    | .boolean => .bool
    | .date => .instant
    | .blob => .bytes

structure RecordType where
  entity : Entity
  /-- The readings of the fields, in declaration order. -/
  readings : List Reading
  /-- How a generated key is read; records without it cannot take one. -/
  keyReading : Option Reading

namespace RecordType

def ofRow (t : RecordType) (row : Row) : Except RepositoryError Record :=
  (t.entity.fields.zip t.readings).mapM fun (f, reading) => row.get f.column reading

def keyIndex? (t : RecordType) : Option Nat := t.entity.fields.findIdx? (·.primaryKey)

def key (t : RecordType) (r : Record) : Except RepositoryError Value :=
  match t.keyIndex? with
  | none => .error (.core (.schemaMismatch (.noKey t.entity.id.name)))
  | some i =>
    match r[i]? with
    | some v => .ok v
    | none => .error (.core (.invalidArgument (.missingKey t.entity.id.name)))

/-- The record with a key that the database generated. -/
def setKey (t : RecordType) (r : Record) (key : Value) : Except RepositoryError Record :=
  match t.keyReading with
  | some reading =>
    ((reading.apply key).mapError .core).map fun v => r.set (t.keyIndex?.getD 0) v
  | none =>
    if t.entity.hasGeneratedKey then
      .error (.core (.schemaMismatch (.keyNotStored t.entity.id.name)))
    else .ok r

end RecordType

end EntityStore
