import EntityStore.FieldType
import EntityStore.Error

namespace EntityStore

/-- An entity is known by its name together with its table. -/
structure EntityName where
  name : String
  table : String
  deriving DecidableEq, Inhabited

/-- What a field is, its reference left out. -/
structure Attribute where
  name : String
  /-- The column that stores the field. -/
  column : String
  type : FieldType
  nullable : Bool
  primaryKey : Bool
  /-- The database assigns the key on insertion. -/
  generated : Bool
  deriving DecidableEq, Inhabited

/-- An entity with its fields, their references left out. -/
structure Shape where
  id : EntityName
  attributes : List Attribute
  deriving DecidableEq, Inhabited

structure Field extends Attribute where
  references : Option Shape
  deriving DecidableEq, Inhabited

/-- A stored type: its name, its table and its fields in the order of the columns. -/
structure Entity where
  id : EntityName
  fields : List Field
  deriving DecidableEq, Inhabited

/-- A field as a field of an entity, which need not be the one that declares it. -/
structure FieldRef where
  owner : EntityName
  field : Field
  deriving DecidableEq, Inhabited

namespace Field

def named (name : String) (type : FieldType) : Field :=
  ⟨⟨name, name, type, false, false, false⟩, none⟩

def inColumn (f : Field) (column : String) : Field := { f with column := column }

def asNullable (f : Field) : Field := { f with nullable := true }

/-- Keys are never null. -/
def asPrimaryKey (f : Field) : Field := { f with primaryKey := true, nullable := false }

def asGenerated (f : Field) : Field := { f with generated := true }

def referencing (f : Field) (target : Shape) : Field := { f with references := some target }

end Field

namespace Shape

def key? (s : Shape) : Option Attribute := s.attributes.find? (·.primaryKey)

/-- Whether a field of this name and column is declared. -/
def declares (s : Shape) (a : Attribute) : Bool :=
  s.attributes.any fun b => b.name == a.name && b.column == a.column

end Shape

namespace Entity

def shape (e : Entity) : Shape := ⟨e.id, e.fields.map (·.toAttribute)⟩

def key? (e : Entity) : Option Field := e.fields.find? (·.primaryKey)

def field (e : Entity) (name : String) : Except Error Field :=
  match e.fields.find? fun f => f.name == name with
  | some f => .ok f
  | none => .error (.schemaMismatch (.noField e.id.name name))

def ref (e : Entity) (f : Field) : FieldRef := ⟨e.id, f⟩

def refs (e : Entity) : List FieldRef := e.fields.map e.ref

def hasGeneratedKey (e : Entity) : Bool := e.key?.any (·.generated)

def relations (e : Entity) : List (Field × Shape) :=
  e.fields.filterMap fun f => f.references.map fun target => (f, target)

theorem key?_shape (e : Entity) : e.shape.key? = e.key?.map (·.toAttribute) := by
  simp only [Shape.key?, shape, key?, List.find?_map]
  rfl

end Entity

namespace FieldRef

/-- The field as messages name it. -/
def label (r : FieldRef) : String := r.owner.name ++ "." ++ r.field.name

/-- Two references mean the same field when they agree on entity and field name. -/
def same (r s : FieldRef) : Bool := r.owner == s.owner && r.field.name == s.field.name

end FieldRef

end EntityStore
