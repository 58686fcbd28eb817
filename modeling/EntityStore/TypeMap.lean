import EntityStore.FieldType
import EntityStore.Value.Basic
import EntityStore.Error

namespace EntityStore

structure Mapping where
  columnType : String
  /-- Storage form of a value that is not null. -/
  encode : Value → Value
  /-- Value for existing rows when a required column is introduced. -/
  default : Value

/-- The mapping of each logical type that has one. -/
def TypeMap := FieldType → Option Mapping

namespace TypeMap

def empty : TypeMap := fun _ => none

/-- Registers a mapping in place of an earlier one. -/
def register (m : TypeMap) (t : FieldType) (mapping : Mapping) : TypeMap :=
  fun u => if u = t then some mapping else m u

def install (m : TypeMap) (layer : List (FieldType × Mapping)) : TypeMap :=
  layer.foldl (fun m entry => m.register entry.1 entry.2) m

def get (m : TypeMap) (t : FieldType) : Except Error Mapping :=
  match m t with
  | some mapping => .ok mapping
  | none => .error (.unmappedType t)

def contains (m : TypeMap) (t : FieldType) : Bool := (m t).isSome

def columnType (m : TypeMap) (t : FieldType) : Except Error String := (m.get t).map (·.columnType)

def defaultValue (m : TypeMap) (t : FieldType) : Except Error Value := (m.get t).map (·.default)

/-- Storage form of a value. Null needs no mapping. -/
def encode (m : TypeMap) (t : FieldType) (v : Value) : Except Error Value :=
  if v.isNull then .ok .null else (m.get t).map fun mapping => mapping.encode v

/-- Types of the SQL standard; values are stored as they are. -/
def genericLayer : List (FieldType × Mapping) :=
  [(.text, ⟨"TEXT", id, .text ""⟩),
    (.integer, ⟨"BIGINT", id, .int 0⟩),
    (.real, ⟨"DOUBLE PRECISION", id, .float (.ofInt 0)⟩),
    (.boolean, ⟨"BOOLEAN", id, .bool false⟩),
    (.date, ⟨"TIMESTAMP", id, .time .epoch⟩),
    (.enum, ⟨"VARCHAR(255)", id, .text ""⟩),
    (.blob, ⟨"BLOB", id, .blob []⟩)]

def generic : TypeMap := empty.install genericLayer

/-- Truth values as 0 and 1. -/
def boolAsInt : Value → Value
  | .bool b => .int (if b then 1 else 0)
  | v => v

/-- Instants as milliseconds since the epoch, so that they sort as numbers. -/
def timeAsMillis : Value → Value
  | .time t => .int t.millis
  | v => v

def sqliteLayer : List (FieldType × Mapping) :=
  [(.text, ⟨"TEXT", id, .text ""⟩),
    (.integer, ⟨"INTEGER", id, .int 0⟩),
    (.real, ⟨"REAL", id, .float (.ofInt 0)⟩),
    (.boolean, ⟨"INTEGER", boolAsInt, .bool false⟩),
    (.date, ⟨"INTEGER", timeAsMillis, .time .epoch⟩),
    (.enum, ⟨"TEXT", id, .text ""⟩),
    (.blob, ⟨"BLOB", id, .blob []⟩)]

def sqlite : TypeMap := generic.install sqliteLayer

end TypeMap

end EntityStore
