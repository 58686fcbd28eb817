namespace EntityStore

inductive FieldType where
  | text
  | integer
  | real
  | boolean
  | date
  /-- An enumeration, stored by the name of the variant. -/
  | enum
  | blob
  deriving DecidableEq, Inhabited

/-- The type as messages and statements name it. -/
def FieldType.name : FieldType → String
  | .text => "text"
  | .integer => "integer"
  | .real => "real"
  | .boolean => "boolean"
  | .date => "date"
  | .enum => "enum"
  | .blob => "blob"

/-- The type as saved schemas name it. -/
def FieldType.tag : FieldType → String
  | .text => "Text"
  | .integer => "Integer"
  | .real => "Real"
  | .boolean => "Boolean"
  | .date => "Date"
  | .enum => "Enum"
  | .blob => "Blob"

def FieldType.all : List FieldType := [.text, .integer, .real, .boolean, .date, .enum, .blob]

/-- The type that a saved schema names. -/
def FieldType.ofTag? (s : String) : Option FieldType := FieldType.all.find? fun t => t.tag == s

theorem FieldType.ofTag?_tag (t : FieldType) : FieldType.ofTag? t.tag = some t := by
  cases t <;> decide

end EntityStore
