import EntityStore.FieldType
import EntityStore.Condition.Operators
import EntityStore.Time.Rfc3339

namespace EntityStore

inductive ArgumentFault where
  | negative (what : String) (count : Int)
  | tooWide (value : Int)
  /-- Milliseconds that no date is reached by. -/
  | noInstant (millis : Int)
  | badInstant (text : String) (fault : Time.TextFault)
  | emptySelect
  | emptyInsert
  | emptyUpdate
  /-- A row with another number of values than its entity has fields. -/
  | rowWidth (entity : String) (values fields : Nat)
  /-- A relation whose target is the table that the query starts from. -/
  | backReference (relation table : String)
  /-- A comparison with null other than equality. -/
  | nullOperand (op : BinaryOp) (field : String)
  | patternOperand (op : BinaryOp) (field : String)
  | notNullable (field : String)
  /-- An entity whose values end before its key. -/
  | missingKey (entity : String)
  | custom (message : String)
  deriving DecidableEq

inductive ModelFault where
  | noField (entity field : String)
  | notMember (field entity : String)
  | notRelation (field : String)
  | noKey (entity : String)
  | unresolvedRelation (relation : String)
  | keyNotStored (entity : String)
  | custom (message : String)
  deriving DecidableEq

inductive PlanFault where
  /-- A new required column whose logical type is not known. -/
  | untypedColumn (table column : String)
  /-- A new required column whose logical type has no default. -/
  | unmappedColumn (table column : String) (type : FieldType)
  | noColumns (table : String)
  /-- A default without the type that decides its storage. -/
  | untypedDefault (column : String)
  deriving DecidableEq

inductive Error where
  | invalidArgument (fault : ArgumentFault)
  | schemaMismatch (fault : ModelFault)
  | unsupportedKind (kind : ConditionKind)
  | unmappedType (type : FieldType)
  | typeMismatch (expected found : String)
  | planning (fault : PlanFault)
  deriving DecidableEq

def ArgumentFault.message : ArgumentFault → String
  | .negative what count => what ++ " must not be negative, got " ++ Text.integer count
  | .tooWide value => Text.integer value ++ " overflows i32"
  | .noInstant millis => Text.integer millis ++ " is not a valid timestamp"
  | .badInstant text fault => "invalid timestamp '" ++ text ++ "': " ++ fault.message
  | .emptySelect => "select needs at least one field"
  | .emptyInsert => "insert needs at least one row"
  | .emptyUpdate => "update needs at least one assignment"
  | .rowWidth entity values fields =>
    entity ++ " row has " ++ Nat.repr values ++ " values, expected " ++ Nat.repr fields
  | .backReference relation table =>
    "relation " ++ relation ++ " points back at " ++ table ++
      "; self-referencing conditions are not supported"
  | .nullOperand op field => op.name ++ " on " ++ field ++ " needs a non-null operand"
  | .patternOperand op field => op.name ++ " on " ++ field ++ " needs a text operand"
  | .notNullable field => "field " ++ field ++ " is not nullable"
  | .missingKey entity => entity ++ " values are missing the key"
  | .custom message => message

def ModelFault.message : ModelFault → String
  | .noField entity field => "entity " ++ entity ++ " has no field '" ++ field ++ "'"
  | .notMember field entity => "field " ++ field ++ " does not belong to entity " ++ entity
  | .notRelation field => "field " ++ field ++ " is not a relation"
  | .noKey entity => "entity " ++ entity ++ " has no key field"
  | .unresolvedRelation relation => "no join resolved for relation " ++ relation
  | .keyNotStored entity => "entity " ++ entity ++ " has a generated key but does not store it"
  | .custom message => message

/-- The wording of an unmapped type, also inside the errors of planning. -/
def unmappedMessage (type : FieldType) : String := "no type mapping registered for " ++ type.name

def PlanFault.message : PlanFault → String
  | .untypedColumn table column =>
    table ++ "." ++ column ++ " needs a default value but its field type is unknown"
  | .unmappedColumn table column type =>
    "no default value for " ++ table ++ "." ++ column ++ ": " ++ unmappedMessage type
  | .noColumns table => "table " ++ table ++ " has no columns"
  | .untypedDefault column => "column " ++ column ++ " needs a default but has no field type"

def Error.message : Error → String
  | .invalidArgument fault => "invalid argument: " ++ fault.message
  | .schemaMismatch fault => "schema mismatch: " ++ fault.message
  | .unsupportedKind kind => "unsupported condition kind: " ++ kind.name
  | .unmappedType type => unmappedMessage type
  | .typeMismatch expected found => "cannot convert " ++ found ++ " value to " ++ expected
  | .planning fault => "migration planning failed: " ++ fault.message

end EntityStore
