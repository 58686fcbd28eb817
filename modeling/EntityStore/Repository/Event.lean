import EntityStore.FieldType
import EntityStore.Text.Decimal

namespace EntityStore

inductive Level where
  | trace
  | debug
  | info
  | warn
  deriving DecidableEq

def Level.name : Level → String
  | .trace => "TRACE"
  | .debug => "DEBUG"
  | .info => "INFO"
  | .warn => "WARN"

/-- Statements that are prepared once and run later. -/
inductive Purpose where
  | query
  | projection
  | update
  | delete
  deriving DecidableEq

def Purpose.name : Purpose → String
  | .query => "query"
  | .projection => "projection"
  | .update => "update"
  | .delete => "delete"

inductive Event where
  /-- A type map learns how a type is declared. -/
  | registered (type : FieldType) (columnType : String)
  | compiled (dialect sql : String)
  | prepared (purpose : Purpose) (entity statement : String)
  | inserted (entity : String) (rows : Nat) (keyed : Bool)
  | planned (table : String) (destructive : Bool)
  | creating (tables : Nat) (dialect : String)
  | upToDate (dialect : String)
  | upgrading (steps : Nat) (dialect : String)
  | step (table : String) (destructive : Bool)
  | migrating (statement : String)
  /-- A statement on its way; statements that take no parameters leave out their number. -/
  | executing (sql : String) (params : Option Nat)
  | introspected (tables : Nat)
  | committed (steps : Nat)
  | rolledBack (error : String)
  deriving DecidableEq

namespace Event

def level : Event → Level
  | .registered .. | .compiled .. => .trace
  | .prepared .. | .inserted .. | .planned .. | .migrating _ | .executing .. | .introspected _ =>
    .debug
  | .creating .. | .upToDate _ | .upgrading .. | .committed _ => .info
  | .step _ destructive => if destructive then .warn else .info
  | .rolledBack _ => .warn

def message : Event → String
  | .registered .. => "Registering type mapping"
  | .compiled .. => "Compiled statement"
  | .prepared purpose .. => "Prepared " ++ purpose.name
  | .inserted _ _ keyed =>
    if keyed then "Inserted entities with generated keys" else "Inserted entities"
  | .planned .. => "Planned"
  | .creating .. => "Creating schema"
  | .upToDate _ => "Schema is up to date"
  | .upgrading .. => "Upgrading schema"
  | .step _ destructive => if destructive then "Destructive migration step:" else "Migration step:"
  | .migrating _ => "Executing migration statement"
  | .executing .. => "Executing SQL"
  | .introspected _ => "Introspected SQLite schema"
  | .committed _ => "Schema upgrade committed"
  | .rolledBack _ => "Schema upgrade rolled back"

def fields : Event → List (String × String)
  | .registered type columnType => [("field_type", type.name), ("column_type", columnType)]
  | .compiled dialect sql => [("dialect", dialect), ("sql", sql)]
  | .prepared _ entity statement => [("entity", entity), ("sql", statement)]
  | .inserted entity rows _ => [("entity", entity), ("rows", Nat.repr rows)]
  | .planned table destructive =>
    [("table", table), ("destructive", if destructive then "true" else "false")]
  | .creating tables dialect => [("tables", Nat.repr tables), ("dialect", dialect)]
  | .upToDate dialect => [("dialect", dialect)]
  | .upgrading steps dialect => [("steps", Nat.repr steps), ("dialect", dialect)]
  | .step table _ => [("table", table)]
  | .migrating statement => [("sql", statement)]
  | .executing sql params =>
    ("sql", sql) :: (params.map fun n => ("params", Nat.repr n)).toList
  | .introspected tables => [("tables", Nat.repr tables)]
  | .committed steps => [("steps", Nat.repr steps)]
  | .rolledBack error => [("error", error)]

end Event

end EntityStore
