import EntityStore.Migration.Plan
import EntityStore.Migration.Order
import EntityStore.Dialect

namespace EntityStore

/-- Choices that a planner leaves open. -/
structure PlannerOptions where
  /-- Whether columns can be dropped in place; none leaves it to the dialect. -/
  nativeDropColumn : Option Bool
  /-- Keeps tables that no entity is stored in. -/
  preserveUnknownTables : Bool
  deriving DecidableEq

def PlannerOptions.default : PlannerOptions := ⟨none, false⟩

structure Planner where
  dropsColumns : Bool
  types : TypeMap
  preserveUnknownTables : Bool

namespace Planner

def of (d : Dialect) (types : TypeMap) (options : PlannerOptions) : Planner :=
  ⟨options.nativeDropColumn.getD d.dropsColumns, types, options.preserveUnknownTables⟩

/-- Whether a column differs in a way that the database can see. -/
def changed (expected actual : Column) : Bool :=
  !Text.sameIgnoringCase expected.sqlType actual.sqlType || expected.nullable != actual.nullable ||
    expected.primaryKey != actual.primaryKey || expected.references != actual.references

/-- Whether an expected column can be added to rows that exist. -/
def addable (c : Column) : Bool := c.nullable && !c.primaryKey

def added (expected actual : Table) : List Column :=
  expected.columns.filter fun c => (actual.column? c.name).isNone

def dropped (expected actual : Table) : List Column :=
  actual.columns.filter fun c => (expected.column? c.name).isNone

/-- Whether a table cannot be changed in place. -/
def needsRebuild (p : Planner) (expected actual : Table) : Bool :=
  (expected.columns.any fun c => match actual.column? c.name with
    | none => !addable c
    | some current => changed c current) ||
  (dropped expected actual).any fun c =>
    !p.dropsColumns || c.primaryKey || c.references.isSome

/-- The value that fills a required column in existing rows. -/
def filler (p : Planner) (table : String) (c : Column) : Except Error Value :=
  match c.fieldType with
  | none => .error (.planning (.untypedColumn table c.name))
  | some t =>
    match p.types t with
    | none => .error (.planning (.unmappedColumn table c.name t))
    | some mapping => .ok mapping.default

/-- How a column of a rebuilt table is filled, if it is. -/
def copyRule (p : Planner) (actual : Table) (table : String) (c : Column) :
    Except Error (Option ColumnCopy) :=
  match actual.column? c.name with
  | some current =>
    if current.nullable && !c.nullable then do
      pure (some ⟨c.name, c.fieldType, .existingOr (← p.filler table c)⟩)
    else .ok (some ⟨c.name, c.fieldType, .existing⟩)
  | none =>
    if c.nullable || c.autoIncrement then .ok none
    else do pure (some ⟨c.name, c.fieldType, .constant (← p.filler table c)⟩)

def copyRules (p : Planner) (expected actual : Table) : Except Error (List ColumnCopy) :=
  (expected.columns.mapM (p.copyRule actual expected.name)).map fun rules => rules.filterMap id

def tableSteps (p : Planner) (expected actual : Table) : Except Error (List Step) :=
  if p.needsRebuild expected actual then
    (p.copyRules expected actual).map fun copies => [.rebuildTable expected copies]
  else
    .ok ((added expected actual).map (.addColumn expected.name) ++
      (dropped expected actual).map fun c => .dropColumn expected.name c.name)

def steps (p : Planner) (expected actual : Schema) (name : String) : Except Error (List Step) :=
  match expected.table? name with
  | none => .ok []
  | some t =>
    match actual.table? name with
    | none => .ok [.createTable t]
    | some current => p.tableSteps t current

/-- Tables that only the actual schema has, those that refer to others first. -/
def drops (p : Planner) (expected actual : Schema) (order : List String) : List Step :=
  if p.preserveUnknownTables then []
  else (order.reverse.filter fun name =>
    (expected.table? name).isNone && (actual.table? name).isSome).map .dropTable

def plan (p : Planner) (expected actual : Schema) : Except Error Plan := do
  let order := TableOrder.all expected actual
  let changes ← order.mapM (p.steps expected actual)
  pure (p.drops expected actual order ++ changes.flatten)

end Planner

end EntityStore
