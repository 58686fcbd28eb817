import EntityStore.Repository.Listing
import EntityStore.Text.Escaped

namespace EntityStore

namespace Inspect

def listed (parts : List String) : String := "[" ++ String.intercalate ", " parts ++ "]"

/-- A name with something in parentheses. -/
def around (name inner : String) : String := name ++ "(" ++ inner ++ ")"

/-- A name with named parts; an open one has parts that are not shown. -/
def parts (name : String) (fields : List (String × String)) (isOpen : Bool) : String :=
  name ++ " \x7b " ++ String.intercalate ", "
    (fields.map (fun (field, text) => field ++ ": " ++ text) ++ if isOpen then [".."] else []) ++
    " \x7d"

def truth (b : Bool) : String := if b then "true" else "false"

def choice : Option Bool → String
  | none => "None"
  | some b => around "Some" (truth b)

end Inspect

open Inspect
open Text.Escaped (quoted)

def Field.inspect (f : Field) : String := around "Field" (quoted f.name)

/-- A field that refers to another entity, by its name. -/
def Field.inspectRelation (f : Field) : String := around "RelationField" (quoted f.name)

/-- A value with its kind. -/
def Value.inspect : Value → String
  | .null => "Null"
  | .bool b => around "Bool" (truth b)
  | .int n => around "Int" (Text.integer n)
  | .float x => around "Float" (Shortest.distinct x)
  | .text s => around "Text" (quoted s)
  | .blob bytes => around "Blob" (listed (bytes.map fun b => Nat.repr b.toNat))
  | .time t => around "Timestamp" (Time.text "Z" t)

namespace Condition

/-- A node about a field. -/
def inspectNode (kind part : String) (f : FieldRef) (rest : List (String × String)) : String :=
  Inspect.parts kind ((part, f.label) :: rest) false

mutual

def inspect : Condition → String
  | .unary f op => inspectNode "Unary" "field" f [("op", op.name)]
  | .binary f op v => inspectNode "Binary" "field" f [("op", op.name), ("operand", v.inspect)]
  | .ternary f op v w =>
    inspectNode "Ternary" "field" f [("op", op.name), ("first", v.inspect), ("second", w.inspect)]
  | .collection f op vs =>
    inspectNode "Collection" "field" f
      [("op", op.name), ("operands", listed (vs.map Value.inspect))]
  | .relational f c => inspectNode "Relational" "relation" f [("condition", inspect c)]
  | .composite op cs =>
    Inspect.parts "Composite" [("op", op.name), ("children", listed (inspectAll cs))] false

def inspectAll : List Condition → List String
  | [] => []
  | c :: cs => inspect c :: inspectAll cs

end

def inspectPredicate (c : Condition) : String := around "Predicate" c.inspect

end Condition

def Param.inspect (p : Param) : String :=
  parts "Param" [("field_type", p.type.tag), ("value", p.value.inspect)] false

def Statement.inspect (s : Statement) : String :=
  parts "CompiledStatement" [("sql", quoted s.sql), ("params", listed (s.params.map Param.inspect))]
    false

/-- A prepared query with the statements that answer with many rows. -/
def PreparedQuery.inspect (p : PreparedQuery) : String :=
  parts "Query" [("select", p.listing.inspect), ("count", p.counting.inspect)] true

def Projection.inspect (p : Projection) : String :=
  parts "MapQuery"
    [("fields", listed (p.fields.map FieldRef.label)), ("statement", p.statement.inspect)] false

def PlannerOptions.inspect (o : PlannerOptions) : String :=
  parts "PlannerOptions"
    [("native_drop_column", choice o.nativeDropColumn),
      ("preserve_unknown_tables", truth o.preserveUnknownTables)] false

def Repository.inspect (r : Repository) : String :=
  parts "Repository"
    [("dialect", quoted r.dialect.name), ("planner_options", r.options.inspect)] true

def Entity.inspectCollection (e : Entity) : String :=
  parts "EntitySet" [("entity", quoted e.id.name)] true

end EntityStore
