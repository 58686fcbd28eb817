import EntityStore.Migration.Plan
import EntityStore.Schema.Json

namespace EntityStore

namespace ColumnSource

def toJson : ColumnSource → Json
  | .existing => .text "Existing"
  | .existingOr v => .tagged "ExistingOrDefault" v.toJson
  | .constant v => .tagged "Default" v.toJson

def ofJson? (j : Json) : Option ColumnSource :=
  match j.alternative? with
  | some ("Existing", none) => some .existing
  | some ("Existing", some .null) => some .existing
  | some ("ExistingOrDefault", some v) => (Value.ofJson? v).map .existingOr
  | some ("Default", some v) => (Value.ofJson? v).map .constant
  | _ => none

end ColumnSource

namespace ColumnCopy

def toJson (c : ColumnCopy) : Json :=
  .object [("column", .text c.column), ("field_type", .ofOptional FieldType.toJson c.fieldType),
    ("source", c.source.toJson)]

def ofJson? (j : Json) : Option ColumnCopy := do
  let [column, fieldType, source] ←
    j.record? [⟨"column", false⟩, ⟨"field_type", true⟩, ⟨"source", false⟩] | none
  some ⟨← column.asText?, ← fieldType.asOptional? FieldType.ofJson?, ← ColumnSource.ofJson? source⟩

end ColumnCopy

namespace Step

def toJson : Step → Json
  | .createTable t => .tagged "CreateTable" t.toJson
  | .dropTable name => .tagged "DropTable" (.text name)
  | .addColumn t c => .tagged "AddColumn" (.object [("table", .text t), ("column", c.toJson)])
  | .dropColumn t c => .tagged "DropColumn" (.object [("table", .text t), ("column", .text c)])
  | .rebuildTable t copies =>
    .tagged "RebuildTable"
      (.object [("table", t.toJson), ("copy", .list (copies.map ColumnCopy.toJson))])

/-- The two fields of a step about a table. -/
def pair? (second : String) (j : Json) : Option (Json × Json) := do
  let [a, b] ← j.record? [⟨"table", false⟩, ⟨second, false⟩] | none
  some (a, b)

def ofJson? (j : Json) : Option Step := do
  match j.alternative? with
  | some ("CreateTable", some t) => some (.createTable (← Table.ofJson? t))
  | some ("DropTable", some t) => some (.dropTable (← t.asText?))
  | some ("AddColumn", some body) =>
    let (t, c) ← pair? "column" body
    some (.addColumn (← t.asText?) (← Column.ofJson? c))
  | some ("DropColumn", some body) =>
    let (t, c) ← pair? "column" body
    some (.dropColumn (← t.asText?) (← c.asText?))
  | some ("RebuildTable", some body) =>
    let (t, copies) ← pair? "copy" body
    some (.rebuildTable (← Table.ofJson? t) (← (← copies.asList?).mapM ColumnCopy.ofJson?))
  | _ => none

end Step

namespace Plan

def toJson (p : Plan) : Json := .object [("steps", .list (p.map Step.toJson))]

def ofJson? (j : Json) : Option Plan := do
  let [steps] ← j.record? [⟨"steps", false⟩] | none
  (← steps.asList?).mapM Step.ofJson?

end Plan

end EntityStore
