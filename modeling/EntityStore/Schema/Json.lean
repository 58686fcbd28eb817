import EntityStore.Schema.Basic
import EntityStore.Value.Json

namespace EntityStore

namespace ForeignKey

def toJson (f : ForeignKey) : Json := .object [("table", .text f.table), ("column", .text f.column)]

def ofJson? (j : Json) : Option ForeignKey := do
  let [table, column] ← j.record? [⟨"table", false⟩, ⟨"column", false⟩] | none
  some ⟨← table.asText?, ← column.asText?⟩

end ForeignKey

namespace Column

def toJson (c : Column) : Json :=
  .object [("name", .text c.name), ("sql_type", .text c.sqlType),
    ("field_type", .ofOptional FieldType.toJson c.fieldType), ("nullable", .bool c.nullable),
    ("primary_key", .bool c.primaryKey), ("auto_increment", .bool c.autoIncrement),
    ("references", .ofOptional ForeignKey.toJson c.references)]

def ofJson? (j : Json) : Option Column := do
  let [name, sqlType, fieldType, nullable, primaryKey, autoIncrement, references] ←
    j.record? [⟨"name", false⟩, ⟨"sql_type", false⟩, ⟨"field_type", true⟩, ⟨"nullable", false⟩,
      ⟨"primary_key", false⟩, ⟨"auto_increment", false⟩, ⟨"references", true⟩] | none
  some ⟨← name.asText?, ← sqlType.asText?, ← fieldType.asOptional? FieldType.ofJson?,
    ← nullable.asBool?, ← primaryKey.asBool?, ← autoIncrement.asBool?,
    ← references.asOptional? ForeignKey.ofJson?⟩

end Column

namespace Table

def toJson (t : Table) : Json :=
  .object [("name", .text t.name), ("columns", .list (t.columns.map Column.toJson))]

def ofJson? (j : Json) : Option Table := do
  let [name, columns] ← j.record? [⟨"name", false⟩, ⟨"columns", false⟩] | none
  some ⟨← name.asText?, ← (← columns.asList?).mapM Column.ofJson?⟩

end Table

namespace Schema

def toJson (s : Schema) : Json :=
  .object [("tables", .object (s.tables.entries.map fun (name, t) => (name, t.toJson)))]

def ofJson? (j : Json) : Option Schema := do
  let [tables] ← j.record? [⟨"tables", false⟩] | none
  let .object members := tables | none
  let entries ← members.mapM fun (name, t) => do some (name, ← Table.ofJson? t)
  some ⟨.ofList entries⟩

end Schema

end EntityStore
