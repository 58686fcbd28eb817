import EntityStore.Migration.Json
import EntityStore.Proofs.Json.Records
import EntityStore.Proofs.Time.ReadBack

namespace EntityStore

open Json (Saves)

theorem FieldType.saves (t : FieldType) : Saves FieldType.toJson FieldType.ofJson? t := by
  refine ⟨.text t.tag, ?_⟩
  exact FieldType.ofTag?_tag t

theorem FieldType.saves_optional (o : Option FieldType) :
    Saves (Json.ofOptional FieldType.toJson) (Json.asOptional? FieldType.ofJson?) o := by
  apply Saves.optional
  · intro t ht
    exact t.saves
  · intro t
    exact Json.noConfusion

namespace Value

/-- Integers of 64 bits, and instants that are known to the calendar. Leap seconds off the end of a
minute, which programs can make by setting nanoseconds, are left out. -/
def Proper : Value → Prop
  | .int n => Int64.minValue.toInt ≤ n ∧ n ≤ Int64.maxValue.toInt
  | .time t => t.Known
  | _ => True

/-- Values that are saved without rounding. -/
def Exact (v : Value) : Prop := v.Proper ∧ ∀ x, v ≠ .float x

theorem saves {v : Value} (exact : v.Exact) : Saves toJson ofJson? v := by
  obtain ⟨proper, noFloat⟩ := exact
  cases v with
  | null => exact ⟨.text _, rfl⟩
  | bool b => exact ⟨Json.plain_tagged (.bool b), rfl⟩
  | int n =>
    refine ⟨Json.plain_tagged (.int n), ?_⟩
    simp [ofJson?, toJson, Json.tagged, Json.alternative?, Json.asInt?_ofInt proper.1 proper.2]
  | float x => exact absurd rfl (noFloat x)
  | text s => exact ⟨Json.plain_tagged (.text s), rfl⟩
  | blob bytes =>
    have saved : Saves (fun bytes : List UInt8 => .list (bytes.map fun b => .ofInt b.toNat))
        (fun j => j.asList?.bind fun items => items.mapM Json.asByte?) bytes :=
      Saves.list bytes fun b _ => ⟨.int b.toNat, Json.asByte?_ofInt b⟩
    refine ⟨Json.plain_tagged saved.plain, ?_⟩
    have read := saved.undone
    simp [ofJson?, toJson, Json.tagged, Json.alternative?, read]
  | time t =>
    refine ⟨Json.plain_tagged (.text _), ?_⟩
    have read := Instant.Known.readLenient_text proper
    simp [ofJson?, toJson, Json.tagged, Json.alternative?, Json.asText?, read, Except.toOption]

end Value

namespace ForeignKey

theorem saves (f : ForeignKey) : Saves toJson ofJson? f := by
  have written : f.toJson = .object (Json.members [⟨"table", false⟩, ⟨"column", false⟩]
      [.text f.table, .text f.column]) := rfl
  refine Saves.record written (by decide) rfl (fun _ => rfl) ?_ rfl
  simp [Json.Plain.text]

end ForeignKey

namespace Column

theorem saves (c : Column) : Saves toJson ofJson? c := by
  have written : c.toJson = .object (Json.members [⟨"name", false⟩, ⟨"sql_type", false⟩,
      ⟨"field_type", true⟩, ⟨"nullable", false⟩, ⟨"primary_key", false⟩, ⟨"auto_increment", false⟩,
      ⟨"references", true⟩] [.text c.name, .text c.sqlType,
      .ofOptional FieldType.toJson c.fieldType, .bool c.nullable, .bool c.primaryKey,
      .bool c.autoIncrement, .ofOptional ForeignKey.toJson c.references]) := rfl
  have fieldType := FieldType.saves_optional c.fieldType
  have references : Saves (Json.ofOptional ForeignKey.toJson) (Json.asOptional? ForeignKey.ofJson?)
      c.references := Saves.optional (fun f _ => f.saves) fun f => Json.noConfusion
  refine Saves.record written (by decide) rfl (fun _ => rfl) ?_ ?_
  · simp [Json.Plain.text, Json.Plain.bool, fieldType.plain, references.plain]
  · simp [Json.asText?, Json.asBool?, fieldType.undone, references.undone]

end Column

namespace Table

theorem saves (t : Table) : Saves toJson ofJson? t := by
  have written : t.toJson = .object (Json.members [⟨"name", false⟩, ⟨"columns", false⟩]
      [.text t.name, .list (t.columns.map Column.toJson)]) := rfl
  have columns := Saves.list t.columns fun c _ => c.saves
  have read : (t.columns.map Column.toJson).mapM Column.ofJson? = some t.columns :=
    columns.undone
  refine Saves.record written (by decide) rfl (fun _ => rfl) ?_ ?_
  · simp [Json.Plain.text, columns.plain]
  · simp [Json.asText?, Json.asList?, read]

end Table

namespace Schema

theorem saves (s : Schema) : Saves toJson ofJson? s := by
  have written : s.toJson = .object (Json.members [⟨"tables", false⟩]
      [.object (s.tables.entries.map fun e => (e.1, e.2.toJson))]) := rfl
  have read : ((s.tables.entries.map fun e => (e.1, e.2.toJson)).mapM fun m => do
      some (m.1, ← Table.ofJson? m.2)) = some s.tables.entries := by
    apply Json.mapM_map
    intro e he
    rw [e.2.saves.undone]
    rfl
  refine Saves.record written (by decide) rfl (fun _ => rfl) ?_ ?_
  · intro j hj
    rw [List.mem_singleton.mp hj]
    apply Json.Plain.object
    intro m hm
    obtain ⟨e, he, rfl⟩ := List.mem_map.mp hm
    exact e.2.saves.plain
  · refine Option.bind_eq_some_iff.mpr ⟨s.tables.entries, read, ?_⟩
    rw [SortedMap.ofList_entries]

end Schema

namespace ColumnSource

/-- The default that a source holds. -/
def default? : ColumnSource → Option Value
  | .existing => none
  | .existingOr v => some v
  | .constant v => some v

theorem saves {c : ColumnSource} (exact : ∀ v ∈ c.default?, v.Exact) :
    Saves toJson ofJson? c := by
  cases c with
  | existing => exact ⟨.text _, rfl⟩
  | existingOr v =>
    have saved := Value.saves (exact v rfl)
    refine ⟨Json.plain_tagged saved.plain, ?_⟩
    simp [ofJson?, toJson, Json.tagged, Json.alternative?, saved.undone]
  | constant v =>
    have saved := Value.saves (exact v rfl)
    refine ⟨Json.plain_tagged saved.plain, ?_⟩
    simp [ofJson?, toJson, Json.tagged, Json.alternative?, saved.undone]

end ColumnSource

namespace ColumnCopy

theorem saves {c : ColumnCopy} (exact : ∀ v ∈ c.source.default?, v.Exact) :
    Saves toJson ofJson? c := by
  have written : c.toJson = .object (Json.members
      [⟨"column", false⟩, ⟨"field_type", true⟩, ⟨"source", false⟩] [.text c.column,
        .ofOptional FieldType.toJson c.fieldType, c.source.toJson]) := rfl
  have fieldType := FieldType.saves_optional c.fieldType
  have source := ColumnSource.saves exact
  refine Saves.record written (by decide) rfl (fun _ => rfl) ?_ ?_
  · simp [Json.Plain.text, fieldType.plain, source.plain]
  · simp [Json.asText?, fieldType.undone, source.undone]

end ColumnCopy

namespace Step

/-- The defaults that a step fills columns with. -/
def defaults : Step → List Value
  | .rebuildTable _ copies => copies.filterMap fun c => c.source.default?
  | _ => []

/-- The two fields of a step about a table. -/
def pair (second : String) (a b : Json) : Json :=
  .object (Json.members [⟨"table", false⟩, ⟨second, false⟩] [a, b])

theorem plain_pair {second : String} {a b : Json} (first : a.Plain) (last : b.Plain) :
    (pair second a b).Plain := by
  apply Json.plain_members
  simp [first, last]

theorem pair?_pair {second : String} (other : "table" ≠ second) (a b : Json) :
    pair? second (pair second a b) = some (a, b) := by
  rw [pair?, pair, Json.record?_members (by simpa using other) rfl]
  rfl

theorem saves {s : Step} (exact : ∀ v ∈ s.defaults, v.Exact) : Saves toJson ofJson? s := by
  cases s with
  | createTable t =>
    refine ⟨Json.plain_tagged t.saves.plain, ?_⟩
    simp [ofJson?, toJson, Json.tagged, Json.alternative?, t.saves.undone]
  | dropTable name => exact ⟨Json.plain_tagged (.text name), rfl⟩
  | addColumn t c =>
    have written : (addColumn t c).toJson =
        .tagged "AddColumn" (pair "column" (.text t) c.toJson) := rfl
    have fields := pair?_pair (show "table" ≠ "column" by decide) (.text t) c.toJson
    refine ⟨?_, ?_⟩
    · rw [written]
      exact Json.plain_tagged (plain_pair (.text t) c.saves.plain)
    · rw [written]
      simp [ofJson?, Json.tagged, Json.alternative?, fields, Json.asText?, c.saves.undone]
  | dropColumn t c =>
    have written : (dropColumn t c).toJson =
        .tagged "DropColumn" (pair "column" (.text t) (.text c)) := rfl
    have fields := pair?_pair (show "table" ≠ "column" by decide) (.text t) (.text c)
    refine ⟨?_, ?_⟩
    · rw [written]
      exact Json.plain_tagged (plain_pair (.text t) (.text c))
    · rw [written]
      simp [ofJson?, Json.tagged, Json.alternative?, fields, Json.asText?]
  | rebuildTable t copies =>
    have copiesSaved := Saves.list copies fun c hc => ColumnCopy.saves fun v hv =>
      exact v (List.mem_filterMap.mpr ⟨c, hc, hv⟩)
    have written : (rebuildTable t copies).toJson = .tagged "RebuildTable"
        (pair "copy" t.toJson (.list (copies.map ColumnCopy.toJson))) := rfl
    have fields := pair?_pair (show "table" ≠ "copy" by decide) t.toJson
      (.list (copies.map ColumnCopy.toJson))
    have read : (copies.map ColumnCopy.toJson).mapM ColumnCopy.ofJson? = some copies :=
      copiesSaved.undone
    refine ⟨?_, ?_⟩
    · rw [written]
      exact Json.plain_tagged (plain_pair t.saves.plain copiesSaved.plain)
    · rw [written]
      simp [ofJson?, Json.tagged, Json.alternative?, fields, Json.asList?, t.saves.undone, read]

end Step

namespace Plan

/-- The defaults that a plan fills columns with. -/
def defaults (p : Plan) : List Value := p.flatMap Step.defaults

theorem saves {p : Plan} (exact : ∀ v ∈ p.defaults, v.Exact) : Saves toJson ofJson? p := by
  have written : p.toJson = .object (Json.members [⟨"steps", false⟩]
      [.list (p.map Step.toJson)]) := rfl
  have steps := Saves.list p fun s hs => Step.saves fun v hv =>
    exact v (List.mem_flatMap.mpr ⟨s, hs, hv⟩)
  have read : (p.map Step.toJson).mapM Step.ofJson? = some p := steps.undone
  refine Saves.record written (by decide) rfl (fun _ => rfl) ?_ ?_
  · simp [steps.plain]
  · simp [Json.asList?, read]

end Plan

end EntityStore
