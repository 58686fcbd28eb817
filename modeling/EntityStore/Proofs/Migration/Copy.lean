import EntityStore.Proofs.Migration.Catalog
import EntityStore.Proofs.Migration.Steps
import EntityStore.Proofs.Query.Compile
import EntityStore.Proofs.Sql.Meaning
import EntityStore.Proofs.Sql.Transfer

namespace EntityStore

open Sql (Command Fill Row Scalar Transfer transferOf)

namespace Sql

def Scalar.value (row : Row) : Scalar Param → Value
  | .column c => row c
  | .coalesce c p => if (row c).isNull then p.value else row c
  | .operand p => p.value

/-- A transfer that can be carried out: a value for each column, and no column twice. -/
structure Transfer.Proper (t : Transfer Param) : Prop where
  even : t.selected.length = t.columns.length
  distinct : t.columns.Nodup

/-- What is written to a column for a row, where the column is filled. -/
def Transfer.written (t : Transfer Param) (row : Row) (column : String) : Option Value :=
  (t.columns.zip (t.selected.map (Scalar.value row))).lookup column

end Sql

/-- A row that a table may hold: no null in a required column. -/
def Table.Admits (t : Table) (row : Row) : Prop :=
  ∀ c ∈ t.columns, c.nullable = false → (row c.name).isNull = false

namespace ColumnCopy

variable {row : Row}

/-- What a rule asks for. -/
def value (row : Row) (r : ColumnCopy) : Value :=
  match r.source with
  | .existing => row r.column
  | .existingOr v => if (row r.column).isNull then v else row r.column
  | .constant v => v

def written (copies : List ColumnCopy) (row : Row) (column : String) : Option Value :=
  (copies.map fun r => (r.column, r.value row)).lookup column

theorem fill_value (row : Row) {r : ColumnCopy} {f : String × Fill Param} (h : r.fill = .ok f) :
    (f.1, (f.2.scalar f.1).value row) = (r.column, r.value row) := by
  obtain ⟨column, type, source⟩ := r
  cases source with
  | existing => cases h; rfl
  | existingOr v =>
    cases type with
    | none => cases h
    | some type => cases h; rfl
  | constant v =>
    cases type with
    | none => cases h
    | some type => cases h; rfl

theorem fills_values {copies : List ColumnCopy} {fills : List (String × Fill Param)}
    (filled : copies.mapM fill = .ok fills) (row : Row) :
    fills.map (fun f => (f.1, (f.2.scalar f.1).value row)) =
      copies.map fun r => (r.column, r.value row) :=
  Except.mapM_map_eq (fun _ _ => fill_value row) filled

theorem fills_columns {copies : List ColumnCopy} {fills : List (String × Fill Param)}
    (filled : copies.mapM fill = .ok fills) : fills.map (·.1) = copies.map (·.column) :=
  Except.mapM_map_eq (fun _ _ h => congrArg Prod.fst (fill_value (fun _ => .null) h)) filled

/-- The statement that fills columns writes what their rules ask for. -/
theorem written_transferOf {copies : List ColumnCopy} {fills : List (String × Fill Param)}
    (filled : copies.mapM fill = .ok fills) (target source : String) :
    (transferOf target fills source).written row = written copies row := by
  funext column
  rw [written, ← fills_values filled, Transfer.written, transferOf, List.map_map, List.zip_map']
  rfl

theorem proper_transferOf {copies : List ColumnCopy} {fills : List (String × Fill Param)}
    (filled : copies.mapM fill = .ok fills) (distinct : (copies.map (·.column)).Nodup)
    (target source : String) : (transferOf target fills source).Proper := by
  refine ⟨by simp [transferOf], ?_⟩
  rw [transferOf, fills_columns filled]
  exact distinct

end ColumnCopy

theorem Step.rebuild_of_fills {d : Dialect} {t : Table} {copies : List ColumnCopy}
    {fills : List (String × Fill Param)} (columns : t.columns ≠ [])
    (filled : copies.mapM ColumnCopy.fill = .ok fills) (filling : fills ≠ []) :
    Step.rebuild d t copies =
      .ok [.createTable (t.definition d (d.scratchName t.name)),
        .copyRows (d.scratchName t.name) fills t.name, .dropTable t.name,
        .renameTable (d.scratchName t.name) t.name] := by
  have create : t.create d (d.scratchName t.name) =
      .ok (.createTable (t.definition d (d.scratchName t.name))) :=
    if_neg (by simpa using columns)
  have copy : Step.copyCommand d t fills = [.copyRows (d.scratchName t.name) fills t.name] :=
    if_neg (by simpa using filling)
  rw [Step.rebuild_eq, create, filled]
  simp only [bind, Except.bind, copy, List.singleton_append]

namespace Planner

open ColumnCopy (written)

variable {p : Planner} {t current : Table} {c : Column} {row : Row}

theorem Rule.column_eq {r : ColumnCopy} (rule : Rule p current c (some r)) : r.column = c.name := by
  cases rule <;> rfl

theorem Rule.fill_ok {r : ColumnCopy} (rule : Rule p current c (some r)) :
    ∃ f, r.fill = .ok f := by
  cases rule <;> exact ⟨_, rfl⟩

theorem columns_sublist {columns : List Column} {rules : List (Option ColumnCopy)}
    (each : List.Forall₂ (Rule p current) columns rules) :
    ((rules.filterMap id).map (·.column)).Sublist (columns.map (·.name)) := by
  induction each with
  | nil => exact .slnil
  | @cons c rule columns rules made _ ih =>
    cases rule with
    | none => exact .cons _ ih
    | some r =>
      rw [List.filterMap_cons_some (f := id) rfl, List.map_cons, made.column_eq]
      exact .cons_cons _ ih

theorem written_cons {rule : Option ColumnCopy} (made : Rule p current c rule)
    (rules : List (Option ColumnCopy)) (row : Row) (name : String) :
    written ((rule :: rules).filterMap id) row name =
      (if name = c.name then rule.map (ColumnCopy.value row) else none).or
        (written (rules.filterMap id) row name) := by
  cases rule with
  | none => simp
  | some r =>
    rw [List.filterMap_cons_some (f := id) rfl, written, List.map_cons, List.lookup_cons,
      made.column_eq]
    by_cases same : name = c.name
    · simp [same]
    · have away : (name == c.name) = false := beq_eq_false_iff_ne.mpr same
      rw [away, if_neg same]
      rfl

theorem written_none {columns : List Column} {rules : List (Option ColumnCopy)}
    (each : List.Forall₂ (Rule p current) columns rules) {name : String}
    (other : name ∉ columns.map (·.name)) : written (rules.filterMap id) row name = none := by
  induction each with
  | nil => rfl
  | cons made _ ih =>
    rw [List.map_cons, List.mem_cons, not_or] at other
    rw [written_cons made, if_neg other.1, ih other.2]
    rfl

/-- Each column is filled by its own rule. -/
theorem written_rules (row : Row) {columns : List Column} {rules : List (Option ColumnCopy)}
    (each : List.Forall₂ (Rule p current) columns rules)
    (distinct : (columns.map (·.name)).Nodup) (hc : c ∈ columns) :
    ∃ rule, Rule p current c rule ∧
      written (rules.filterMap id) row c.name = rule.map (ColumnCopy.value row) := by
  induction each with
  | nil => cases hc
  | @cons first rule columns rules made others ih =>
    rw [List.map_cons, List.nodup_cons] at distinct
    rw [written_cons made]
    rcases List.mem_cons.mp hc with rfl | later
    · refine ⟨rule, made, ?_⟩
      rw [if_pos rfl, written_none others distinct.1, Option.or_none]
    · obtain ⟨own, made', value⟩ := ih distinct.2 later
      have other : c.name ≠ first.name := by
        intro same
        exact distinct.1 (same ▸ List.mem_map_of_mem later)
      exact ⟨own, made', by rw [if_neg other, Option.none_or, value]⟩

/-- What a column of the new table holds of an old row: its value, or its default in place of a null
that is not allowed any more. A new column holds its default if it needs a value. -/
def carried (p : Planner) (current : Table) (row : Row) (c : Column) : Option Value :=
  match current.column? c.name with
  | some old =>
    if (row c.name).isNull && (old.nullable && !c.nullable) then p.defaultOf? c
    else some (row c.name)
  | none => if c.nullable || c.autoIncrement then none else p.defaultOf? c

/-- Whether rows must have a value in a column of the new table; the database generates one for a
new column that counts on. -/
def needsValue (current : Table) (c : Column) : Bool :=
  !c.nullable && ((current.column? c.name).isSome || !c.autoIncrement)

theorem Rule.value_eq {rule : Option ColumnCopy} (made : Rule p current c rule) :
    rule.map (ColumnCopy.value row) = p.carried current row c := by
  cases made with
  | kept old found stays => simp [carried, found, stays, ColumnCopy.value]
  | replaced old type v found free needed default =>
    cases null : (row c.name).isNull <;>
      simp [carried, found, free, needed, default, ColumnCopy.value, null]
  | filled type v absent required default =>
    simp [carried, absent, required, default, ColumnCopy.value]
  | unset absent free => simp [carried, absent, free]

/-- No default is null. -/
def DefaultsPresent (types : TypeMap) : Prop :=
  ∀ type mapping, types type = some mapping → mapping.default.isNull = false

theorem defaultsPresent_generic : DefaultsPresent .generic := by
  intro type mapping mapped
  cases type <;> cases mapped <;> rfl

theorem defaultOf?_present (defaults : DefaultsPresent p.types) {v : Value}
    (h : p.defaultOf? c = some v) : v.isNull = false := by
  obtain ⟨type, -, h⟩ := Option.bind_eq_some_iff.mp h
  obtain ⟨mapping, mapped, rfl⟩ := Option.map_eq_some_iff.mp h
  exact defaults type mapping mapped

theorem Rule.value_present (defaults : DefaultsPresent p.types) (admitted : current.Admits row)
    {rule : Option ColumnCopy} (made : Rule p current c rule) (needed : needsValue current c = true) :
    ∃ v, rule.map (ColumnCopy.value row) = some v ∧ v.isNull = false := by
  rw [needsValue, Bool.and_eq_true, Bool.not_eq_true'] at needed
  cases made with
  | kept old found stays =>
    obtain ⟨there, name⟩ := Table.column?_eq_some found
    have required : old.nullable = false := by simpa [needed.1] using stays
    exact ⟨row c.name, rfl, name ▸ admitted old there required⟩
  | replaced old type v found free required default =>
    refine ⟨_, rfl, ?_⟩
    cases null : (row c.name).isNull with
    | true => simpa [ColumnCopy.value, null] using defaultOf?_present defaults default
    | false => simp [ColumnCopy.value, null]
  | filled type v absent required default =>
    exact ⟨v, rfl, defaultOf?_present defaults default⟩
  | unset absent free =>
    rw [needed.1, Bool.false_or] at free
    simp [absent, free] at needed

theorem fills_ok {columns : List Column} {rules : List (Option ColumnCopy)}
    (each : List.Forall₂ (Rule p current) columns rules) :
    ∃ fills : List (String × Fill Param),
      (rules.filterMap id).mapM ColumnCopy.fill = .ok fills := by
  induction each with
  | nil => exact ⟨[], rfl⟩
  | @cons c rule columns rules made _ ih =>
    obtain ⟨fills, filled⟩ := ih
    cases rule with
    | none => exact ⟨fills, filled⟩
    | some r =>
      obtain ⟨f, first⟩ := made.fill_ok
      refine ⟨f :: fills, ?_⟩
      rw [List.filterMap_cons_some (f := id) rfl, List.mapM_cons, first, filled]
      rfl

/-- A rebuild with a column to fill copies the rows with a statement that, read back, writes to each
column what is to be carried over, and to no column that must have a value a null. -/
theorem rebuild_copies_values {expected actual : Schema} (named : expected.Named)
    (distinct : expected.Distinct) (defaults : DefaultsPresent p.types) {plan : Plan}
    (planned : p.plan expected actual = .ok plan) {copies : List ColumnCopy}
    (rebuilds : .rebuildTable t copies ∈ plan) (nonempty : copies ≠ []) {d : Dialect}
    (legible : d.Legible) :
    ∃ current copy transfer,
      expected.table? t.name = some t ∧ actual.table? t.name = some current ∧
      Step.commands d (.rebuildTable t copies) =
        .ok [.createTable (t.definition d (d.scratchName t.name)), copy, .dropTable t.name,
          .renameTable (d.scratchName t.name) t.name] ∧
      Sql.readTransfer d (Statement.ofCommand d copy).params (Statement.ofCommand d copy).sql =
        some transfer ∧
      transfer.Proper ∧ transfer.target = d.scratchName t.name ∧ transfer.source = t.name ∧
      (∀ row name, name ∉ t.columns.map (·.name) → transfer.written row name = none) ∧
      ∀ row, current.Admits row → ∀ c ∈ t.columns,
        transfer.written row c.name = p.carried current row c ∧
        (needsValue current c = true →
          ∃ v, transfer.written row c.name = some v ∧ v.isNull = false) := by
  obtain ⟨current, wanted, stored, made⟩ := rebuilt_of_mem named planned rebuilds
  obtain ⟨rules, each, rfl⟩ := copyRules_ok made
  obtain ⟨fills, filled⟩ := fills_ok each
  have filling : fills ≠ [] := by
    rintro rfl
    exact nonempty (List.length_eq_zero_iff.mp (Except.mapM_forall₂ filled).length_eq)
  have columns : t.columns ≠ [] := by
    intro none
    rw [none, List.forall₂_nil_left_iff] at each
    exact nonempty (each ▸ rfl)
  refine ⟨current, .copyRows (d.scratchName t.name) fills t.name,
    transferOf (d.scratchName t.name) fills t.name, wanted, stored, ?_,
    Sql.readTransfer_pieces legible _ _ filling, ColumnCopy.proper_transferOf filled ?_ _ _, rfl, rfl,
    fun row name other => ?_, fun row admitted c hc => ?_⟩
  · exact Step.rebuild_of_fills columns filled filling
  · exact (distinct t.name t wanted).sublist (columns_sublist each)
  · rw [ColumnCopy.written_transferOf filled]
    exact written_none each other
  · rw [ColumnCopy.written_transferOf filled]
    obtain ⟨rule, made, value⟩ := written_rules row each (distinct t.name t wanted) hc
    rw [value]
    exact ⟨made.value_eq, made.value_present defaults admitted⟩

/-- Users with an optional name, and what is to become of them: named, and with an age. -/
def namelessUsers : Table := ⟨"users", [(Column.named "id" "BIGINT").asPrimaryKey,
  .named "name" "TEXT", .named "email" "TEXT"]⟩

def agedUsers : Table := ⟨"users", [.named "note" "TEXT",
  ((Column.named "age" "BIGINT").typed .integer).notNull,
  ((Column.named "name" "TEXT").typed .text).notNull, (Column.named "id" "BIGINT").asPrimaryKey]⟩

def agedCopies : List ColumnCopy :=
  [⟨"age", some .integer, .constant (.int 0)⟩, ⟨"name", some .text, .existingOr (.text "")⟩,
    ⟨"id", none, .existing⟩]

theorem rebuild_copies_values_aged :
    ∃ copy transfer,
      Step.commands .generic (.rebuildTable agedUsers agedCopies) =
        .ok [.createTable (agedUsers.definition .generic "users__rebuild"), copy,
          .dropTable "users", .renameTable "users__rebuild" "users"] ∧
      Sql.readTransfer .generic (Statement.ofCommand .generic copy).params
        (Statement.ofCommand .generic copy).sql = some transfer ∧
      ∀ row : Row, row "id" = .int 7 → row "name" = .null →
        transfer.written row "id" = some (.int 7) ∧ transfer.written row "name" = some (.text "") ∧
        transfer.written row "age" = some (.int 0) ∧ transfer.written row "note" = none ∧
        transfer.written row "email" = none := by
  have named : (Schema.empty.add agedUsers).Named := Schema.named_of_entries (by decide)
  have distinct : (Schema.empty.add agedUsers).Distinct := Schema.distinct_of_entries (by decide)
  have planned : (Planner.of .generic .generic .default).plan (Schema.empty.add agedUsers)
      (Schema.empty.add namelessUsers) = .ok [.rebuildTable agedUsers agedCopies] := by
    have order : TableOrder.all (Schema.empty.add agedUsers) (Schema.empty.add namelessUsers) =
        ["users"] := by decide +kernel
    rw [plan_of_order order]
    rfl
  obtain ⟨current, copy, transfer, -, stored, commands, read, -, -, -, others, each⟩ :=
    rebuild_copies_values named distinct defaultsPresent_generic planned List.mem_cons_self
      (List.cons_ne_nil _ _) Dialect.legible_generic
  cases stored
  refine ⟨copy, transfer, commands, read, fun row id name => ?_⟩
  have admitted : namelessUsers.Admits row := by
    simp [Table.Admits, namelessUsers, Column.named, Column.asPrimaryKey, id, Value.isNull]
  obtain ⟨note, age, name', id', -⟩ : _ ∧ _ ∧ _ ∧ _ ∧ ∀ c ∈ [], _ := by
    simpa only [agedUsers, List.forall_mem_cons] using fun c hc => (each row admitted c hc).1
  refine ⟨id'.trans ?_, name'.trans ?_, age, note, others row "email" (by decide)⟩
  · change (if (row "id").isNull && false then _ else some (row "id")) = _
    rw [id]
    rfl
  · change (if (row "name").isNull && true then some (.text "") else some (row "name")) = _
    rw [name]
    rfl

end Planner

end EntityStore
