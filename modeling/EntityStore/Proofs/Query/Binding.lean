import EntityStore.Proofs.Migration.Written
import EntityStore.Proofs.Query.Parameters
import EntityStore.Proofs.Query.Written

namespace EntityStore

open Condition (Visit)
open Sql (Slot Fragment)
open Param (blank)

namespace Request

theorem hasSlots_filter {q : Query} {joining : Bool} {f : Filter} (ident : String → String)
    (h : q.filter joining = .ok f) :
    Fragment.HasSlots (Sql.Command.filterPieces ident f.clause) (q.slots ident) := by
  rcases Query.filter_ok h with ⟨none, rfl⟩ | ⟨c, joins, e, some, -, he, rfl⟩
  · simp only [Query.slots, none]
    exact .nil
  · simp only [Query.slots, some]
    exact (Condition.hasSlots_toExpr ident _ _ he).text " WHERE "

theorem hasSlots_selectFields {q : Query} {fields : List FieldRef} {c : Sql.Command Param}
    (d : Dialect) (h : q.selectFields fields = .ok c) :
    Fragment.HasSlots (c.pieces d) (q.slots d.ident) := by
  obtain ⟨f, hf, rfl⟩ := Query.selectFields_ok h
  have tail (s : String) : Fragment.HasSlots ([.text s] : Fragment Param) [] := .text s .nil
  have filter := hasSlots_filter d.ident hf
  simpa [Sql.Command.pieces, Sql.Command.sourcePieces, Filter.source] using
    ((filter.append (tail _)).text _).text _

theorem hasSlots_count {q : Query} {c : Sql.Command Param} (d : Dialect) (h : q.count = .ok c) :
    Fragment.HasSlots (c.pieces d) (q.slots d.ident) := by
  obtain ⟨f, hf, rfl⟩ := Query.count_ok h
  have tail (s : String) : Fragment.HasSlots ([.text s] : Fragment Param) [] := .text s .nil
  have filter := hasSlots_filter d.ident hf
  simp only [Sql.Command.pieces]
  cases q.page.bind d.pageClause with
  | none => exact (filter.text _).text _
  | some clause =>
    simpa [Sql.Command.sourcePieces, Filter.source] using
      ((filter.append (tail _)).text _).text _

theorem hasSlots_tuple (params : List Param) :
    Fragment.HasSlots (Sql.Command.tuple params) (Sql.listSlots "(" params) := by
  have close : Fragment.HasSlots ([.text ")"] : Fragment Param) [] := .text ")" .nil
  simpa [Sql.Command.tuple] using close.holes "" "(" params

theorem hasSlots_insert {e : Entity} {d : Dialect} {rows : List (List Value)}
    {c : Sql.Command Param} (h : e.insert d rows = .ok c) :
    Fragment.HasSlots (c.pieces d) ((insert e rows).slots d.ident) := by
  rw [Entity.insert_ok h]
  have tuples : List.Forall₂ Fragment.HasSlots
      ((rows.map e.rowParams).map Sql.Command.tuple)
      (rows.map fun row => Sql.listSlots "(" (Entity.boundValues e.fields row)) := by
    rw [List.map_map, List.forall₂_map_left_iff, List.forall₂_map_right_iff, List.forall₂_same]
    intro row _
    simpa [Entity.rowParams_eq] using hasSlots_tuple (Entity.boundValues e.fields row)
  have list := Fragment.HasSlots.separated ", " tuples
  simp only [Sql.Command.pieces, slots, List.flatMap]
  cases e.returning d with
  | none => simpa using list.text _
  | some key =>
    have tail : Fragment.HasSlots ([.text (" RETURNING " ++ d.ident key)] : Fragment Param) [] :=
      .text _ .nil
    simpa using (list.append tail).text _

theorem hasSlots_assignment (ident : String → String) (a : FieldRef × Value) :
    Fragment.HasSlots
      [.text (ident a.1.field.column ++ " = "), .hole (⟨a.1.field.type, a.2⟩ : Param)]
      [⟨ident a.1.field.column ++ " = ", ⟨a.1.field.type, a.2⟩⟩] := by
  have slot := Fragment.HasSlots.hole "" (ident a.1.field.column ++ " = ")
    (⟨a.1.field.type, a.2⟩ : Param) .nil
  rwa [String.empty_append] at slot

theorem hasSlots_update {q : Query} {c : Sql.Command Param} (d : Dialect) (h : q.update = .ok c) :
    Fragment.HasSlots (c.pieces d) ((update q).slots d.ident) := by
  obtain ⟨f, hf, rfl⟩ := Query.update_ok h
  have sets : List.Forall₂ Fragment.HasSlots
      (q.assignments.map fun a =>
        [.text (d.ident a.1.field.column ++ " = "), .hole (⟨a.1.field.type, a.2⟩ : Param)])
      (q.assignments.map fun a =>
        [⟨d.ident a.1.field.column ++ " = ", ⟨a.1.field.type, a.2⟩⟩]) := by
    rw [List.forall₂_map_left_iff, List.forall₂_map_right_iff, List.forall₂_same]
    exact fun a _ => hasSlots_assignment d.ident a
  have list := Fragment.HasSlots.separated ", " sets
  have flat : (q.assignments.map fun a => [(⟨d.ident a.1.field.column ++ " = ",
      ⟨a.1.field.type, a.2⟩⟩ : Slot Param)]).flatten = q.assignmentSlots d.ident := by
    rw [Query.assignmentSlots, ← List.flatMap_def, ← List.map_eq_flatMap]
  rw [flat] at list
  simpa [Sql.Command.pieces, slots, Function.comp_def] using
    (list.append (hasSlots_filter d.ident hf)).text _

theorem hasSlots_delete {q : Query} {c : Sql.Command Param} (d : Dialect) (h : q.delete = .ok c) :
    Fragment.HasSlots (c.pieces d) (q.slots d.ident) := by
  obtain ⟨f, hf, rfl⟩ := Query.delete_ok h
  exact (hasSlots_filter d.ident hf).text _

theorem hasSlots_fill (ident : String → String) {c : ColumnCopy} {copies : List ColumnCopy}
    {f : String × Sql.Fill Param} (h : c.fill = .ok f) (before words : String)
    {rest : Fragment Param} (hr : rest.HasSlots (ColumnCopy.slots ident ", " copies)) :
    Fragment.HasSlots (.text (before ++ words) :: (Sql.Command.fillPieces ident f.1 f.2 ++ rest))
      (ColumnCopy.slots ident words (c :: copies)) := by
  cases c with
  | mk column fieldType source =>
    cases source with
    | existing =>
      cases h
      exact (hr.text (ident column)).text _
    | existingOr v =>
      obtain ⟨p, hp, rfl⟩ := Except.map_eq_ok.mp h
      cases fieldType with
      | none => cases hp
      | some t =>
        cases hp
        have slot := (hr.text ")").hole "" ("COALESCE(" ++ ident column ++ ", ") (⟨t, v⟩ : Param)
        rw [String.empty_append] at slot
        exact slot.text _
    | constant v =>
      obtain ⟨p, hp, rfl⟩ := Except.map_eq_ok.mp h
      cases fieldType with
      | none => cases hp
      | some t =>
        cases hp
        exact hr.hole before words _

theorem hasSlots_fills (ident : String → String) {copies : List ColumnCopy}
    {fills : List (String × Sql.Fill Param)}
    (h : List.Forall₂ (fun c f => ColumnCopy.fill c = .ok f) copies fills)
    (before words tail : String) :
    Fragment.HasSlots
      (.text (before ++ words) ::
        (Fragment.separated ", " (fills.map fun f => Sql.Command.fillPieces ident f.1 f.2) ++
          [.text tail]))
      (ColumnCopy.slots ident words copies) := by
  induction h generalizing before words with
  | nil => exact (Fragment.HasSlots.nil.text tail).text _
  | @cons c f copies fills first rest ih =>
    have next := ih "" ", "
    rw [String.empty_append] at next
    cases rest with
    | nil => exact hasSlots_fill ident first before words (Fragment.HasSlots.nil.text tail)
    | cons second rest =>
      rw [List.map_cons, List.map_cons, Fragment.separated, List.append_assoc]
      · exact hasSlots_fill ident first before words next
      · simp

theorem hasSlots_copy {t : Table} {copies : List ColumnCopy} {d : Dialect}
    {c : Sql.Command Param} (h : (copy t copies).command d = .ok (some c)) :
    Fragment.HasSlots (c.pieces d) ((copy t copies).slots d.ident) := by
  rw [copy_command] at h
  obtain ⟨-, -, h⟩ := Except.bind_eq_ok.mp h
  obtain ⟨fills, hf, h⟩ := Except.bind_eq_ok.mp h
  have rules := Except.mapM_forall₂ hf
  cases fills with
  | nil => cases h
  | cons f fills =>
    cases h
    have split (s : String) : s ++ ") SELECT " = s ++ ") " ++ "SELECT " := by
      rw [String.append_assoc]
      rfl
    simp only [Sql.Command.pieces, split]
    exact hasSlots_fills d.ident rules _ "SELECT " _

/-- The operands of a request stand in the holes of its statement. -/
theorem hasSlots_command {r : Request} {d : Dialect} {c : Sql.Command Param}
    (h : r.command d = .ok (some c)) : Fragment.HasSlots (c.pieces d) (r.slots d.ident) := by
  cases r with
  | select q =>
    obtain ⟨c', hc, same⟩ := Except.map_eq_ok.mp h
    cases same
    exact hasSlots_selectFields d hc
  | selectFields q fields =>
    obtain ⟨c', hc, same⟩ := Except.map_eq_ok.mp h
    cases same
    exact hasSlots_selectFields d hc
  | count q =>
    obtain ⟨c', hc, same⟩ := Except.map_eq_ok.mp h
    cases same
    exact hasSlots_count d hc
  | insert e rows =>
    obtain ⟨c', hc, same⟩ := Except.map_eq_ok.mp h
    cases same
    exact hasSlots_insert hc
  | update q =>
    obtain ⟨c', hc, same⟩ := Except.map_eq_ok.mp h
    cases same
    exact hasSlots_update d hc
  | delete q =>
    obtain ⟨c', hc, same⟩ := Except.map_eq_ok.mp h
    cases same
    exact hasSlots_delete d hc
  | copy t copies => exact hasSlots_copy h

/-- The statement of a request as it is written while its operands are bound. -/
def write (d : Dialect) : Request → Except Error (Option Written)
  | .select q => (Writer.finish (q.writeSelect d)).map some
  | .selectFields q fields => (Writer.finish (q.writeFields d fields)).map some
  | .count q => (Writer.finish (q.writeCount d)).map some
  | .insert e rows => (Writer.finish (e.writeInsert d rows)).map some
  | .update q => (Writer.finish (q.writeUpdate d)).map some
  | .delete q => (Writer.finish (q.writeDelete d)).map some
  | .copy t copies => (Step.writeRebuild d t copies).map (·.copy)

/-- What is written is the statement that runs, text and parameters, and what cannot be written is
refused with the same error. -/
theorem write_eq (d : Dialect) (r : Request) :
    r.write d = (r.command d).map (Option.map fun c => (Statement.ofCommand d c).written) := by
  have lift : ∀ {x : Visit Writer String} {c : Except Error (Sql.Command Param)},
      Writer.Writes d x (c.map (·.pieces d)) →
      (Writer.finish x).map some =
        (c.map some).map (Option.map fun c => (Statement.ofCommand d c).written) := by
    intro x c writes
    rw [writes.finish, Except.map_map, Except.map_map, Except.map_map]
    rfl
  cases r with
  | select q => exact lift (q.writes_fields q.entity.refs)
  | selectFields q fields => exact lift (q.writes_fields fields)
  | count q => exact lift q.writes_count
  | insert e rows => exact lift (e.writes_insert rows)
  | update q => exact lift q.writes_update
  | delete q => exact lift q.writes_delete
  | copy t copies =>
    rw [write, Step.writeRebuild_eq, copy_command, Except.map_bind, Except.map_bind]
    cases t.create d (d.scratchName t.name) with
    | error e => rfl
    | ok create => cases copies.mapM ColumnCopy.fill <;> rfl

/-- The text is fixed texts with one mark between two of them; the parameters are the operands of the
slots, and the text before each mark ends with the words of its slot. -/
structure Binds (s : Written) (mark : Nat → String) (first : String) (later : List String)
    (slots : List (Slot Param)) : Prop where
  text : s.sql = Fragment.weave mark first later
  count : s.params.length = later.length
  params : s.params = slots.map (·.operand)
  words : List.Forall₂ (fun t slot => slot.words.toList <:+ t.toList) (first :: later).dropLast slots

/-- A statement that runs has its operands at its marks. -/
theorem binds_command {r : Request} {d : Dialect} {c : Sql.Command Param}
    (h : r.command d = .ok (some c)) (mark : Nat → String) :
    Binds (Statement.ofCommand (d.marking mark) c).written mark (c.pieces d).lead (c.pieces d).later
      (r.slots d.ident) := by
  have slots := hasSlots_command h
  have pieces : c.pieces (d.marking mark) = c.pieces d := by
    cases c <;> rfl
  have params : (Statement.ofCommand (d.marking mark) c).written.params =
      (r.slots d.ident).map (·.operand) := by
    rw [Statement.written, Statement.ofCommand, pieces]
    exact slots.operands_eq
  refine ⟨?_, ?_, params, slots.ends_with⟩
  · rw [Statement.written, Statement.ofCommand, pieces]
    exact Fragment.render_weave mark (c.pieces d)
  · rw [params, ← slots.operands_eq, Fragment.later_length]

/-- Whatever the marks and the values, a request is written as the same texts around its operands.
The statement that runs is the one that is written. -/
theorem operands_at_marks (d : Dialect) (r : Request) (s : Written)
    (h : r.write d = .ok (some s)) :
    ∃ first later, ∀ (mark : Nat → String) (r' : Request), r'.form = r.form →
      ∃ s' c', r'.write (d.marking mark) = .ok (some s') ∧
        r'.command (d.marking mark) = .ok (some c') ∧
        Statement.ofCommand (d.marking mark) c' = ⟨c', s'.sql, s'.params⟩ ∧
        Binds s' mark first later (r'.slots d.ident) := by
  rw [write_eq] at h
  obtain ⟨found, hf, same⟩ := Except.map_eq_ok.mp h
  obtain ⟨c, rfl, rfl⟩ := Option.map_eq_some_iff.mp same
  refine ⟨(c.pieces d).lead, (c.pieces d).later, fun mark r' alike => ?_⟩
  obtain ⟨c', hc', forms⟩ := command_alike d alike hf
  obtain ⟨lead, later⟩ := Sql.Command.texts_congr d blank blank forms
  have marked : r'.command (d.marking mark) = .ok (some c') := (command_marking d mark r').trans hc'
  refine ⟨(Statement.ofCommand (d.marking mark) c').written, c', ?_, marked, rfl, ?_⟩
  · rw [write_eq, marked]
    rfl
  · rw [← lead, ← later]
    exact binds_command hc' mark

def roles : Entity :=
  ⟨⟨"Role", "roles"⟩, [(Field.named "id" .integer).asPrimaryKey, .named "title" .text]⟩

def users : Entity :=
  ⟨⟨"User", "users"⟩, [(Field.named "id" .integer).asPrimaryKey, .named "name" .text,
    ((Field.named "role" .integer).inColumn "role_id").referencing roles.shape]⟩

/-- Renames the users whose name is missing, or begins with a letter while their role is in a range. -/
def renamed : Query :=
  ((Query.all users).restrict (.composite .or
    [.binary (users.ref (.named "name" .text)) .eq .null,
      .composite .and
        [.binary (users.ref (.named "name" .text)) .startsWith (.text "a"),
          .relational (users.ref (((Field.named "role" .integer).inColumn "role_id").referencing
            roles.shape)) (.ternary (roles.ref (.named "id" .integer)) .between (.int 1) (.int 2))]])
    ).assign (users.ref (.named "name" .text)) (.text "b")

/-- The statement of the renaming. The new name is bound first and stands first. -/
def renamedStatement : Written where
  sql := "UPDATE \"users\" SET \"name\" = ? WHERE \"users\".\"name\" IS NULL OR " ++
    "(\"users\".\"name\" LIKE ? AND \"users\".\"role_id\" IN " ++
    "(SELECT \"roles\".\"id\" FROM \"roles\" WHERE \"roles\".\"id\" BETWEEN ? AND ?))"
  params := [⟨.text, .text "b"⟩, ⟨.text, .text "a%"⟩, ⟨.integer, .int 1⟩, ⟨.integer, .int 2⟩]

theorem operands_at_marks_renamed :
    (update renamed).write .generic = .ok (some renamedStatement) ∧
      ∃ first later, ∀ (mark : Nat → String) (r' : Request), r'.form = (update renamed).form →
        ∃ s' c', r'.write (Dialect.generic.marking mark) = .ok (some s') ∧
          r'.command (Dialect.generic.marking mark) = .ok (some c') ∧
          Statement.ofCommand (Dialect.generic.marking mark) c' = ⟨c', s'.sql, s'.params⟩ ∧
          Binds s' mark first later (r'.slots Dialect.generic.ident) :=
  have written : (update renamed).write .generic = .ok (some renamedStatement) := by decide +kernel
  ⟨written, operands_at_marks .generic (update renamed) renamedStatement written⟩

end Request

end EntityStore
