import EntityStore.Migration.Written
import EntityStore.Proofs.Query.Compile
import EntityStore.Proofs.Sql.Writer

namespace EntityStore

open Condition (Visit)
open Sql (Fragment)

variable {d : Dialect}

namespace ColumnCopy

theorem writes_default (c : ColumnCopy) (v : Value) :
    Writer.Writes d (c.writeDefault d v) ((c.param v).map fun p => [.hole p]) := by
  intro w
  rw [writeDefault, Visit.result_bind, Visit.result_ofExcept, Except.bind_map]
  cases c.param v with
  | error e => rfl
  | ok p => exact Writer.writes_bind p.type p.value w

/-- A column is filled as its rule says, or refused with the same error. -/
theorem writes_source (c : ColumnCopy) :
    Writer.Writes d (c.writeSource d)
      (c.fill.map fun f => Sql.Command.fillPieces d.ident f.1 f.2) := by
  intro w
  unfold writeSource fill
  cases c.source with
  | existing =>
    simp only [Except.map, Sql.Command.fillPieces, Writer.text_text, Writer.text_nil,
      Writer.after_text, Writer.after_nil, String.append_empty]
    rfl
  | existingOr v =>
    dsimp only
    rw [Visit.result_bind, c.writes_default v w, Except.map_map, Except.map_map, Except.map_map,
      Except.bind_map]
    cases c.param v with
    | error e => rfl
    | ok p =>
      let pieces : Fragment Param := Sql.Command.fillPieces d.ident c.column (.existingOr p)
      have text : w.text d pieces =
          "COALESCE(" ++ d.ident c.column ++ ", " ++ w.text d [.hole p] ++ ")" := by
        have split : pieces = .text ("COALESCE(" ++ d.ident c.column ++ ", ") ::
            ([.hole p] ++ [.text ")"]) := rfl
        rw [split, Writer.text_text, Writer.text_append, Writer.text_text, Writer.text_nil]
        simp only [String.append_empty, String.append_assoc]
      exact congrArg (fun t => Except.ok (t, w.after [.hole p])) text.symm
  | constant v =>
    dsimp only
    rw [c.writes_default v w, Except.map_map, Except.map_map, Except.map_map]
    rfl

theorem column_fill {c : ColumnCopy} {f : String × Sql.Fill Param} (h : c.fill = .ok f) :
    f.1 = c.column := by
  unfold fill at h
  cases source : c.source with
  | existing =>
    rw [source] at h
    cases h
    rfl
  | existingOr v =>
    rw [source] at h
    obtain ⟨p, -, rfl⟩ := Except.map_eq_ok.mp h
    rfl
  | constant v =>
    rw [source] at h
    obtain ⟨p, -, rfl⟩ := Except.map_eq_ok.mp h
    rfl

end ColumnCopy

namespace Step

/-- Defaults are bound in the order of the rules. -/
theorem writes_copy (t : Table) (copies : List ColumnCopy) :
    Writer.Writes d (writeCopy d t copies) ((copies.mapM ColumnCopy.fill).map fun fills =>
      (Sql.Command.copyRows (d.scratchName t.name) fills t.name).pieces d) := by
  intro w
  have sources := Writer.Writes.all
    (fun c (_ : c ∈ copies) => ColumnCopy.writes_source (d := d) c) w
  rw [writeCopy, Visit.result_bind, sources, Except.mapM_map, Except.map_map, Except.map_map,
    Except.bind_map]
  cases filled : copies.mapM ColumnCopy.fill with
  | error e => rfl
  | ok fills =>
    have columns : fills.map (·.1) = copies.map (·.column) :=
      Except.mapM_map_eq (fun _ _ => ColumnCopy.column_fill) filled
    have targets : copies.map (fun c => d.ident c.column) =
        (fills.map (·.1)).map d.ident := by
      rw [columns, List.map_map]
      rfl
    change Except.ok _ = Except.ok _
    apply congrArg Except.ok
    rw [Writer.intercalate_texts, targets]
    simp only [Sql.Command.pieces, Sql.Command.identList, Writer.text_text, Writer.text_append,
      Writer.text_nil, Writer.after_text, Writer.after_append, Writer.after_nil,
      Writer.after_separated, String.append_empty, String.append_assoc]

theorem written_raw {c : Sql.Command Param} {text : String} (pieces : c.pieces d = [.text text]) :
    (Statement.ofCommand d c).written = .raw text := by
  simp only [Statement.written, Statement.ofCommand, pieces, Fragment.render, Fragment.operands,
    String.append_empty, Written.raw]

theorem writeCopied_eq (t : Table) (copies : List ColumnCopy) :
    writeCopied d t copies = (copies.mapM ColumnCopy.fill).map fun fills =>
      (copyCommand d t fills).head?.map fun c => (Statement.ofCommand d c).written := by
  unfold writeCopied
  cases copies with
  | nil => rfl
  | cons c copies =>
    rw [(writes_copy t (c :: copies)).finish, Except.map_map, Except.map_map]
    cases filled : (c :: copies).mapM ColumnCopy.fill with
    | error e => rfl
    | ok fills =>
      cases Except.mapM_forall₂ filled with
      | cons first rest => rfl

/-- The statements of a rebuild are written as what it is made of, or refused with the same
error. -/
theorem writeRebuild_eq (t : Table) (copies : List ColumnCopy) :
    writeRebuild d t copies = (do
      let create ← t.create d (d.scratchName t.name)
      let fills ← copies.mapM ColumnCopy.fill
      .ok ⟨(Statement.ofCommand d create).written,
        (copyCommand d t fills).head?.map fun c => (Statement.ofCommand d c).written,
        (Statement.ofCommand d (.dropTable t.name)).written,
        (Statement.ofCommand d (.renameTable (d.scratchName t.name) t.name)).written⟩) := by
  let scratch := d.scratchName t.name
  have created : (Statement.ofCommand d (.createTable (t.definition d scratch))).written =
      .raw (Sql.Command.tableText d.ident (t.definition d scratch)) := written_raw rfl
  have dropped : (Statement.ofCommand d (.dropTable t.name)).written =
      .raw ("DROP TABLE " ++ d.ident t.name) := written_raw rfl
  have renamed : (Statement.ofCommand d (.renameTable scratch t.name)).written =
      .raw ("ALTER TABLE " ++ d.ident scratch ++ " RENAME TO " ++ d.ident t.name) := written_raw rfl
  rw [dropped, renamed]
  unfold writeRebuild Table.create
  cases t.columns.isEmpty with
  | true => rfl
  | false =>
    simp only [Bool.false_eq_true, if_false, writeCopied_eq, Except.bind_map]
    rw [← created]
    rfl

end Step

end EntityStore
