import EntityStore.Migration.Ddl
import EntityStore.Sql.Writer

namespace EntityStore

open Condition (Visit)

/-- A statement without parameters. -/
def Written.raw (sql : String) : Written := ⟨sql, []⟩

/-- The statements of a rebuild in their order. -/
structure Rebuild where
  create : Written
  copy : Option Written
  drop : Written
  rename : Written

namespace ColumnCopy

/-- The mark for a default. -/
def writeDefault (d : Dialect) (c : ColumnCopy) (v : Value) : Visit Writer String := do
  let p ← .ofExcept (c.param v)
  Writer.bind d p.type p.value

/-- What a column is filled with. -/
def writeSource (d : Dialect) (c : ColumnCopy) : Visit Writer String :=
  match c.source with
  | .existing => pure (d.ident c.column)
  | .existingOr v => do
    let mark ← c.writeDefault d v
    pure ("COALESCE(" ++ d.ident c.column ++ ", " ++ mark ++ ")")
  | .constant v => c.writeDefault d v

end ColumnCopy

namespace Step

def writeCopy (d : Dialect) (t : Table) (copies : List ColumnCopy) : Visit Writer String := do
  let sources ← copies.mapM (ColumnCopy.writeSource d)
  let targets := copies.map fun c => d.ident c.column
  pure ("INSERT INTO " ++ d.ident (d.scratchName t.name) ++ " (" ++
    String.intercalate ", " targets ++ ") SELECT " ++ String.intercalate ", " sources ++
    " FROM " ++ d.ident t.name)

/-- Rows are copied where some column is to be filled. -/
def writeCopied (d : Dialect) (t : Table) (copies : List ColumnCopy) :
    Except Error (Option Written) :=
  if copies.isEmpty then .ok none else (Writer.finish (writeCopy d t copies)).map some

/-- Makes the new table under a scratch name, copies rows, drops the old table and moves the new
one into its place. -/
def writeRebuild (d : Dialect) (t : Table) (copies : List ColumnCopy) : Except Error Rebuild :=
  let scratch := d.scratchName t.name
  if t.columns.isEmpty then .error (.planning (.noColumns t.name))
  else do
    let copy ← writeCopied d t copies
    .ok ⟨.raw (Sql.Command.tableText d.ident (t.definition d scratch)), copy,
      .raw ("DROP TABLE " ++ d.ident t.name),
      .raw ("ALTER TABLE " ++ d.ident scratch ++ " RENAME TO " ++ d.ident t.name)⟩

end Step

end EntityStore
