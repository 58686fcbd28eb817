import EntityStore.Query.Compile
import EntityStore.Query.Phrase

namespace EntityStore

open Condition (Visit)

/-- The rows that a statement is about, as they are written. -/
structure WrittenFilter where
  joins : List Join
  clause : Option String
  qualify : Bool

namespace WrittenFilter

variable (d : Dialect)

def column (f : WrittenFilter) (field : FieldRef) : String :=
  if f.qualify then d.qualified field.owner.table field.field.column
  else d.ident field.field.column

/-- A join, from an earlier one or the table of the relation itself. -/
def joinText (f : WrittenFilter) (j : Join) : String :=
  let parent := match j.parent with
    | none => j.relation.owner.table
    | some index => match f.joins[index]? with
      | some p => p.name
      | none => j.relation.owner.table
  " LEFT JOIN " ++ d.ident j.target.id.table ++
    (if j.name = j.target.id.table then "" else " AS " ++ d.ident j.name) ++
    " ON " ++ d.qualified parent j.relation.field.column ++ " = " ++
    d.qualified j.name j.targetKey.column

/-- A text with the joins and the condition behind it. -/
def tailing (f : WrittenFilter) (sql : String) : String :=
  let sql := f.joins.foldl (fun sql j => sql ++ f.joinText d j) sql
  match f.clause with
  | some clause => sql ++ " WHERE " ++ clause
  | none => sql

end WrittenFilter

namespace Query

variable (d : Dialect)

def writeFilter (q : Query) (joining : Bool) : Visit Writer WrittenFilter :=
  match q.predicate with
  | none => pure ⟨[], none, false⟩
  | some c => do
    let joins ← .ofExcept (c.joins q.entity)
    let qualify := !joins.isEmpty
    let reach := if joining then Reach.joined joins else .nested
    let phrase ← ConditionWriter.write d reach qualify q.entity.id.table c
    pure ⟨if joining then joins else [], some phrase.sql, qualify⟩

/-- A term of the ordering. -/
def writeTerm (q : Query) (f : WrittenFilter) (term : FieldRef × Direction) :
    Visit Writer String := do
  .ofExcept (q.entity.shape.check term.1)
  pure (f.column d term.1 ++ " " ++ term.2.keyword)

def writeFields (q : Query) (fields : List FieldRef) : Visit Writer String :=
  if fields.isEmpty then throw (.invalidArgument .emptySelect)
  else do
    .ofExcept (fields.forM q.entity.shape.check)
    let f ← q.writeFilter d true
    let columns := String.intercalate ", " (fields.map (f.column d))
    let sql := f.tailing d ("SELECT " ++ columns ++ " FROM " ++ d.ident q.entity.id.table)
    let terms ← q.ordering.mapM (q.writeTerm d f)
    let sql := if q.ordering.isEmpty then sql
      else sql ++ " ORDER BY " ++ String.intercalate ", " terms
    pure (match q.page.bind d.pageClause with
      | some clause => sql ++ " " ++ clause
      | none => sql)

/-- Selects every field, in declaration order. -/
def writeSelect (q : Query) : Visit Writer String := q.writeFields d q.entity.refs

def writeCount (q : Query) : Visit Writer String := do
  let f ← q.writeFilter d true
  let table := d.ident q.entity.id.table
  pure (match q.page.bind d.pageClause with
    | some clause =>
      let inner := f.tailing d ("SELECT 1 FROM " ++ table)
      "SELECT COUNT(*) FROM (" ++ inner ++ " " ++ clause ++ ") AS " ++ d.ident "page"
    | none => f.tailing d ("SELECT COUNT(*) FROM " ++ table))

def writeAssignment (q : Query) (a : FieldRef × Value) : Visit Writer String := do
  .ofExcept (q.entity.shape.check a.1)
  let mark ← Writer.bind d a.1.field.type a.2
  pure (d.ident a.1.field.column ++ " = " ++ mark)

def writeUpdate (q : Query) : Visit Writer String :=
  if q.assignments.isEmpty then throw (.invalidArgument .emptyUpdate)
  else do
    let sets ← q.assignments.mapM (q.writeAssignment d)
    let f ← q.writeFilter d false
    pure (f.tailing d
      ("UPDATE " ++ d.ident q.entity.id.table ++ " SET " ++ String.intercalate ", " sets))

def writeDelete (q : Query) : Visit Writer String := do
  let f ← q.writeFilter d false
  pure (f.tailing d ("DELETE FROM " ++ d.ident q.entity.id.table))

end Query

namespace Entity

variable (d : Dialect)

/-- The fields that are inserted, each with its place in a row. -/
def insertedPlaces (e : Entity) : List (Field × Nat) :=
  e.fields.zipIdx.filter fun place => !leavesOut place.1

def writeRow (e : Entity) (row : List Value) : Visit Writer String :=
  if row.length = e.fields.length then do
    let marks ← e.insertedPlaces.mapM fun place =>
      Writer.bind d place.1.type (row.getD place.2 .null)
    pure ("(" ++ String.intercalate ", " marks ++ ")")
  else throw (.invalidArgument (.rowWidth e.id.name row.length e.fields.length))

def writeInsert (e : Entity) (rows : List (List Value)) : Visit Writer String :=
  if rows.isEmpty then throw (.invalidArgument .emptyInsert)
  else do
    let columns := e.insertedPlaces.map fun place => d.ident place.1.column
    let tuples ← rows.mapM (e.writeRow d)
    let sql := "INSERT INTO " ++ d.ident e.id.table ++ " (" ++ String.intercalate ", " columns ++
      ") VALUES " ++ String.intercalate ", " tuples
    pure (match e.key?.filter (·.generated) with
      | some key => if d.returnsKeys then sql ++ " RETURNING " ++ d.ident key.column else sql
      | none => sql)

end Entity

end EntityStore
