import EntityStore.Repository.Backend
import EntityStore.Text.Ascii

namespace EntityStore

structure Script where
  /-- Answers to queries, in order; none are left at the end. -/
  results : List (List Row)
  /-- Answers to insertions, in order. -/
  keys : List (List Row)
  count : Nat
  affected : Nat
  /-- Statements with this text are refused. -/
  refused : Option String
  /-- Whether the schema cannot be read. -/
  blind : Bool
  schema : Schema
  /-- The statements that were not refused. -/
  ran : List Statement

namespace Script

/-- Empty answers to everything. -/
def silent : Script := ⟨[], [], 0, 0, none, false, .empty, []⟩

/-- What a script refuses, in its words. -/
def refusal (what : String) : String := "statement rejected: " ++ what

def accept (s : Script) (statement : Statement) : Except String Script :=
  if s.refused.any (Text.contains statement.sql) then .error (refusal statement.sql)
  else .ok { s with ran := s.ran ++ [statement] }

def select (statement : Statement) (s : Script) : Except String (List Row × Script) := do
  let s ← s.accept statement
  pure (s.results.headD [], { s with results := s.results.tail })

def insert (statement : Statement) (s : Script) : Except String (List Row × Script) := do
  let s ← s.accept statement
  pure (s.keys.headD [], { s with keys := s.keys.tail })

def introspect (s : Script) : Except String (Schema × Script) :=
  if s.blind then .error (refusal "introspection") else .ok (s.schema, s)

def backend : Backend Script String where
  select statement := Task.change (select statement)
  count statement := Task.change fun s => (s.accept statement).map fun s => (s.count, s)
  insert statement := Task.change (insert statement)
  execute statement := Task.change fun s => (s.accept statement).map fun s => (s.affected, s)
  introspect := Task.change introspect
  message := id

end Script

end EntityStore
