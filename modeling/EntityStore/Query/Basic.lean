import EntityStore.Condition.Basic

namespace EntityStore

/-- A window of rows; an absent bound does not bind. -/
structure Page where
  offset : Option Nat
  limit : Option Nat
  deriving DecidableEq, Inhabited

inductive Direction where
  | asc
  | desc
  deriving DecidableEq

def Direction.keyword : Direction → String
  | .asc => "ASC"
  | .desc => "DESC"

structure Query where
  entity : Entity
  predicate : Option Condition
  page : Option Page
  ordering : List (FieldRef × Direction)
  assignments : List (FieldRef × Value)

namespace Query

def all (e : Entity) : Query := ⟨e, none, none, [], []⟩

/-- Restricts the rows further: a condition is joined by AND to what is there. -/
def restrict (q : Query) (c : Condition) : Query :=
  { q with predicate := some (match q.predicate with
      | some existing => existing.and c
      | none => c) }

/-- A count that must not be negative. -/
def rowCount (what : String) (n : Int) : Except Error Nat :=
  if n < 0 then .error (.invalidArgument (.negative what n)) else .ok n.toNat

/-- The window, unbounded where none was set. -/
def window (q : Query) : Page := q.page.getD ⟨none, none⟩

def skip (q : Query) (n : Int) : Except Error Query :=
  (rowCount "skip" n).map fun k => { q with page := some { q.window with offset := some k } }

def limit (q : Query) (n : Int) : Except Error Query :=
  (rowCount "limit" n).map fun k => { q with page := some { q.window with limit := some k } }

/-- Orders by more fields, after those already given. -/
def orderBy (q : Query) (fields : List FieldRef) (d : Direction) : Query :=
  { q with ordering := q.ordering ++ fields.map fun f => (f, d) }

/-- Assigns a field, after the assignments already given. -/
def assign (q : Query) (f : FieldRef) (v : Value) : Query :=
  { q with assignments := q.assignments ++ [(f, v)] }

/-- The query with a limit of at most `cap`. -/
def capped (q : Query) (cap : Nat) : Query :=
  { q with page := some { q.window with limit := some (match q.window.limit with
      | some n => min n cap
      | none => cap) } }

end Query

end EntityStore
