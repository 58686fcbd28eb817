import EntityStore.Engine.Run
import EntityStore.Engine.Introspection
import EntityStore.Engine.Token
import EntityStore.Repository.Backend

namespace EntityStore.Engine

open EntityStore.Sql (TableDef Command)

/-- What begins and ends a transaction. -/
inductive Control where
  | begin
  | commit
  | rollback
  deriving DecidableEq

structure Connection where
  database : Database
  enforced : Bool
  writable : Bool
  /-- The texts of prepared statements with the names that their columns had then. -/
  prepared : List (String × List String)
  /-- What the open transactions go back to, the innermost one first. -/
  saved : List Database
  /-- Why the database refuses to begin or to end a transaction, if it does. -/
  refusal : Control → Option Fault

abbrev Work := Task Connection EngineError

namespace Connection

def fresh (enforced writable : Bool) : Connection :=
  ⟨.empty, enforced, writable, [], [], fun _ => none⟩

def run (command : Command Cell) (c : Connection) : Except Fault (Outcome × Connection) :=
  match c.database.run c.enforced command with
  | .ok (db, outcome) =>
    if command.writes && !c.writable then .error .readOnly
    else .ok (outcome, { c with database := db })
  | .error fault => .error fault

def names (c : Connection) (sql : String) (command : Command Cell) : List String :=
  (c.prepared.lookup sql).getD (c.database.resultNames command)

def prepare (c : Connection) (sql : String) (names : List String) : Connection :=
  if (c.prepared.lookup sql).isSome then c else { c with prepared := (sql, names) :: c.prepared }

def stored (types : TypeMap) (p : Param) : Except EngineError Cell :=
  ((types.encode p.type p.value).mapError .core).map .ofValue

def put (c : Connection) : Work Unit := Task.turn fun _ => c

/-- Runs a statement, and tells the names of its columns. It is prepared unless it is refused
before it begins to run. -/
def execute (types : TypeMap) (s : Statement) : Work (Outcome × List String) := do
  Task.log (.executing s.sql (some s.params.length))
  let command ← Task.ofExcept (s.command.mapM (stored types))
  Task.ofExcept ((checkText s.sql).mapError .statement)
  let c := (← get).state
  let names := c.names s.sql command
  match run command c with
  | .ok (outcome, c') =>
    put (c'.prepare s.sql names)
    pure (outcome, names)
  | .error fault =>
    put (if fault.isEarly then c else c.prepare s.sql names)
    throw (.statement fault)

def rows (types : TypeMap) (s : Statement) : Work (List Row) := do
  let (outcome, names) ← execute types s
  pure (outcome.named names)

/-- A value as a count; null and negative numbers count as none. -/
def counted : Value → Except EngineError Nat
  | .int n => .ok n.toNat
  | .float _ => .error (.notNumber "REAL")
  | .text _ => .error (.notNumber "TEXT")
  | .blob _ => .error (.notNumber "BLOB")
  | _ => .ok 0

/-- Creates a table as it is declared, without a plan. -/
def declare (d : TableDef) : Work Unit := do
  let text := Command.tableText Dialect.sqlite.ident d
  Task.log (.executing text none)
  Task.ofExcept ((checkText text).mapError .statement)
  let _ ← Task.change fun c => (run (.createTable d) c).mapError .statement

def introspect : Work Schema := do
  let schema ← Task.ofExcept (← get).state.database.introspect
  Task.log (.introspected schema.names.length)
  pure schema

def checkForeignKeys : Work Unit := do
  match (← get).state.database.violations with
  | .ok 0 => pure ()
  | .ok n => throw (.violations n)
  | .error fault => throw (.statement fault)

/-- Switches the enforcement of foreign keys, to no effect while a transaction is open. -/
def enforcing (on : Bool) (c : Connection) : Connection :=
  if c.saved.isEmpty then { c with enforced := on } else c

def enforce (on : Bool) : Work Unit := Task.turn (enforcing on)

def enforcement : Work (List Row) := do
  Task.log (.executing "PRAGMA foreign_keys" (some 0))
  pure [⟨[("foreign_keys", .int (if (← get).state.enforced then 1 else 0))]⟩]

def backend (types : TypeMap) : Backend Connection EngineError where
  select := rows types
  count s := do Task.ofExcept (counted (← execute types s).1.first)
  insert := rows types
  execute s := do pure (← execute types s).1.affected
  introspect := introspect
  message := EngineError.message

/-- The connection in a new transaction. -/
def opened (c : Connection) : Connection := { c with saved := c.database :: c.saved }

/-- The connection behind the innermost transaction, whose changes are kept. -/
def closed (c : Connection) : Connection := { c with saved := c.saved.tail }

/-- The connection behind the innermost transaction, with the tables and rows before it. -/
def reverted (c : Connection) : Connection :=
  match c.saved with
  | [] => c
  | before :: outer => { c with database := before, saved := outer }

def begin : Work Unit := do
  match (← get).state.refusal .begin with
  | none => Task.turn opened
  | some fault => throw (.statement fault)

/-- Leaves a transaction without an end of its own, which takes its changes back. -/
def drop : Work Unit := Task.turn reverted

/-- Ends a transaction with its changes. One that the database refuses to end is dropped. -/
def commit : Work Unit := do
  match (← get).state.refusal .commit with
  | none => Task.turn closed
  | some fault =>
    drop
    throw (.statement fault)

/-- Ends a transaction and takes its changes back. One that the database refuses to end is
dropped. -/
def rollback : Work Unit := do
  drop
  match (← get).state.refusal .rollback with
  | none => pure ()
  | some fault => throw (.statement fault)

variable {ε α : Type}

/-- Runs work in a transaction that is granted; its changes are taken back unless they are to be
kept. -/
def transaction (keep : Except ε α → Bool) (work : Task Connection ε α) : Task Connection ε α := do
  Task.turn opened
  let outcome : Except ε α ← liftM work.run
  Task.turn (if keep outcome then closed else reverted)
  Task.ofExcept outcome

/-- Runs work in a transaction, which is committed if the work succeeds and given up otherwise. -/
def atomically (giveUp : Work Unit) (work : Work α) : Work α := do
  begin
  let outcome : Except EngineError α ← liftM work.run
  match outcome with
  | .ok a =>
    commit
    pure a
  | .error e =>
    giveUp
    throw e

end Connection

end EntityStore.Engine
