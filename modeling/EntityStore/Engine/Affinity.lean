import EntityStore.Engine.Conversion
import EntityStore.Text.Ascii

namespace EntityStore.Engine

/-- The kind of values that a column prefers. -/
inductive Affinity where
  | any
  | text
  | numeric
  | real
  deriving DecidableEq

namespace Affinity

open Conversion

/-- How a part of a declared type changes what the type prefers. -/
def refine (a : Affinity) (part : String) : Affinity :=
  if part ∈ ["char", "clob", "text"] then .text
  else if part = "blob" ∧ a ≠ .text then .any
  else if part ∈ ["real", "floa", "doub"] ∧ a = .numeric then .real
  else a

/-- What all parts of four characters together prefer. -/
def ofParts : Affinity → List Char → Affinity
  | a, [] => a
  | a, c :: cs => ofParts (a.refine (String.ofList ((c :: cs).take 4))) cs

def ofType (type : String) : Affinity :=
  let cs := (Text.foldCase type).toList
  if cs.isEmpty then .any
  else if Text.occursIn "int".toList cs then .numeric
  else ofParts .numeric cs

/-- A value in the form in which a column keeps it. -/
def keep : Affinity → Cell → Cell
  | .any, v => v
  | .text, .int n => .text (Text.integer n)
  | .text, .real x => .text (realText x)
  | .text, v => v
  | .numeric, v => asNumber v
  | .real, v =>
    match asNumber v with
    | .int n => .real (.ofInt n)
    | v => v

/-- What two columns that are compared with each other prefer together. -/
def common (a b : Affinity) : Affinity :=
  if a = .numeric ∨ a = .real ∨ b = .numeric ∨ b = .real then .numeric else .any

end Affinity

end EntityStore.Engine
