import EntityStore.Engine.Fault

namespace EntityStore.Engine

/-- Where a reader of a statement's text is. Names are written backwards, with their first quote. -/
inductive TextPlace where
  | outside
  | inside (name : List Char)
  /-- Behind a quote in a name, which either ends it or is the first of two. -/
  | behindQuote (name : List Char)

/-- Where the reader is after one more character. -/
def TextPlace.next : TextPlace → Char → TextPlace
  | .outside, c => if c = '"' then .inside ['"'] else .outside
  | .inside name, c => if c = '"' then .behindQuote name else .inside (c :: name)
  | .behindQuote name, c => if c = '"' then .inside ('"' :: '"' :: name) else .outside

/-- Refuses a text with a NUL in it. -/
def checkText (sql : String) : Except Fault Unit :=
  if sql.toList.contains '\x00' then
    match (sql.toList.takeWhile fun c => c ≠ '\x00').foldl TextPlace.next .outside with
    | .inside name => .error (.unrecognized (String.ofList name.reverse))
    | _ => .error .incomplete
  else .ok ()

end EntityStore.Engine
