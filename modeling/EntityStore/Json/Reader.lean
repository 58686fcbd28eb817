import EntityStore.Json.Basic
import EntityStore.Text.Hex

namespace EntityStore.Json

def isBlank (c : Char) : Bool := c == ' ' || c == '\n' || c == '\t' || c == '\r'

def skipBlanks (cs : List Char) : List Char := cs.dropWhile isBlank

/-- What an escaped character stands for. -/
def unescape? (c : Char) : Option Char :=
  if c = '"' ∨ c = '\\' ∨ c = '/' then some c
  else if c = 'n' then some '\n'
  else if c = 'r' then some '\r'
  else if c = 't' then some '\t'
  else if c = 'b' then some '\x08'
  else if c = 'f' then some '\x0c'
  else none

/-- The character of two halves of sixteen bits each. -/
def ofSurrogates? (high low : Nat) : Option Char :=
  if 0xd800 ≤ high ∧ high < 0xdc00 ∧ 0xdc00 ≤ low ∧ low < 0xe000 then
    some (Char.ofNat (0x10000 + (high - 0xd800) * 0x400 + (low - 0xdc00)))
  else none

/-- A part of a text: a character, or an escaped half of one. -/
inductive TextPart where
  | char (c : Char)
  | half (n : Nat)

/-- The characters of some parts, if every half is next to its other half. -/
def joinHalves : List TextPart → Option (List Char)
  | [] => some []
  | .char c :: parts => (joinHalves parts).map (c :: ·)
  | .half high :: .half low :: parts =>
    match ofSurrogates? high low, joinHalves parts with
    | some c, some cs => some (c :: cs)
    | _, _ => none
  | .half _ :: _ => none

/-- What four hexadecimal digits stand for. -/
def unitPart (n : Nat) : TextPart :=
  if 0xd800 ≤ n ∧ n < 0xe000 then .half n else .char (Char.ofNat n)

/-- The parts up to the closing quote, escapes undone, and what follows the quote. -/
def textBody : List Char → Option (List TextPart × List Char)
  | '"' :: rest => some ([], rest)
  | '\\' :: 'u' :: a :: b :: c :: d :: rest =>
    match Text.hexNumber? [a, b, c, d] with
    | none => none
    | some n => (textBody rest).map fun r => (unitPart n :: r.1, r.2)
  | '\\' :: e :: rest =>
    match unescape? e with
    | none => none
    | some c => (textBody rest).map fun r => (.char c :: r.1, r.2)
  | c :: rest => if c.toNat < 32 then none else (textBody rest).map fun r => (.char c :: r.1, r.2)
  | [] => none

/-- A text with its quotes, none if it stands for no characters. -/
def readText? : List Char → Option (Option String × List Char)
  | '"' :: cs => (textBody cs).map fun r => ((joinHalves r.1).map String.ofList, r.2)
  | _ => none

/-- The document of a text. -/
def ofText? : Option String → Json
  | some s => .text s
  | none => .garbled

/-- The document of some members, garbled if a key is. -/
def ofMembers? (members : List (Option String × Json)) : Json :=
  match members.mapM fun m => m.1.map fun k => (k, m.2) with
  | some ms => .object ms
  | none => .garbled

def readDigits? (cs : List Char) : Option (List Nat × List Char) :=
  match Text.takeDigits cs.length cs with
  | ([], _) => none
  | r => some r

def readExponent? : List Char → Option (Option Int × List Char)
  | c :: cs =>
    if c = 'e' ∨ c = 'E' then
      let (negative, cs) := match cs with
        | '-' :: rest => (true, rest)
        | '+' :: rest => (false, rest)
        | rest => (false, rest)
      (readDigits? cs).map fun (ds, rest) =>
        let n : Int := Text.ofDigits ds
        (some (if negative then -n else n), rest)
    else some (none, c :: cs)
  | [] => some (none, [])

def readFraction? : List Char → Option (Option (List Nat) × List Char)
  | '.' :: cs => (readDigits? cs).map fun (ds, rest) => (some ds, rest)
  | cs => some (none, cs)

/-- A number: no leading zero before other digits, and a digit on both sides of a point. -/
def readNumber? (cs : List Char) : Option (Numeral × List Char) := do
  let (negative, cs) := match cs with
    | '-' :: rest => (true, rest)
    | rest => (false, rest)
  let (whole, cs) ← readDigits? cs
  if whole.length ≠ 1 ∧ whole.head? = some 0 then none
  let (fraction, cs) ← readFraction? cs
  let (exponent, cs) ← readExponent? cs
  some (⟨negative, whole, fraction, exponent⟩, cs)

/-- The characters after an expected run. -/
def expect? (word : List Char) (cs : List Char) : Option (List Char) :=
  if word.isPrefixOf cs then some (cs.drop word.length) else none

mutual

/-- A document at the front, blanks before it allowed. -/
def readValue? : Nat → List Char → Option (Json × List Char)
  | 0, _ => none
  | fuel + 1, cs =>
    match skipBlanks cs with
    | [] => none
    | c :: cs =>
      if c = '"' then (readText? (c :: cs)).map fun (s, rest) => (ofText? s, rest)
      else if c = '[' then
        match skipBlanks cs with
        | ']' :: rest => some (.list [], rest)
        | rest => (readItems? fuel rest).map fun (js, rest) => (.list js, rest)
      else if c = '\x7b' then
        match skipBlanks cs with
        | '\x7d' :: rest => some (.object [], rest)
        | rest => (readMembers? fuel rest).map fun (ms, rest) => (ofMembers? ms, rest)
      else if c = 'n' then (expect? ['u', 'l', 'l'] cs).map fun rest => (.null, rest)
      else if c = 't' then (expect? ['r', 'u', 'e'] cs).map fun rest => (.bool true, rest)
      else if c = 'f' then (expect? ['a', 'l', 's', 'e'] cs).map fun rest => (.bool false, rest)
      else (readNumber? (c :: cs)).map fun (n, rest) => (.number n, rest)

/-- Items and commas up to the closing bracket. -/
def readItems? : Nat → List Char → Option (List Json × List Char)
  | 0, _ => none
  | fuel + 1, cs => do
    let (j, cs) ← readValue? fuel cs
    match skipBlanks cs with
    | ',' :: rest =>
      let (js, rest) ← readItems? fuel rest
      some (j :: js, rest)
    | ']' :: rest => some ([j], rest)
    | _ => none

/-- Members and commas up to the closing brace. -/
def readMembers? : Nat → List Char → Option (List (Option String × Json) × List Char)
  | 0, _ => none
  | fuel + 1, cs => do
    let (k, cs) ← readText? (skipBlanks cs)
    let cs ← expect? [':'] (skipBlanks cs)
    let (j, cs) ← readValue? fuel cs
    match skipBlanks cs with
    | ',' :: rest =>
      let (ms, rest) ← readMembers? fuel rest
      some ((k, j) :: ms, rest)
    | '\x7d' :: rest => some ([(k, j)], rest)
    | _ => none

end

/-- The document that a text is. Every level of reading takes a character, so the length of the
text bounds their number. -/
def read? (s : String) : Option Json :=
  let cs := s.toList
  match readValue? (2 * cs.length + 1) cs with
  | some (j, rest) => if (skipBlanks rest).isEmpty then some j else none
  | none => none

end EntityStore.Json
