import EntityStore.Time.Instant
import EntityStore.Text.Decimal

namespace EntityStore.Time

/-- What is wrong with the text of an instant. -/
inductive TextFault where
  | premature
  | invalid
  | outOfRange
  | trailing
  deriving DecidableEq

def TextFault.message : TextFault → String
  | .premature => "premature end of input"
  | .invalid => "input contains invalid characters"
  | .outOfRange => "input is out of range"
  | .trailing => "trailing input"

/-- Four digits for the years 0 to 9999; a sign and at least four digits for the others. -/
def yearText (y : Int) : String :=
  if 0 ≤ y ∧ y ≤ 9999 then Text.padded 4 y.toNat
  else (if y < 0 then "-" else "+") ++ Text.padded 4 y.natAbs

/-- The fraction of a second, as short as its value allows. -/
def fractionText (nanos : Nat) : String :=
  if nanos = 0 then ""
  else if nanos % 1000000 = 0 then "." ++ Text.padded 3 (nanos / 1000000)
  else if nanos % 1000 = 0 then "." ++ Text.padded 6 (nanos / 1000)
  else "." ++ Text.padded 9 nanos

/-- The instant in universal time, with the given mark for the zero offset. -/
def text (zone : String) (t : Instant) : String :=
  let d := t.date
  let s := t.secondOfDay
  yearText d.year ++ "-" ++ Text.padded 2 d.month ++ "-" ++ Text.padded 2 d.day ++ "T" ++
    Text.padded 2 (s / 3600) ++ ":" ++ Text.padded 2 (s / 60 % 60) ++ ":" ++
    Text.padded 2 (s % 60 + t.nanos / 1000000000) ++ fractionText (t.nanos % 1000000000) ++ zone

/-- Bytes that characters take in UTF-8. -/
def byteCount (cs : List Char) : Nat := (cs.map Char.utf8Size).foldr (· + ·) 0

abbrev Reader (α : Type) := List Char → Except TextFault (α × List Char)

/-- Exactly `count` digits. -/
def fixedDigits : Nat → Nat → Reader Nat
  | 0, value, cs => .ok (value, cs)
  | count + 1, value, c :: cs =>
    match Text.digit? c with
    | some d => fixedDigits count (value * 10 + d) cs
    | none => .error .invalid
  | _ + 1, _, [] => .error .premature

/-- One of the given characters. -/
def mark (allowed : List Char) : Reader Unit
  | c :: cs => if allowed.contains c then .ok ((), cs) else .error .invalid
  | [] => .error .premature

/-- One to nine digits as nanoseconds; further digits are passed over. -/
def fraction : Reader Nat := fun cs =>
  match Text.takeDigits 9 cs with
  | ([], []) => .error .premature
  | ([], _ :: _) => .error .invalid
  | (ds, rest) => .ok (Text.ofDigits ds * Nat.pow 10 (9 - ds.length), rest.dropWhile Char.isDigit)

/-- Two digits, where a lack of bytes is reported before a wrong character. -/
def twoDigits : Reader (Nat × Nat) := fun cs =>
  if byteCount cs < 2 then .error .premature
  else match cs with
    | a :: b :: rest =>
      match Text.digit? a, Text.digit? b with
      | some x, some y => .ok ((x, y), rest)
      | _, _ => .error .invalid
    | _ => .error .invalid

/-- A zone: `Z`, or a sign, hours, a separator and minutes, as seconds east. -/
def zone (separator : Reader Unit) : Reader Int
  | [] => .error .premature
  | c :: cs =>
    if c = 'Z' ∨ c = 'z' then .ok (0, cs)
    else if c = '+' ∨ c = '-' ∨ c = '\u2212' then do
      let ((h, h'), cs) ← twoDigits cs
      let (_, cs) ← separator cs
      let ((m, m'), cs) ← twoDigits cs
      if 6 ≤ m then .error .outOfRange
      let offset : Int := (h * 10 + h') * 3600 + (m * 10 + m') * 60
      .ok (if c = '+' then offset else -offset, cs)
    else .error .invalid

/-- The instant of a date and time of day with an offset; second 60 is the leap second. -/
def assemble (d : Date) (hour minute second nanos : Nat) (offset : Int) : Instant :=
  let leap := second = 60
  ⟨d.dayNumber * 86400 + (hour * 3600 + minute * 60 + (if leap then 59 else second) : Nat) - offset,
    nanos + if leap then 1000000000 else 0⟩

/-- Reads the written shape only, with any offset. -/
def readStrict (s : String) : Except TextFault Instant := do
  let cs := s.toList
  if byteCount cs < 19 then .error .premature
  let (year, cs) ← fixedDigits 4 0 cs
  let (_, cs) ← mark ['-'] cs
  let (month, cs) ← fixedDigits 2 0 cs
  let (_, cs) ← mark ['-'] cs
  let (day, cs) ← fixedDigits 2 0 cs
  let date : Date := ⟨year, month, day⟩
  if !date.exists then .error .outOfRange
  let (_, cs) ← mark ['T', 't', ' '] cs
  let (hour, cs) ← fixedDigits 2 0 cs
  let (_, cs) ← mark [':'] cs
  let (minute, cs) ← fixedDigits 2 0 cs
  let (_, cs) ← mark [':'] cs
  let (second, cs) ← fixedDigits 2 0 cs
  let (nanos, cs) ← match cs with
    | '.' :: rest => fraction rest
    | _ => .ok (0, cs)
  if 24 ≤ hour ∨ 60 ≤ minute ∨ 61 ≤ second then .error .outOfRange
  let (offset, cs) ← zone (mark [':']) cs
  if !cs.isEmpty then .error .trailing
  if 86400 ≤ offset.natAbs then .error .outOfRange
  .ok (assemble date hour minute second nanos offset)

/-- Blanks of Unicode that a lenient reader passes over. -/
def isBlank (c : Char) : Bool :=
  c == ' ' || ('\t' ≤ c && c ≤ '\r') || c == '\u0085' || c == '\u00a0' || c == '\u1680' ||
    ('\u2000' ≤ c && c ≤ '\u200a') || c == '\u2028' || c == '\u2029' || c == '\u202f' ||
    c == '\u205f' || c == '\u3000'

def skipBlanks (cs : List Char) : List Char := cs.dropWhile isBlank

/-- One up to `limit` digits. -/
def digits (limit : Nat) : Reader Nat := fun cs =>
  match Text.takeDigits limit cs with
  | ([], []) => .error .premature
  | ([], _ :: _) => .error .invalid
  | (ds, rest) => .ok (Text.ofDigits ds, rest)

/-- One up to `limit` digits after blanks. -/
def number (limit : Nat) : Reader Nat := fun cs => digits limit (skipBlanks cs)

/-- A year after blanks: up to four digits, or a sign and any number of them. -/
def year : Reader Int := fun cs =>
  match skipBlanks cs with
  | '-' :: rest => (digits rest.length rest).map fun (n, r) => (-(n : Int), r)
  | '+' :: rest => (digits rest.length rest).map fun (n, r) => ((n : Int), r)
  | rest => (digits 4 rest).map fun (n, r) => ((n : Int), r)

/-- Reads dates and times with blanks between the parts and any number of digits up to the
expected one. -/
def readLenient (s : String) : Except TextFault Instant := do
  let (year, cs) ← year s.toList
  let (_, cs) ← mark ['-'] (skipBlanks cs)
  let (month, cs) ← number 2 cs
  let (_, cs) ← mark ['-'] (skipBlanks cs)
  let (day, cs) ← number 2 cs
  let (_, cs) ← mark ['T', 't', ' '] cs
  let (hour, cs) ← number 2 cs
  let (_, cs) ← mark [':'] (skipBlanks cs)
  let (minute, cs) ← number 2 cs
  let (_, cs) ← mark [':'] (skipBlanks cs)
  let (second, cs) ← number 2 cs
  let (nanos, cs) ← match cs with
    | '.' :: rest => fraction rest
    | _ => .ok (0, cs)
  let cs := skipBlanks cs
  let (offset, cs) ←
    if (cs.take 3).map Char.toUpper = ['U', 'T', 'C'] then .ok ((0 : Int), cs.drop 3)
    else zone (fun rest => .ok ((), rest.dropWhile fun c => c == ':' || isBlank c)) cs
  if !(skipBlanks cs).isEmpty then .error .trailing
  let date : Date := ⟨year, month, day⟩
  if !date.exists ∨ year < firstYear ∨ lastYear < year ∨ 24 ≤ hour ∨ 60 ≤ minute ∨ 61 ≤ second ∨
      86400 ≤ offset.natAbs then .error .outOfRange
  let t := assemble date hour minute second nanos offset
  if Instant.inRange t.seconds then .ok t else .error .outOfRange

end EntityStore.Time
