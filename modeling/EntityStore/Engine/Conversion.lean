import EntityStore.Engine.Cell
import EntityStore.Number.Shortest

namespace EntityStore.Engine.Conversion

/-- The integer that a floating point number is, if it is one of 64 bits. -/
def whole? (x : Binary64) : Option Int :=
  let down := Nat.pow 2 (-x.scale).toNat
  let size := x.mantissa * Nat.pow 2 x.scale.toNat / down
  if x.isFinite && x.mantissa % down == 0 && decide (size < Nat.pow 2 63) then
    some (if x.negative then -(size : Int) else size)
  else none

/-- The decimal of fifteen digits that is nearest to `m · 2 ^ q`, the larger of two. -/
def fifteen (m : Nat) (q : Int) : Shortest.Decimal :=
  let e := Shortest.leading m q - 14
  let value := m * Nat.pow 2 q.toNat * Nat.pow 10 (-e).toNat
  let unit := Nat.pow 2 (-q).toNat * Nat.pow 10 e.toNat
  Shortest.dropZeros 16 ⟨(2 * value + unit) / (2 * unit), e⟩

/-- A decimal with one digit before the point, at least one behind it, and an exponent. -/
def exponential (d : Shortest.Decimal) : String :=
  let digits := (Nat.repr d.digits).toList
  let rest := digits.drop 1
  let exponent : Int := rest.length + d.exponent
  String.ofList (digits.take 1 ++ '.' :: if rest.isEmpty then ['0'] else rest) ++
    (if exponent < 0 then "e-" else "e+") ++ Text.padded 2 exponent.natAbs

/-- A decimal with a point, and with an exponent if its leading digit is far from the point. -/
def decimalText (d : Shortest.Decimal) : String :=
  let lead : Int := (Nat.repr d.digits).length + d.exponent - 1
  if lead < -4 ∨ 14 < lead then exponential d
  else if 0 ≤ d.exponent then Shortest.positional d ++ ".0"
  else Shortest.positional d

def realText (x : Binary64) : String :=
  if x.isZero then "0.0"
  else Shortest.sign x ++
    if x.isFinite then decimalText (fifteen x.mantissa x.scale) else "Inf"

/-- Blanks that may stand around a number. -/
def isSpace (c : Char) : Bool := c == ' ' || (9 ≤ c.toNat && c.toNat ≤ 13)

def takeSign : List Char → Bool × List Char
  | '-' :: cs => (true, cs)
  | '+' :: cs => (false, cs)
  | cs => (false, cs)

def takeRun (cs : List Char) : List Nat × List Char := Text.takeDigits cs.length cs

def takeFraction : List Char → Option (List Nat) × List Char
  | '.' :: cs => let r := takeRun cs; (some r.1, r.2)
  | cs => (none, cs)

/-- An exponent that is so large stands for every larger one. -/
def largestExponent : Nat := 10000

def takeExponent? : List Char → Option (Option Int × List Char)
  | c :: cs =>
    if c = 'e' ∨ c = 'E' then
      let (negative, cs) := takeSign cs
      match takeRun cs with
      | ([], _) => none
      | (ds, rest) =>
        let n : Int := min (Text.ofDigits ds) largestExponent
        some (some (if negative then -n else n), rest)
    else some (none, c :: cs)
  | [] => some (none, [])

def nearest (negative : Bool) (n : Nat) (e : Int) : Binary64 :=
  Binary64.ofRatio negative (n * Nat.pow 10 e.toNat) (Nat.pow 10 (-e).toNat)

/-- The number that a text is: an integer if it is written as one and fits. -/
def number? (s : String) : Option Cell := do
  let (negative, cs) := takeSign (s.toList.dropWhile isSpace)
  let (ds, cs) := takeRun cs
  let (fraction, cs) := takeFraction cs
  let (exponent, cs) ← takeExponent? cs
  let digits := ds ++ fraction.getD []
  if digits.isEmpty || !cs.all isSpace then none
  let n : Int := if negative then -(Text.ofDigits digits : Int) else Text.ofDigits digits
  if fraction.isNone && exponent.isNone &&
      decide (Int64.minValue.toInt ≤ n ∧ n ≤ Int64.maxValue.toInt) then some (.int n)
  else some (.real (nearest negative n.natAbs (exponent.getD 0 - (fraction.getD []).length)))

def simplest : Cell → Cell
  | .real x => ((whole? x).map .int).getD (.real x)
  | v => v

def asNumber : Cell → Cell
  | .text s => simplest ((number? s).getD (.text s))
  | v => simplest v

end EntityStore.Engine.Conversion
