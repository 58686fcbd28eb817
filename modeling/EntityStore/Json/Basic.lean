import EntityStore.Number.Shortest

namespace EntityStore

/-- A number as written: digits before the point, digits after it, and the exponent. -/
structure Numeral where
  negative : Bool
  whole : List Nat
  fraction : Option (List Nat)
  exponent : Option Int
  deriving DecidableEq

inductive Json where
  | null
  | bool (b : Bool)
  | number (n : Numeral)
  | text (s : String)
  /-- A text that stands for no characters, since it escapes half a character without the other
  half, or an object with such a key. It can be skipped but not used. -/
  | garbled
  | list (items : List Json)
  | object (members : List (String × Json))

namespace Numeral

/-- Largest significand that is kept exactly while a floating point number is read. -/
def maxSignificand : Nat := Nat.pow 2 64 - 1

/-- The integer written without fraction and exponent, if it fits a word; minus zero is none. -/
def toInt? (n : Numeral) : Option Int :=
  match n.fraction, n.exponent with
  | none, none =>
    let value := Text.ofDigits n.whole
    if n.negative then (if value = 0 ∨ Nat.pow 2 63 < value then none else some (-(value : Int)))
    else if value ≤ maxSignificand then some value else none
  | _, _ => none

/-- Digits before the point: after the first that no longer fits, each only counts as a place. -/
def takeWhole : Nat → List Nat → Nat × Int
  | m, [] => (m, 0)
  | m, d :: ds =>
    if m * 10 + d ≤ maxSignificand then takeWhole (m * 10 + d) ds else (m, (ds.length + 1 : Nat))

/-- Digits after the point, up to the first that does not fit. -/
def takeFraction : Nat → Int → List Nat → Nat × Int
  | m, e, [] => (m, e)
  | m, e, d :: ds =>
    if m * 10 + d ≤ maxSignificand then takeFraction (m * 10 + d) (e - 1) ds else (m, e)

/-- A power of ten up to the 308th as a floating point number. -/
def powerOfTen (k : Nat) : Binary64 := Binary64.ofRatio false (Nat.pow 10 k) 1

/-- `x · 10 ^ (-k)` in steps that a power of ten can divide by. -/
def divideDown (x : Binary64) : Nat → Nat → Binary64
  | 0, _ => x
  | fuel + 1, k =>
    if k ≤ 308 then x.div (powerOfTen k)
    else if x.isZero then x
    else divideDown (x.div (powerOfTen 308)) fuel (k - 308)

/-- The floating point number: the significand is rounded first and then scaled by one rounded
power of ten, so long numerals can be off by a unit in the last place. None past the largest. -/
def toFloat? (n : Numeral) : Option Binary64 :=
  let (m, places) := takeWhole 0 n.whole
  let (m, e) := takeFraction m places (n.fraction.getD [])
  let e := e + n.exponent.getD 0
  let x := Binary64.ofInt m
  let signed (x : Binary64) := Binary64.ofMagnitude n.negative x.magnitude
  if e < 0 then some (signed (divideDown x ((-e).toNat + 1) (-e).toNat))
  else if x.isZero then some (signed x)
  else if 308 < e then none
  else
    let y := if e = 0 then x else x.mul (powerOfTen e.toNat)
    if y.isFinite then some (signed y) else none

/-- The decimal digits of a number, the most significant first. -/
def digitsOf (n : Nat) : List Nat := (Nat.repr n).toList.filterMap Text.digit?

/-- The numeral of a finite number, in the fewest digits that read back. It has a point unless it
has an exponent, and an exponent unless its leading digit stands between the fifth place after the
point and the sixteenth before it. -/
def ofFloat (x : Binary64) : Numeral :=
  if x.isZero then ⟨x.negative, [0], some [0], none⟩
  else
    let d := Shortest.ofScaled .even x.mantissa x.scale
    let digits := digitsOf d.digits
    let point : Int := digits.length + d.exponent
    if 0 ≤ d.exponent ∧ point ≤ 16 then
      ⟨x.negative, digits ++ List.replicate d.exponent.toNat 0, some [0], none⟩
    else if 0 < point ∧ point ≤ 16 then
      ⟨x.negative, digits.take point.toNat, some (digits.drop point.toNat), none⟩
    else if -5 < point ∧ point ≤ 16 then
      ⟨x.negative, [0], some (List.replicate (-point).toNat 0 ++ digits), none⟩
    else
      let rest := digits.drop 1
      ⟨x.negative, digits.take 1, if rest.isEmpty then none else some rest, some (point - 1)⟩

def ofInt (n : Int) : Numeral :=
  ⟨decide (n < 0), digitsOf n.natAbs, none, none⟩

end Numeral

namespace Json

/-- The value of a key, the first one if it is repeated. -/
def get? (j : Json) (key : String) : Option Json :=
  match j with
  | .object members => (members.find? fun m => m.1 == key).map (·.2)
  | _ => none

def ofInt (n : Int) : Json := .number (.ofInt n)

/-- A floating point number; documents have no infinities and write null for them. -/
def ofFloat (x : Binary64) : Json := if x.isFinite then .number (.ofFloat x) else .null

end Json

end EntityStore
