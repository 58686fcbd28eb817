namespace EntityStore

/-- A floating point number: a sign, eleven bits of exponent and fifty-two of fraction. -/
structure Binary64 where
  bits : UInt64
  deriving DecidableEq, Inhabited

namespace Binary64

def infinityBits : Nat := 0x7ff0000000000000

def negative (x : Binary64) : Bool := decide (Nat.pow 2 63 ≤ x.bits.toNat)

def magnitude (x : Binary64) : Nat := x.bits.toNat % Nat.pow 2 63

def isNaN (x : Binary64) : Bool := decide (infinityBits < x.magnitude)

def isFinite (x : Binary64) : Bool := decide (x.magnitude < infinityBits)

def isZero (x : Binary64) : Bool := x.magnitude == 0

/-- The integer factor of a finite number, its sign left out. -/
def mantissa (x : Binary64) : Nat :=
  if x.magnitude < Nat.pow 2 52 then x.magnitude else x.magnitude % Nat.pow 2 52 + Nat.pow 2 52

/-- The power of two that the mantissa is multiplied with. -/
def scale (x : Binary64) : Int := (max (x.magnitude / Nat.pow 2 52) 1 : Nat) - 1075

/-- Equality as numbers: both zeros are equal, and NaN equals nothing. -/
def equals (x y : Binary64) : Bool :=
  !x.isNaN && !y.isNaN && (x.bits == y.bits || (x.isZero && y.isZero))

/-- The number with the given sign and lower 63 bits. -/
def ofMagnitude (negative : Bool) (magnitude : Nat) : Binary64 :=
  ⟨UInt64.ofNat (magnitude + if negative then Nat.pow 2 63 else 0)⟩

/-- The number nearest to `num / den`; beyond the largest finite number, infinity. -/
def ofRatio (negative : Bool) (num den : Nat) : Binary64 :=
  if num = 0 then ofMagnitude negative 0
  else
    let scaled (e : Int) : Nat × Nat :=
      if e < 0 then (num * Nat.pow 2 (-e).toNat, den) else (num, den * Nat.pow 2 e.toNat)
    let guess : Int := (Nat.log2 num : Int) - Nat.log2 den - 52
    let tight := if (scaled guess).1 / (scaled guess).2 < Nat.pow 2 52 then guess - 1 else guess
    let e := max tight (-1074)
    let (n, d) := scaled e
    let floor := n / d
    let rest := n % d
    let rounded :=
      if d < 2 * rest || (d == 2 * rest && floor % 2 == 1) then floor + 1 else floor
    ofMagnitude negative (min ((e + 1074).toNat * Nat.pow 2 52 + rounded) infinityBits)

def ofScaled (negative : Bool) (m : Nat) (q : Int) : Binary64 :=
  if q < 0 then ofRatio negative m (Nat.pow 2 (-q).toNat)
  else ofRatio negative (m * Nat.pow 2 q.toNat) 1

def ofInt (n : Int) : Binary64 := ofRatio (decide (n < 0)) n.natAbs 1

/-- The number with the value of a 32-bit floating point number; a NaN becomes a quiet one. -/
def ofBinary32 (bits : UInt32) : Binary64 :=
  let negative := decide (Nat.pow 2 31 ≤ bits.toNat)
  let magnitude := bits.toNat % Nat.pow 2 31
  let fraction := magnitude % Nat.pow 2 23
  if magnitude / Nat.pow 2 23 = 255 then
    ofMagnitude negative
      (infinityBits + if fraction = 0 then 0
        else Nat.pow 2 51 + fraction % Nat.pow 2 22 * Nat.pow 2 29)
  else if magnitude < Nat.pow 2 23 then ofScaled negative fraction (-149)
  else ofScaled negative (fraction + Nat.pow 2 23) ((magnitude / Nat.pow 2 23 : Nat) - 150)

def mul (x y : Binary64) : Binary64 :=
  ofScaled (x.negative != y.negative) (x.mantissa * y.mantissa) (x.scale + y.scale)

/-- The rounded quotient of a finite number by a finite number that is not zero. -/
def div (x y : Binary64) : Binary64 :=
  let q := x.scale - y.scale
  if q < 0 then ofRatio (x.negative != y.negative) x.mantissa (y.mantissa * Nat.pow 2 (-q).toNat)
  else ofRatio (x.negative != y.negative) (x.mantissa * Nat.pow 2 q.toNat) y.mantissa

/-- Position among the numbers other than NaN: the order of these keys is the order of the
numbers, and both zeros have the key zero. -/
def orderKey (x : Binary64) : Int := if x.negative then -(x.magnitude : Int) else x.magnitude

/-- How a number that is not NaN compares with an integer, exactly. -/
def compareInt (x : Binary64) (n : Int) : Ordering :=
  if !x.isFinite then (if x.negative then .lt else .gt)
  else
    let m : Int := if x.negative then -(x.mantissa : Int) else x.mantissa
    if x.scale < 0 then compare m (n * Int.pow 2 (-x.scale).toNat)
    else compare (m * Int.pow 2 x.scale.toNat) n

end Binary64

end EntityStore
