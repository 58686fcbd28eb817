import EntityStore.Number.Binary64
import EntityStore.Text.Decimal

namespace EntityStore.Shortest

/-- Which of two equally near decimals is taken. -/
inductive Tie where
  | even
  | up
  deriving DecidableEq

/-- A decimal `digits · 10 ^ exponent`. -/
structure Decimal where
  digits : Nat
  exponent : Int
  deriving DecidableEq

/-- `10 ^ e ≤ m · 2 ^ q`, decided without fractions. -/
def reaches (m : Nat) (q e : Int) : Bool :=
  decide (Nat.pow 10 e.toNat * Nat.pow 2 (-q).toNat ≤
    m * Nat.pow 2 q.toNat * Nat.pow 10 (-e).toNat)

/-- The exponent of the leading decimal digit of `m · 2 ^ q`. -/
def leading (m : Nat) (q : Int) : Int :=
  let guess := ((Nat.log2 m : Int) + q) * 30103 / 100000
  if reaches m q (guess + 1) then guess + 1 else guess

/-- Whether `m` is the least mantissa of its exponent, so that the number below is half as far as
the number above. -/
def narrow (m : Nat) (q : Int) : Bool := m == Nat.pow 2 52 && decide (-1074 < q)

/-- The nearer of the two multiples of `10 ^ e` around `m · 2 ^ q` that read back as it. -/
def onGrid (tie : Tie) (m : Nat) (q e : Int) : Option Nat :=
  let up := Nat.pow 2 (q - 2).toNat * Nat.pow 10 (-e).toNat
  let unit := Nat.pow 2 (2 - q).toNat * Nat.pow 10 e.toNat
  let value := 4 * m * up
  let low := (4 * m - if narrow m q then 1 else 2) * up
  let high := (4 * m + 2) * up
  let readsBack (d : Nat) : Bool :=
    if m % 2 = 0 then decide (low ≤ d * unit ∧ d * unit ≤ high)
    else decide (low < d * unit ∧ d * unit < high)
  let below := value / unit
  let above := below + 1
  match readsBack below, readsBack above with
  | false, false => none
  | true, false => some below
  | false, true => some above
  | true, true =>
    let toBelow := value - below * unit
    let toAbove := above * unit - value
    if toBelow < toAbove then some below
    else if toAbove < toBelow then some above
    else match tie with
      | .up => some above
      | .even => some (if below % 2 = 0 then below else above)

/-- The first grid with a decimal that reads back, from `count` digits on. -/
def search (tie : Tie) (m : Nat) (q lead : Int) : Nat → Nat → Decimal
  | 0, count => ⟨m * Nat.pow 2 q.toNat / Nat.pow 10 (lead - count + 1).toNat, lead - count + 1⟩
  | fuel + 1, count =>
    let e := lead - count + 1
    match onGrid tie m q e with
    | some d => ⟨d, e⟩
    | none => search tie m q lead fuel (count + 1)

/-- Trailing zeros moved from the digits into the exponent. -/
def dropZeros : Nat → Decimal → Decimal
  | 0, d => d
  | fuel + 1, d =>
    if d.digits ≠ 0 ∧ d.digits % 10 = 0 then dropZeros fuel ⟨d.digits / 10, d.exponent + 1⟩ else d

/-- The shortest decimal that reads back as `m · 2 ^ q`, the nearest one of that length. -/
def ofScaled (tie : Tie) (m : Nat) (q : Int) : Decimal :=
  dropZeros 17 (search tie m q (leading m q) 17 1)

/-- Digits with the decimal point where it belongs, and no exponent. -/
def positional (d : Decimal) : String :=
  let digits := (Nat.repr d.digits).toList
  let point : Int := digits.length + d.exponent
  let chars :=
    if 0 ≤ d.exponent then digits ++ List.replicate d.exponent.toNat '0'
    else if 0 < point then digits.take point.toNat ++ '.' :: digits.drop point.toNat
    else '0' :: '.' :: (List.replicate (-point).toNat '0' ++ digits)
  String.ofList chars

def sign (x : Binary64) : String := if x.negative then "-" else ""

/-- Digits with a point after the first one, if more follow, and an exponent. -/
def scientific (d : Decimal) : String :=
  let digits := (Nat.repr d.digits).toList
  let rest := digits.drop 1
  String.ofList (digits.take 1 ++ if rest.isEmpty then [] else '.' :: rest) ++ "e" ++
    Text.integer (rest.length + d.exponent)

/-- The number with its sign; `finite` writes the decimal of a number that is not zero. -/
def signed (zero : String) (finite : Decimal → String) (x : Binary64) : String :=
  if x.isNaN then "NaN"
  else if !x.isFinite then sign x ++ "inf"
  else if x.isZero then sign x ++ zero
  else sign x ++ finite (ofScaled .up x.mantissa x.scale)

/-- The number without exponent; of two equally near decimals the larger in size. -/
def plain (x : Binary64) : String := signed "0" positional x

/-- A decimal with a point or an exponent. It has an exponent if its leading digit stands before the
sixteenth place or behind the fourth one after the point. -/
def marked (d : Decimal) : String :=
  let lead : Int := (Nat.repr d.digits).length + d.exponent - 1
  if lead < -4 ∨ 16 ≤ lead then scientific d
  else if 0 ≤ d.exponent then positional d ++ ".0"
  else positional d

/-- The number in a form that no integer has. -/
def distinct (x : Binary64) : String := signed "0.0" marked x

end EntityStore.Shortest
