namespace EntityStore.Text

/-- An integer in decimal digits, with a sign only when it is negative. -/
def integer (n : Int) : String :=
  if n < 0 then "-" ++ Nat.repr n.natAbs else Nat.repr n.natAbs

/-- A natural number in at least `width` digits. -/
def padded (width n : Nat) : String :=
  let digits := (Nat.repr n).toList
  String.ofList (List.replicate (width - digits.length) '0' ++ digits)

def digit? (c : Char) : Option Nat := if c.isDigit then some (c.toNat - '0'.toNat) else none

def ofDigits (digits : List Nat) : Nat := digits.foldl (fun n d => n * 10 + d) 0

/-- The longest run of decimal digits at the start, at most `limit` of them, and the rest. -/
def takeDigits : Nat → List Char → List Nat × List Char
  | 0, cs => ([], cs)
  | _ + 1, [] => ([], [])
  | limit + 1, c :: cs =>
    match digit? c with
    | none => ([], c :: cs)
    | some d => let r := takeDigits limit cs; (d :: r.1, r.2)

/-- A decimal integer with an optional minus sign and nothing else around it. -/
def readInteger? (s : String) : Option Int :=
  let (negative, body) := match s.toList with
    | '-' :: cs => (true, cs)
    | cs => (false, cs)
  match takeDigits body.length body with
  | (d :: ds, []) =>
    let n : Int := ofDigits (d :: ds)
    some (if negative then -n else n)
  | _ => none

end EntityStore.Text
