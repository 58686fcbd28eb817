import EntityStore.Text.Hex
import EntityStore.Text.Utf8

namespace EntityStore.Text.FormEncoded

/-- The byte of two hexadecimal digits. -/
def hexByte? (high low : UInt8) : Option UInt8 :=
  match hexValue? (Char.ofNat high.toNat), hexValue? (Char.ofNat low.toNat) with
  | some h, some l => some (UInt8.ofNat (h * 16 + l))
  | _, _ => none

/-- Bytes with every percent sign that two digits follow undone; other percent signs stay. -/
def undoPercent : List UInt8 → List UInt8
  | [] => []
  | b :: high :: low :: rest =>
    if b = 37 then
      match hexByte? high low with
      | some byte => byte :: undoPercent rest
      | none => b :: undoPercent (high :: low :: rest)
    else b :: undoPercent (high :: low :: rest)
  | b :: rest => b :: undoPercent rest

def percentDecoded (s : String) : List UInt8 := undoPercent s.toUTF8.toList

/-- What a name or a value stands for. -/
def decode (s : String) : String :=
  Utf8.lenient (percentDecoded (String.ofList (s.toList.map fun c => if c = '+' then ' ' else c)))

/-- A parameter, cut at its first equals sign; without one its value is empty. -/
def pair (s : String) : String × String :=
  match s.splitOn "=" with
  | [] => ("", "")
  | name :: value => (decode name, decode ("=".intercalate value))

/-- The parameters of a text; empty ones are skipped. -/
def pairs (s : String) : List (String × String) :=
  ((s.splitOn "&").filter fun part => part ≠ "").map pair

end EntityStore.Text.FormEncoded
