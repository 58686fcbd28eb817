namespace EntityStore.Text.Utf8

/-- What some bytes at the front are. -/
inductive Piece where
  | char (c : Char)
  /-- Bytes that begin a character at most, and go on otherwise. -/
  | wrong
  /-- The beginning of a character that the end cuts off. -/
  | cut
  deriving DecidableEq

/-- The rest of a character of which `size` bytes with the value `code` are read: `n` more are
expected, the next one between `low` and `high`. -/
def continued (code size : Nat) : Nat → Nat → Nat → List UInt8 → Piece × Nat
  | 0, _, _, _ => (.char (Char.ofNat code), size)
  | _ + 1, _, _, [] => (.cut, size)
  | n + 1, low, high, b :: rest =>
    if low ≤ b.toNat ∧ b.toNat ≤ high then
      continued (code * 64 + b.toNat % 64) (size + 1) n 0x80 0xbf rest
    else (.wrong, size)

/-- The piece that a byte begins, and its size. The second byte excludes longer forms than needed,
halves of characters, and numbers past the last character. -/
def front (first : UInt8) (rest : List UInt8) : Piece × Nat :=
  let n := first.toNat
  if n < 0x80 then (.char (Char.ofNat n), 1)
  else if n < 0xc2 ∨ 0xf4 < n then (.wrong, 1)
  else if n < 0xe0 then continued (n % 32) 1 1 0x80 0xbf rest
  else if n < 0xf0 then
    continued (n % 16) 1 2 (if n = 0xe0 then 0xa0 else 0x80) (if n = 0xed then 0x9f else 0xbf) rest
  else
    continued (n % 8) 1 3 (if n = 0xf0 then 0x90 else 0x80) (if n = 0xf4 then 0x8f else 0xbf) rest

/-- Bytes cut into pieces, each with its size, after `skip` bytes that belong to a piece already. -/
def piecesAfter : Nat → List UInt8 → List (Piece × Nat)
  | _, [] => []
  | skip + 1, _ :: rest => piecesAfter skip rest
  | 0, b :: rest =>
    let piece := front b rest
    piece :: piecesAfter (piece.2 - 1) rest

def pieces (bytes : List UInt8) : List (Piece × Nat) := piecesAfter 0 bytes

/-- The text of bytes, with a replacement character for each piece that is none. -/
def lenient (bytes : List UInt8) : String :=
  String.ofList ((pieces bytes).map fun
    | (.char c, _) => c
    | _ => '\ufffd')

/-- Where and how bytes fail to be a text. -/
inductive Fault where
  | wrong (size index : Nat)
  | cut (index : Nat)
  deriving DecidableEq

def Fault.message : Fault → String
  | .wrong size index =>
    "invalid utf-8 sequence of " ++ Nat.repr size ++ " bytes from index " ++ Nat.repr index
  | .cut index => "incomplete utf-8 byte sequence from index " ++ Nat.repr index

/-- The first fault of pieces that begin at an index. -/
def firstFault? (index : Nat) : List (Piece × Nat) → Option Fault
  | [] => none
  | (.char _, size) :: rest => firstFault? (index + size) rest
  | (.wrong, size) :: _ => some (.wrong size index)
  | (.cut, _) :: _ => some (.cut index)

/-- The first fault of bytes as a text. -/
def fault? (bytes : List UInt8) : Option Fault := firstFault? 0 (pieces bytes)

end EntityStore.Text.Utf8
