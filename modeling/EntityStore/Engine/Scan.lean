import EntityStore.Engine.Table

namespace EntityStore.Engine

open EntityStore.Sql (TableDef)

/-- The characters after the last place where a word occurs. -/
def afterLast? (word : List Char) : List Char → Option (List Char)
  | [] => none
  | c :: cs =>
    match afterLast? word cs with
    | some rest => some rest
    | none => if word.isPrefixOf (c :: cs) then some ((c :: cs).drop word.length) else none

/-- The first number in some characters; one that exceeds 32 bits does not count. -/
def firstNumber (cs : List Char) : Nat :=
  let n := Text.ofDigits (Text.takeDigits cs.length (cs.dropWhile fun c => !c.isDigit)).1
  if n < Nat.pow 2 31 then n else 0

/-- The size of a text or of bytes whose longest length is declared. -/
def limitedSize (cs : List Char) : Nat := min 255 (firstNumber cs / 4 + 1)

/-- The guessed size of a value of a declared type; that of an integer is one. -/
def columnSize (type : String) : Nat :=
  let cs := (Text.foldCase type).toList
  if Text.occursIn "int".toList cs then 1
  else match afterLast? "char".toList cs with
    | some rest => limitedSize rest
    | none =>
      if Text.occursIn "clob".toList cs || Text.occursIn "text".toList cs then 5
      else match afterLast? "blob".toList cs with
        | some ('(' :: rest) => limitedSize rest
        | some _ => 5
        | none => 1

/-- Ten times the binary logarithm of a size, rounded down to eight steps between powers of two. -/
def sizeClass (n : Nat) : Nat :=
  let exponent := Nat.log2 n
  10 * exponent + [0, 2, 3, 5, 6, 7, 8, 9].getD (n * 8 / Nat.pow 2 exponent - 8) 0

/-- The guessed size of a row; its number counts like a value. -/
def rowSize (d : TableDef) : Nat := (d.columns.map fun c => columnSize c.type).foldr (· + ·) 1

/-- The guessed size of an entry of the index. -/
def entrySize (d : TableDef) : Nat :=
  let sizes := d.keyIndexes.map fun i => (d.columns[i]?.map fun c => columnSize c.type).getD 0
  sizes.foldr (· + ·) 1

/-- Whether a statement that needs some columns reads the index of the key, which a table has unless
its key is one integer column. -/
def readsIndex (d : TableDef) (used : List String) : Bool :=
  d.rowKey?.isNone && !d.keyIndexes.isEmpty &&
    (used.filterMap d.index?).all (d.keyIndexes.contains ·) &&
    decide (sizeClass (4 * entrySize d) < sizeClass (4 * rowSize d))

/-- Whether a row comes no later than another in the order of some columns. -/
def inKeyOrder : List Nat → List Cell → List Cell → Bool
  | [], _, _ => true
  | i :: rest, a, b =>
    match (cellAt a i).compare (cellAt b i) with
    | .lt => true
    | .eq => inKeyOrder rest a b
    | .gt => false

/-- The rows in the order in which a statement that needs some columns reads them. -/
def StoredTable.scan (t : StoredTable) (used : List String) : List (List Cell) :=
  if readsIndex t.definition used then t.rows.mergeSort (inKeyOrder t.definition.keyIndexes)
  else t.rows

end EntityStore.Engine
