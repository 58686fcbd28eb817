import EntityStore.Value.Basic

namespace EntityStore.Engine

inductive Cell where
  | null
  | int (n : Int)
  | real (x : Binary64)
  | text (s : String)
  | blob (bytes : List UInt8)
  deriving DecidableEq, Inhabited

namespace Cell

def ofValue : Value → Cell
  | .null => .null
  | .bool b => .int (if b then 1 else 0)
  | .int n => .int n
  | .float x => if x.isNaN then .null else .real x
  | .text s => .text s
  | .blob bytes => .blob bytes
  | .time t => .text (Time.text "+00:00" t)

def toValue : Cell → Value
  | .null => .null
  | .int n => .int n
  | .real x => .float x
  | .text s => .text s
  | .blob bytes => .blob bytes

def isNull : Cell → Bool
  | .null => true
  | _ => false

/-- Kinds sort before values: null, numbers, texts, bytes. -/
def rank : Cell → Nat
  | .null => 0
  | .int _ | .real _ => 1
  | .text _ => 2
  | .blob _ => 3

/-- Bytes in the order of the first difference; a beginning comes before its continuation. -/
def compareBytes : List UInt8 → List UInt8 → Ordering
  | [], [] => .eq
  | [], _ :: _ => .lt
  | _ :: _, [] => .gt
  | a :: as, b :: bs => if a < b then .lt else if b < a then .gt else compareBytes as bs

/-- The order of stored values. Numbers compare as numbers, texts by their characters. -/
def compare : Cell → Cell → Ordering
  | .int m, .int n => Ord.compare m n
  | .int n, .real x => (x.compareInt n).swap
  | .real x, .int n => x.compareInt n
  | .real x, .real y => Ord.compare x.orderKey y.orderKey
  | .text s, .text t => if s < t then .lt else if t < s then .gt else .eq
  | .blob s, .blob t => compareBytes s t
  | a, b => Ord.compare a.rank b.rank

/-- Equality as the database tests it: null equals nothing. -/
def same (a b : Cell) : Bool := !a.isNull && !b.isNull && compare a b == .eq

end Cell

end EntityStore.Engine
