import EntityStore.Repository.Error
import EntityStore.Value.Reading

namespace EntityStore

/-- Values under the names of their columns, which may repeat; the first one counts. -/
structure Row where
  cells : List (String × Value)
  deriving DecidableEq, Inhabited

namespace Row

def empty : Row := ⟨[]⟩

def push (r : Row) (column : String) (v : Value) : Row := ⟨r.cells ++ [(column, v)]⟩

def size (r : Row) : Nat := r.cells.length

def columns (r : Row) : List String := r.cells.map (·.1)

def values (r : Row) : List Value := r.cells.map (·.2)

def value? (r : Row) (column : String) : Option Value :=
  (r.cells.find? fun cell => cell.1 == column).map (·.2)

def valueAt? (r : Row) (i : Nat) : Option Value := r.values[i]?

/-- Equal columns in equal order, with values that are equal as values. -/
def equals (r s : Row) : Bool :=
  r.columns == s.columns && (r.values.zip s.values).all fun (v, w) => v.equals w

def get (r : Row) (column : String) (reading : Reading) : Except RepositoryError Value :=
  match r.value? column with
  | none => .error (.decode column .notInRow)
  | some v => (reading.apply v).mapError fun e => .decode column (.unreadable e)

end Row

end EntityStore
