import EntityStore.Query.Basic

namespace EntityStore

/-- One step along a relation: from the table of an earlier hop, or the root, to its target. -/
structure Hop where
  /-- Index of the hop that the relation starts from; none at the root. -/
  parent : Option Nat
  relation : FieldRef
  target : Shape
  targetKey : Attribute
  deriving DecidableEq

/-- A hop with the name that its table goes by. -/
structure Join extends Hop where
  name : String
  deriving DecidableEq

namespace Hop

/-- The hop of a relation: its field has a target, and the target has a key. -/
def of (relation : FieldRef) (parent : Option Nat) : Except Error Hop :=
  match relation.field.references with
  | none => .error (.schemaMismatch (.notRelation relation.label))
  | some target =>
    match target.key? with
    | none => .error (.schemaMismatch (.noKey target.id.name))
    | some key => .ok ⟨parent, relation, target, key⟩

/-- Whether the hop takes a relation from a parent. -/
def takes (h : Hop) (parent : Option Nat) (relation : FieldRef) : Bool :=
  h.parent == parent && h.relation.same relation

/-- The first hop that takes a relation from a parent. -/
def find? (hops : List Hop) (parent : Option Nat) (relation : FieldRef) : Option Nat :=
  hops.findIdx? fun h => h.takes parent relation

/-- The alias of the hop at an index: the table's name where a single hop leads there, and the
table with the foreign key column otherwise; the index keeps it apart from those taken. -/
def aliasOf (hops : List Hop) (taken : List String) (index : Nat) (h : Hop) : String :=
  let table := h.target.id.table
  let shared := 1 < hops.countP fun g => g.target.id.table == table
  let name := if shared then table ++ "__" ++ h.relation.field.column else table
  if taken.contains name then name ++ "_" ++ Nat.repr index else name

/-- Aliases from an index on, given those of the hops before. -/
def aliasesFrom (hops : List Hop) (taken : List String) : Nat → List Hop → List String
  | _, [] => []
  | index, h :: rest =>
    let name := aliasOf hops taken index h
    name :: aliasesFrom hops (taken ++ [name]) (index + 1) rest

def toJoins (hops : List Hop) : List Join :=
  hops.zipWith (fun h name => ⟨h, name⟩) (aliasesFrom hops [] 0 hops)

end Hop

namespace Shape

/-- Refuses a field that the entity does not declare. -/
def check (s : Shape) (f : FieldRef) : Except Error Unit :=
  if f.owner == s.id && s.declares f.field.toAttribute then .ok ()
  else .error (.schemaMismatch (.notMember f.label s.id.name))

end Shape

namespace Condition

mutual

/-- The hops that a condition adds, found while every field is checked against the entity its node
is about. A relation must not lead back to the root's table. -/
def hops (root : String) : Shape → Option Nat → List Hop → Condition → Except Error (List Hop)
  | scope, _, known, .unary field _ => (scope.check field).map fun _ => known
  | scope, _, known, .binary field _ _ => (scope.check field).map fun _ => known
  | scope, _, known, .ternary field _ _ _ => (scope.check field).map fun _ => known
  | scope, _, known, .collection field _ _ => (scope.check field).map fun _ => known
  | scope, parent, known, .relational relation inner => do
    scope.check relation
    let hop ← Hop.of relation parent
    if hop.target.id.table = root then
      .error (.invalidArgument (.backReference relation.label root))
    match Hop.find? known parent relation with
    | some index => hops root hop.target (some index) known inner
    | none => hops root hop.target (some known.length) (known ++ [hop]) inner
  | scope, parent, known, .composite _ children => hopsOfAll root scope parent known children

def hopsOfAll (root : String) :
    Shape → Option Nat → List Hop → List Condition → Except Error (List Hop)
  | _, _, known, [] => .ok known
  | scope, parent, known, c :: cs => do
    let known ← hops root scope parent known c
    hopsOfAll root scope parent known cs

end

/-- The joins that a condition on an entity needs. -/
def joins (c : Condition) (e : Entity) : Except Error (List Join) :=
  (c.hops e.id.table e.shape none []).map Hop.toJoins

end Condition

end EntityStore
