import EntityStore.Proofs.Query.Acceptance
import EntityStore.Proofs.Query.Agreement

namespace EntityStore

namespace Sql.Expr

variable {α : Type}

mutual

/-- The columns of a search condition, from left to right. -/
def columns : Expr α → List ColumnRef
  | .constant _ => []
  | .nullTest column _ => [column]
  | .compare column _ _ => [column]
  | .between column _ _ => [column]
  | .among column _ _ => [column]
  | .amongRows column table key inner => column :: ⟨some table, key⟩ :: columns inner
  | .junction _ parts => columnsOfAll parts

def columnsOfAll : List (Expr α) → List ColumnRef
  | [] => []
  | e :: es => columns e ++ columnsOfAll es

end

theorem columnsOfAll_eq (es : List (Expr α)) : columnsOfAll es = es.flatMap columns := by
  induction es with
  | nil => rfl
  | cons e es ih => rw [columnsOfAll, ih, List.flatMap_cons]

theorem columns_ofParts (op : Connective) (es : List (Expr α)) :
    (ofParts op es).columns = es.flatMap columns := by
  match es with
  | [] => rfl
  | [e] => simp [ofParts]
  | e :: e' :: es => exact columnsOfAll_eq (e :: e' :: es)

end Sql.Expr

namespace Path

theorem eraseDups_snoc (paths : List Path) (p : Path) :
    (paths ++ [p]).eraseDups = if p ∈ paths then paths.eraseDups else paths.eraseDups ++ [p] := by
  rw [List.eraseDups_append, List.removeAll]
  split <;> simp_all [List.eraseDups_cons]

theorem eraseDups_of_nodup {paths : List Path} (nodup : paths.Nodup) : paths.eraseDups = paths := by
  induction paths using List.reverseRecOn with
  | nil => rfl
  | append_singleton paths p ih =>
    obtain ⟨before, -, fresh⟩ := List.nodup_append.mp nodup
    have absent : p ∉ paths := fun there => fresh p there p (List.mem_singleton_self p) rfl
    rw [eraseDups_snoc, if_neg absent, ih before]

theorem eraseDups_eq_nil {paths : List Path} : paths.eraseDups = [] ↔ paths = [] := by
  cases paths <;> simp [List.eraseDups_cons]

/-- Paths that are met again do not count, wherever they are left out. -/
theorem eraseDups_append_left (paths more : List Path) :
    (paths.eraseDups ++ more).eraseDups = (paths ++ more).eraseDups := by
  induction more using List.reverseRecOn with
  | nil =>
    rw [List.append_nil, List.append_nil]
    induction paths using List.reverseRecOn with
    | nil => rfl
    | append_singleton paths p ih =>
      rw [eraseDups_snoc]
      split
      · exact ih
      · rename_i absent
        rw [eraseDups_snoc, ih, if_neg (fun there => absent (List.mem_eraseDups.mp there))]
  | append_singleton more p ih =>
    rw [← List.append_assoc, ← List.append_assoc, eraseDups_snoc, eraseDups_snoc, ih]
    simp only [List.mem_append, List.mem_eraseDups]

end Path

namespace Hop

theorem paths_prefix {hops more : List Hop} (longer : hops <+: more) : paths hops <+: paths more := by
  obtain ⟨rest, rfl⟩ := longer
  induction rest using List.reverseRecOn with
  | nil => exact ⟨[], by rw [List.append_nil, List.append_nil]⟩
  | append_singleton rest h ih =>
    rw [← List.append_assoc, paths_append]
    exact ih.trans (List.prefix_append _ _)

/-- Places keep their paths when hops are added. -/
theorem pathAt_prefix {hops more : List Hop} (longer : hops <+: more) {parent : Option Nat}
    (within : Within parent hops.length) :
    pathAt (paths more) parent = pathAt (paths hops) parent := by
  obtain ⟨rest, longer⟩ := paths_prefix longer
  rw [← longer]
  exact pathAt_append within (Nat.le_of_eq (paths_length hops).symm)

end Hop

namespace Condition

mutual

/-- The nodes of a condition in the order of a visit, each with the path to the entity that it is
about. -/
def visits : Path → Condition → List (Path × Condition)
  | p, .relational relation inner =>
    (p, .relational relation inner) :: visits (p ++ [relation.step]) inner
  | p, .composite op children => (p, .composite op children) :: visitsOfAll p children
  | p, leaf => [(p, leaf)]

def visitsOfAll : Path → List Condition → List (Path × Condition)
  | _, [] => []
  | p, c :: cs => visits p c ++ visitsOfAll p cs

end

/-- The path on which a node leads, if it is a relation. -/
def leadsTo : Path × Condition → Option Path
  | (p, .relational relation _) => some (p ++ [relation.step])
  | _ => none

/-- The field that a node itself mentions. -/
def ownField? : Condition → Option FieldRef
  | .unary field _ => some field
  | .binary field _ _ => some field
  | .ternary field _ _ _ => some field
  | .collection field _ _ => some field
  | .relational relation _ => some relation
  | .composite .. => none

/-- The paths on which relations lead, in the order of a visit. -/
def relationPaths (p : Path) (c : Condition) : List Path := (c.visits p).filterMap leadsTo

/-- The column that a node is about, with the name of the table at the end of its path. Membership
in the empty list is about none. -/
def ownColumn? (qualify : Bool) (name : Path → String) : Path × Condition → Option Sql.ColumnRef
  | (p, .unary field _) => some (columnOf qualify (name p) field)
  | (p, .binary field _ _) => some (columnOf qualify (name p) field)
  | (p, .ternary field _ _ _) => some (columnOf qualify (name p) field)
  | (p, .collection field _ operands) =>
    if operands.isEmpty then none else some (columnOf qualify (name p) field)
  | (_, .relational ..) => none
  | (_, .composite ..) => none

theorem visits_leaf {p : Path} {c : Condition} (leaf : c.IsLeaf) : c.visits p = [(p, c)] := by
  cases c <;> first | rfl | exact leaf.elim

theorem visitsOfAll_eq (p : Path) (cs : List Condition) :
    visitsOfAll p cs = cs.flatMap (visits p) := by
  induction cs with
  | nil => rfl
  | cons c cs ih => rw [visitsOfAll, ih, List.flatMap_cons]

theorem relationPaths_leaf {p : Path} {c : Condition} (leaf : c.IsLeaf) : c.relationPaths p = [] := by
  cases c <;> first | rfl | exact leaf.elim

theorem relationPaths_relational (p : Path) (relation : FieldRef) (inner : Condition) :
    (Condition.relational relation inner).relationPaths p =
      (p ++ [relation.step]) :: inner.relationPaths (p ++ [relation.step]) := by
  rw [relationPaths, visits]
  exact List.filterMap_cons_some rfl

theorem relationPaths_composite (p : Path) (op : Connective) (children : List Condition) :
    (Condition.composite op children).relationPaths p = children.flatMap (relationPaths p) := by
  rw [relationPaths, visits, List.filterMap_cons_none rfl, visitsOfAll_eq, List.filterMap_flatMap]
  rfl

theorem anyRelations_eq (cs : List Condition) : anyRelations cs = cs.any hasRelations := by
  induction cs with
  | nil => rfl
  | cons c cs ih => rw [anyRelations, ih, List.any_cons]

theorem relationPaths_eq_nil {p : Path} {c : Condition} :
    c.relationPaths p = [] ↔ c.hasRelations = false := by
  induction c generalizing p with
  | relational relation inner ih => simp [relationPaths_relational, hasRelations]
  | composite op children ih =>
    rw [relationPaths_composite, hasRelations, anyRelations_eq, List.flatMap_eq_nil_iff,
      List.any_eq_false]
    simp only [Bool.not_eq_true]
    exact forall₂_congr fun c hc => ih c hc
  | _ => exact iff_of_true (relationPaths_leaf (by trivial)) rfl

section

open Hop (Grown Within)

/-- The hop that a relation takes ends the path that goes on by the relation. -/
theorem pathAt_find {hops : List Hop} (grown : Grown hops) {parent : Option Nat}
    {relation : FieldRef} {index : Nat} (taken : Hop.find? hops parent relation = some index) :
    Hop.pathAt (Hop.paths hops) (some index) =
      Hop.pathAt (Hop.paths hops) parent ++ [relation.step] := by
  obtain ⟨inside, takes, -⟩ := List.findIdx?_eq_some_iff_getElem.mp taken
  simp only [Hop.takes, FieldRef.same, Bool.and_eq_true, beq_iff_eq] at takes
  obtain ⟨start, owner, field⟩ := takes
  have step : hops[index].relation.step = relation.step := by
    rw [FieldRef.step, FieldRef.step, owner, field]
  rw [Hop.pathAt, (grown.path (List.getElem?_eq_getElem inside)).1, start, step]
  rfl

/-- A relation adds its own path to those of the hops, unless it is there. -/
theorem paths_next {parent : Option Nat} {known next : List Hop} {relation : FieldRef} {hop : Hop}
    {index : Nat} (found : Hop.of relation parent = .ok hop)
    (taken : Hop.find? next parent relation = some index)
    (added : next = known ∨ next = known ++ [hop] ∧ Hop.find? known parent relation = none)
    (grown : Grown known) (within : Within parent known.length) :
    Hop.pathAt (Hop.paths next) (some index) =
        Hop.pathAt (Hop.paths known) parent ++ [relation.step] ∧
      Hop.paths next =
        (Hop.paths known ++ [Hop.pathAt (Hop.paths known) parent ++ [relation.step]]).eraseDups := by
  obtain ⟨grown', inside, -⟩ := grown_next found taken added grown within
  have path := pathAt_find grown' taken
  rcases added with rfl | ⟨rfl, -⟩
  · refine ⟨path, ?_⟩
    have place : index < (Hop.paths next).length := Hop.paths_length next ▸ inside index rfl
    have there : Hop.pathAt (Hop.paths next) (some index) ∈ Hop.paths next := by
      rw [Hop.pathAt, List.getElem?_eq_getElem place]
      exact List.getElem_mem place
    rw [path] at there
    rw [Path.eraseDups_snoc, if_pos there, Path.eraseDups_of_nodup grown.paths_nodup]
  · obtain ⟨start, same⟩ := hop_of_ok found
    have longer := Hop.paths_append known hop
    rw [start, same] at longer
    have here := Hop.pathAt_prefix (List.prefix_append known [hop]) within
    refine ⟨path.trans (congrArg (· ++ [relation.step]) here), ?_⟩
    rw [← longer, Path.eraseDups_of_nodup grown'.paths_nodup]

theorem paths_of_all {root : String} {scope : Shape} {parent : Option Nat} {cs : List Condition}
    {known found : List Hop}
    (each : ∀ c ∈ cs, ∀ known found, c.hops root scope parent known = .ok found → Grown known →
      Within parent known.length → Hop.paths found =
        (Hop.paths known ++ c.relationPaths (Hop.pathAt (Hop.paths known) parent)).eraseDups)
    (h : hopsOfAll root scope parent known cs = .ok found) (grown : Grown known)
    (within : Within parent known.length) :
    Hop.paths found = (Hop.paths known ++
      cs.flatMap (relationPaths (Hop.pathAt (Hop.paths known) parent))).eraseDups := by
  induction cs generalizing known with
  | nil =>
    cases h
    rw [List.flatMap_nil, List.append_nil, Path.eraseDups_of_nodup grown.paths_nodup]
  | cons c cs ih =>
    obtain ⟨next, first, rest⟩ := Except.bind_eq_ok.mp h
    obtain ⟨here, others⟩ := List.forall_mem_cons.mp each
    obtain ⟨grown', longer⟩ := hops_grown first grown within
    have within' : Within parent next.length := fun i hi =>
      Nat.lt_of_lt_of_le (within i hi) longer.length_le
    rw [ih others rest grown' within', Hop.pathAt_prefix longer within,
      here known next first grown within, Path.eraseDups_append_left, List.append_assoc,
      List.flatMap_cons]

/-- The hops of a condition lead along its paths of relations, each path once. -/
theorem paths_of_hops {root : String} {scope : Shape} {parent : Option Nat} {known found : List Hop}
    {c : Condition} (h : c.hops root scope parent known = .ok found) (grown : Grown known)
    (within : Within parent known.length) :
    Hop.paths found =
      (Hop.paths known ++ c.relationPaths (Hop.pathAt (Hop.paths known) parent)).eraseDups := by
  induction c generalizing scope parent known found with
  | relational relation inner ih =>
    obtain ⟨hop, index, next, -, hhop, taken, added, deeper⟩ := hops_relational_ok h
    obtain ⟨grown', inside, -⟩ := grown_next hhop taken added grown within
    obtain ⟨path, paths⟩ := paths_next hhop taken added grown within
    rw [ih deeper grown' inside, path, paths, Path.eraseDups_append_left, relationPaths_relational,
      List.append_assoc, List.singleton_append]
  | composite op children ih =>
    rw [relationPaths_composite]
    exact paths_of_all (fun c hc known found h => ih c hc h) h grown within
  | _ =>
    obtain ⟨_, -, rfl⟩ := Except.map_eq_ok.mp h
    rw [relationPaths_leaf (by trivial), List.append_nil, Path.eraseDups_of_nodup grown.paths_nodup]

end

end Condition

namespace Join

section

variable (joins : List Join)

/-- The join at the end of a path. -/
def atEnd (p : Path) : Option Join := joins[(paths joins).idxOf p]?

/-- The name of the table at the end of a path, which at the root is its own. -/
def nameAt (root : String) (p : Path) : String := (atEnd joins p).elim root (·.name)

/-- The entity at the end of a path. -/
def shapeAt (root : Shape) (p : Path) : Shape := (atEnd joins p).elim root (·.target)

end

variable {joins : List Join}

theorem atEnd_root (grown : Hop.Grown (joins.map (·.toHop))) : atEnd joins [] = none := by
  have absent : [] ∉ paths joins := (List.nodup_cons.mp grown.places_nodup).1
  have length : (paths joins).length = joins.length := by
    rw [paths, Hop.paths_length, List.length_map]
  rw [atEnd, List.idxOf_eq_length absent, length]
  exact List.getElem?_eq_none (Nat.le_refl _)

theorem atEnd_pathAt (grown : Hop.Grown (joins.map (·.toHop))) {i : Nat} {j : Join}
    (found : joins[i]? = some j) : atEnd joins (Hop.pathAt (paths joins) (some i)) = some j := by
  obtain ⟨inside, rfl⟩ := List.getElem?_eq_some_iff.mp found
  have place : i < (paths joins).length := by
    rw [paths, Hop.paths_length, List.length_map]
    exact inside
  have nodup : (paths joins).Nodup := grown.paths_nodup
  rw [atEnd, Hop.pathAt, List.getElem?_eq_getElem place, Option.getD_some,
    nodup.idxOf_getElem i place, found]

/-- A name that a table has is that of its path. -/
theorem nameAt_standing (grown : Hop.Grown (joins.map (·.toHop))) {root name : String}
    {scope : Option Nat} (standing : Condition.Standing root joins name scope) :
    nameAt joins root (Hop.pathAt (paths joins) scope) = name := by
  cases scope with
  | none =>
    rw [Hop.pathAt, nameAt, atEnd_root grown]
    exact standing.symm
  | some i =>
    obtain ⟨j, found, rfl⟩ := standing
    rw [nameAt, atEnd_pathAt grown found]
    rfl

end Join

namespace Condition

variable {joins : List Join}

theorem columns_binaryExpr {column : Sql.ColumnRef} {field : FieldRef} {op : BinaryOp}
    {operand : Value} {expr : Sql.Expr Param} (h : binaryExpr column field op operand = .ok expr) :
    expr.columns = [column] := by
  unfold binaryExpr at h
  split at h
  · cases op <;> cases h <;> rfl
  · split at h
    · cases operand <;> cases h
      rfl
    · cases h
      rfl

theorem columns_leaf {reach : Reach} {qualify : Bool} {scope : Option Nat} {name : Path → String}
    {p : Path} {c : Condition} {expr : Sql.Expr Param} (leaf : c.IsLeaf)
    (h : c.toExpr reach qualify scope (name p) = .ok expr) :
    expr.columns = (c.visits p).filterMap (ownColumn? qualify name) := by
  rw [visits_leaf leaf]
  cases c with
  | unary f op => cases h; rfl
  | binary f op v => exact columns_binaryExpr h
  | ternary f op v w => cases op; cases h; rfl
  | collection f op vs =>
    cases h
    cases vs <;> rfl
  | relational relation inner => exact leaf.elim
  | composite op children => exact leaf.elim

/-- The visit that counts joins gives each column the name at the end of its path. -/
theorem columns_toExpr (grown : Hop.Grown (joins.map (·.toHop))) {qualify : Bool} {root : String}
    {scope : Option Nat} {name : String} (standing : Standing root joins name scope)
    {c : Condition} {expr : Sql.Expr Param}
    (h : c.toExpr (.joined joins) qualify scope name = .ok expr) :
    expr.columns = (c.visits (Hop.pathAt (Join.paths joins) scope)).filterMap
      (ownColumn? qualify (Join.nameAt joins root)) := by
  induction c generalizing scope name expr with
  | relational relation inner ih =>
    simp only [toExpr] at h
    split at h
    · cases h
    · rename_i index taken
      split at h
      · cases h
      · rename_i join found
        have there : Standing root joins join.name (some index) := ⟨join, found, rfl⟩
        rw [ih there h, pathAt_taken grown taken found, visits, List.filterMap_cons_none rfl]
  | composite op children ih =>
    obtain ⟨es, hes, h⟩ := Except.bind_eq_ok.mp h
    cases h
    rw [toExprs_eq] at hes
    rw [Sql.Expr.columns_ofParts, visits, List.filterMap_cons_none rfl, visitsOfAll_eq,
      List.filterMap_flatMap, List.flatMap_def, List.flatMap_def]
    congr 1
    have each := ((List.forall₂_and_left _ _).mpr ⟨ih, Except.mapM_forall₂ hes⟩).imp
      fun c e h => h.1 standing h.2
    rw [← List.forall₂_eq_eq_eq, List.forall₂_map_left_iff, List.forall₂_map_right_iff]
    exact each.flip
  | _ =>
    rw [← Join.nameAt_standing grown standing] at h
    exact columns_leaf (by trivial) h

/-- A node is about the entity at the end of its path, and a relation finds the join of the path on
which it leads. -/
def Placed (joins : List Join) (root : Shape) (visit : Path × Condition) : Prop :=
  (∀ f ∈ visit.2.ownField?, (Join.shapeAt joins root visit.1).Member f) ∧
    ∀ relation inner, visit.2 = .relational relation inner →
      ∃ scope index join, Hop.Within scope joins.length ∧
        Hop.pathAt (Join.paths joins) scope = visit.1 ∧
        (joins.findIdx? fun j => j.toHop.takes scope relation) = some index ∧
        joins[index]? = some join ∧
        (Join.paths joins)[index]? = some (visit.1 ++ [relation.step])

theorem placed_leaf {root : String} {start shape : Shape} {p : Path} {c : Condition} (leaf : c.IsLeaf)
    (sound : c.Scoped root shape) (here : Join.shapeAt joins start p = shape) :
    Placed joins start (p, c) := by
  constructor
  · intro f hf
    rw [here]
    cases c with
    | relational relation inner => exact leaf.elim
    | composite op children => exact leaf.elim
    | _ =>
      obtain rfl := Option.some.inj hf
      rw [Scoped] at sound
      exact sound
  · rintro relation inner rfl
    exact leaf.elim

/-- A join that a relation takes was made for the same field. -/
theorem field_of_taken {root : EntityName} {whole : Condition} (coherent : whole.Coherent)
    (resolved : ∀ j ∈ joins, j.toHop.Resolved root whole.fields) {scope : Option Nat}
    {relation : FieldRef} {index : Nat} {join : Join} (mentioned : relation ∈ whole.fields)
    (taken : joins.findIdx? (fun j => j.toHop.takes scope relation) = some index)
    (found : joins[index]? = some join) : join.relation.field = relation.field := by
  obtain ⟨inside, takes, -⟩ := List.findIdx?_eq_some_iff_getElem.mp taken
  have same : joins[index] = join := by
    rw [List.getElem?_eq_getElem inside] at found
    exact Option.some.inj found
  rw [same, Hop.takes, Bool.and_eq_true] at takes
  have there : join ∈ joins := List.mem_of_getElem? found
  exact coherent _ (resolved join there).field _ mentioned takes.2

/-- Every node stands at the end of its path. -/
theorem visits_placed {e : Entity} {whole : Condition} (grown : Hop.Grown (joins.map (·.toHop)))
    (resolved : ∀ j ∈ joins, j.toHop.Resolved e.id whole.fields) (coherent : whole.Coherent)
    {scope : Option Nat} {shape : Shape} {c : Condition} (part : c.fields ⊆ whole.fields)
    (sound : c.Scoped e.id.table shape) (reached : c.Reached (.joined joins) scope)
    (within : Hop.Within scope joins.length)
    (here : Join.shapeAt joins e.shape (Hop.pathAt (Join.paths joins) scope) = shape) :
    ∀ visit ∈ c.visits (Hop.pathAt (Join.paths joins) scope), Placed joins e.shape visit := by
  induction c generalizing scope shape with
  | relational relation inner ih =>
    rw [Scoped] at sound
    obtain ⟨member, target, key, points, keyed, -, inside⟩ := sound
    rw [Reached] at reached
    obtain ⟨index, join, taken, found, deeper⟩ := reached
    have path := pathAt_taken grown taken found
    have inside_joins := (List.getElem?_eq_some_iff.mp found).1
    have place : index < (Join.paths joins).length := by
      rw [Join.paths, Hop.paths_length, List.length_map]
      exact inside_joins
    have behind : Hop.Within (some index) joins.length := fun i hi => Option.some.inj hi ▸ inside_joins
    have mentioned : relation ∈ whole.fields :=
      part (List.mem_append_right _ (List.mem_singleton_self _))
    have field := field_of_taken coherent resolved mentioned taken found
    have leads : join.target = target := by
      obtain ⟨points', -⟩ := Hop.of_ok (resolved join (List.mem_of_getElem? found)).of
      rw [field, points] at points'
      exact (Option.some.inj points').symm
    rw [visits]
    refine List.forall_mem_cons.mpr ⟨⟨?_, ?_⟩, ?_⟩
    · intro f hf
      obtain rfl : relation = f := Option.some.inj hf
      exact here ▸ member
    · rintro _ _ ⟨⟩
      refine ⟨scope, index, join, within, rfl, taken, found, ?_⟩
      rw [← path, Hop.pathAt, List.getElem?_eq_getElem place]
      rfl
    · rw [← path]
      refine ih (fun f hf => part (List.mem_append_left _ hf)) inside deeper behind ?_
      rw [Join.shapeAt, Join.atEnd_pathAt grown found]
      exact leads
  | composite op children ih =>
    rw [Scoped] at sound
    rw [Reached] at reached
    rw [visits, visitsOfAll_eq]
    refine List.forall_mem_cons.mpr ⟨⟨?_, ?_⟩, ?_⟩
    · intro f hf
      cases hf
    · rintro _ _ ⟨⟩
    · intro visit there
      obtain ⟨c, hc, there⟩ := List.mem_flatMap.mp there
      refine ih c hc (fun f hf => part ?_) (sound c hc) (reached c hc) within here visit there
      rw [fields, fieldsOfAll_eq]
      exact List.mem_flatMap.mpr ⟨c, hc, hf⟩
  | _ =>
    rw [visits_leaf (by trivial)]
    exact List.forall_mem_singleton.mpr (placed_leaf (by trivial) sound here)

theorem refusal_of_operandFaults {c : Condition} {error : Error} (fault : error ∈ c.operandFaults) :
    ∃ what, error = .invalidArgument what := by
  induction c with
  | binary f op v =>
    rw [operandFaults] at fault
    unfold binaryFaults at fault
    repeat' split at fault
    all_goals simp_all
  | relational relation inner ih => exact ih fault
  | composite op children ih =>
    rw [operandFaults, operandFaultsOfAll_eq] at fault
    obtain ⟨c, hc, fault⟩ := List.mem_flatMap.mp fault
    exact ih c hc fault
  | _ => cases fault

end Condition

namespace Query

/-- Joins and relation paths correspond. There is one join for each path, in the order in which the
paths are first met, and it starts at an earlier one or the root. In the visit that makes the search
condition, each relation finds the join of its path, each field is one of the entity at the end of
its path, and each column has the name of the table there; no join is missing. -/
theorem joins_follow_paths (c : Condition) (e : Entity) (joins : List Join)
    (accepted : c.joins e = .ok joins) (coherent : c.Coherent) :
    Join.paths joins = (c.relationPaths []).eraseDups ∧
    (joins = [] ↔ c.hasRelations = false) ∧
    (∀ i j, joins[i]? = some j → Hop.Within j.parent i ∧
      (Join.paths joins)[i]? =
        some (Hop.pathAt (Join.paths joins) j.parent ++ [j.relation.step])) ∧
    (∀ visit ∈ c.visits [], Condition.Placed joins e.shape visit) ∧
    (∀ expr, c.toExpr (.joined joins) (!joins.isEmpty) none e.id.table = .ok expr →
      expr.columns = (c.visits []).filterMap
        (Condition.ownColumn? (!joins.isEmpty) (Join.nameAt joins e.id.table))) ∧
    ∀ error, c.toExpr (.joined joins) (!joins.isEmpty) none e.id.table = .error error →
      ∃ what, error = .invalidArgument what := by
  have grown := Join.grown_of_joins accepted
  have start : Hop.Within none joins.length := fun i hi => by cases hi
  have reached : c.Reached (.joined joins) none := Condition.reached_of_joins accepted true
  have sound : c.Scoped e.id.table e.shape :=
    Condition.scopeFaults_eq_nil.mp ((c.joins_reports e).ok_iff.mp ⟨joins, accepted⟩)
  have paths : Join.paths joins = (c.relationPaths []).eraseDups := by
    obtain ⟨hops, found, rfl⟩ := Except.map_eq_ok.mp accepted
    rw [Join.paths, Join.map_toHop_toJoins]
    exact Condition.paths_of_hops found .nil fun i hi => by cases hi
  refine ⟨paths, ?_, fun i j found => ?_, ?_, fun expr compiled => ?_, fun error refused => ?_⟩
  · have length : (Join.paths joins).length = joins.length := by
      rw [Join.paths, Hop.paths_length, List.length_map]
    rw [← Condition.relationPaths_eq_nil (p := []), ← List.length_eq_zero_iff, ← length, paths,
      List.length_eq_zero_iff, Path.eraseDups_eq_nil]
  · have hop : (joins.map (·.toHop))[i]? = some j.toHop := by
      rw [List.getElem?_map, found]
      rfl
    exact (grown.path hop).symm
  · have root : Join.shapeAt joins e.shape [] = e.shape := by
      rw [Join.shapeAt, Join.atEnd_root grown]
      rfl
    exact Condition.visits_placed grown (Join.resolved_of_joins accepted) coherent
      (List.Subset.refl _) sound reached start root
  · have standing : Condition.Standing e.id.table joins e.id.table none := rfl
    exact Condition.columns_toExpr grown standing compiled
  · have reports := Condition.toExpr_reports (!joins.isEmpty) e.id.table reached
    rw [refused] at reports
    exact Condition.refusal_of_operandFaults reports.mem_of_error

/-- Badges of someone whose manager's name begins with a letter, or whose own name does. -/
def initialled : Condition :=
  .composite .or
    [.relational (badges.ref holder)
        (.relational ⟨staffShape.id, manager⟩
          (.binary ⟨staffShape.id, .named "name" .text⟩ .startsWith (.text "a"))),
      .relational (badges.ref holder)
        (.binary ⟨staffShape.id, .named "name" .text⟩ .startsWith (.text "a"))]

def initialledJoins : List Join :=
  [⟨⟨none, badges.ref holder, staffShape, (Field.named "id" .integer).asPrimaryKey.toAttribute⟩,
      "staff__holder_id"⟩,
    ⟨⟨some 0, ⟨staffShape.id, manager⟩, staffShape,
      (Field.named "id" .integer).asPrimaryKey.toAttribute⟩, "staff__manager_id"⟩]

theorem joins_follow_paths_initialled :
    initialled.joins badges = .ok initialledJoins ∧ initialled.Coherent ∧
    Join.paths initialledJoins = [[(badges.ref holder).step],
      [(badges.ref holder).step, (FieldRef.mk staffShape.id manager).step]] ∧
    ∃ expr, initialled.toExpr (.joined initialledJoins) true none "badges" = .ok expr ∧
      expr.columns = [⟨some "staff__manager_id", "name"⟩, ⟨some "staff__holder_id", "name"⟩] := by
  have accepted : initialled.joins badges = .ok initialledJoins := rfl
  have coherent : initialled.Coherent := by
    unfold Condition.Coherent
    decide
  obtain ⟨paths, -, -, -, columns, -⟩ :=
    joins_follow_paths initialled badges initialledJoins accepted coherent
  refine ⟨accepted, coherent, paths.trans ?_, _, rfl, (columns _ rfl).trans ?_⟩
  · rfl
  · rfl

end Query

end EntityStore
