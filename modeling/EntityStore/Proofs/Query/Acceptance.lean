import EntityStore.Proofs.Query.Binding
import EntityStore.Proofs.Query.Nested

namespace EntityStore

/-- The parameters of a command in a dialect. -/
def Dialect.params (d : Dialect) (c : Sql.Command Param) : List Param :=
  (Statement.ofCommand d c).params

namespace Shape

/-- A field of the entity: it names the entity, which declares a field of this name and column. -/
def Member (s : Shape) (f : FieldRef) : Prop :=
  f.owner = s.id ∧ ∃ a ∈ s.attributes, a.name = f.field.name ∧ a.column = f.field.column

instance (s : Shape) (f : FieldRef) : Decidable (s.Member f) := by
  unfold Member
  infer_instance

def memberFaults (s : Shape) (f : FieldRef) : List Error :=
  if s.Member f then [] else [.schemaMismatch (.notMember f.label s.id.name)]

theorem memberFaults_eq_nil {s : Shape} {f : FieldRef} : s.memberFaults f = [] ↔ s.Member f := by
  simp [memberFaults]

theorem check_eq (s : Shape) (f : FieldRef) :
    s.check f =
      if s.Member f then .ok () else .error (.schemaMismatch (.notMember f.label s.id.name)) := by
  simp [check, Member, declares]

theorem check_reports (s : Shape) (f : FieldRef) : (s.check f).Reports (s.memberFaults f) := by
  rw [check_eq, memberFaults]
  split
  · exact ⟨(), rfl⟩
  · rfl

theorem checks_ok {s : Shape} {α : Type} {as : List α} {f : α → FieldRef}
    (members : ∀ a ∈ as, s.Member (f a)) : (as.forM fun a => s.check (f a)) = .ok () := by
  induction as with
  | nil => rfl
  | cons a as ih =>
    obtain ⟨first, others⟩ := List.forall_mem_cons.mp members
    have accepted : s.check (f a) = .ok () := (check_eq s (f a)).trans (if_pos first)
    rw [List.forM_eq_forM, List.forM_cons, accepted]
    exact ih others

end Shape

theorem Entity.member_refs (e : Entity) : ∀ f ∈ e.refs, e.shape.Member f := by
  intro f there
  obtain ⟨field, declared, rfl⟩ := List.mem_map.mp there
  exact ⟨rfl, field.toAttribute, List.mem_map_of_mem declared, rfl, rfl⟩

namespace Condition

/-- Every field belongs to the entity that its node is about, and every relation leads to an entity
with a key, in another table than that of the root. -/
def Scoped (root : String) : Shape → Condition → Prop
  | scope, .unary field _ => scope.Member field
  | scope, .binary field _ _ => scope.Member field
  | scope, .ternary field _ _ _ => scope.Member field
  | scope, .collection field _ _ => scope.Member field
  | scope, .relational relation inner => scope.Member relation ∧
    ∃ target key, relation.field.references = some target ∧ target.key? = some key ∧
      target.id.table ≠ root ∧ Scoped root target inner
  | scope, .composite _ children => ∀ c ∈ children, Scoped root scope c

/-- Only equality compares with null, and patterns are texts. -/
def Fitting : Condition → Prop
  | .binary _ op operand => (operand.isNull = true → op = .eq ∨ op = .notEq) ∧
    (op.isPattern = true → ∃ s, operand = .text s)
  | .relational _ inner => Fitting inner
  | .composite _ children => ∀ c ∈ children, Fitting c
  | _ => True

/-- What is wrong with a relation itself: it leads nowhere, or to an entity without a key. -/
def hopFaults (relation : FieldRef) : List Error :=
  match relation.field.references with
  | none => [.schemaMismatch (.notRelation relation.label)]
  | some target =>
    if target.key?.isNone then [.schemaMismatch (.noKey target.id.name)] else []

def returnFaults (root : String) (relation : FieldRef) (target : Shape) : List Error :=
  if target.id.table = root then [.invalidArgument (.backReference relation.label root)] else []

mutual

/-- The faults of fields and relations, a relation before its inner condition. -/
def scopeFaults (root : String) : Shape → Condition → List Error
  | scope, .unary field _ => scope.memberFaults field
  | scope, .binary field _ _ => scope.memberFaults field
  | scope, .ternary field _ _ _ => scope.memberFaults field
  | scope, .collection field _ _ => scope.memberFaults field
  | scope, .relational relation inner =>
    scope.memberFaults relation ++ (hopFaults relation ++
      match relation.field.references with
      | none => []
      | some target => returnFaults root relation target ++ scopeFaults root target inner)
  | scope, .composite _ children => scopeFaultsOfAll root scope children

def scopeFaultsOfAll (root : String) : Shape → List Condition → List Error
  | _, [] => []
  | scope, c :: cs => scopeFaults root scope c ++ scopeFaultsOfAll root scope cs

end

def binaryFaults (field : FieldRef) (op : BinaryOp) (operand : Value) : List Error :=
  match operand with
  | .null =>
    if op = .eq ∨ op = .notEq then [] else [.invalidArgument (.nullOperand op field.label)]
  | .text _ => []
  | _ => if op.isPattern then [.invalidArgument (.patternOperand op field.label)] else []

mutual

/-- The faults of operands, from left to right. -/
def operandFaults : Condition → List Error
  | .binary field op operand => binaryFaults field op operand
  | .relational _ inner => operandFaults inner
  | .composite _ children => operandFaultsOfAll children
  | _ => []

def operandFaultsOfAll : List Condition → List Error
  | [] => []
  | c :: cs => operandFaults c ++ operandFaultsOfAll cs

end

theorem scopeFaultsOfAll_eq (root : String) (scope : Shape) (cs : List Condition) :
    scopeFaultsOfAll root scope cs = cs.flatMap (scopeFaults root scope) := by
  induction cs with
  | nil => rfl
  | cons c cs ih => rw [scopeFaultsOfAll, ih, List.flatMap_cons]

theorem operandFaultsOfAll_eq (cs : List Condition) :
    operandFaultsOfAll cs = cs.flatMap operandFaults := by
  induction cs with
  | nil => rfl
  | cons c cs ih => rw [operandFaultsOfAll, ih, List.flatMap_cons]

theorem hopFaults_eq_nil {relation : FieldRef} :
    hopFaults relation = [] ↔
      ∃ target key, relation.field.references = some target ∧ target.key? = some key := by
  unfold hopFaults
  cases relation.field.references with
  | none => simp
  | some target => cases hk : target.key? <;> simp [hk]

theorem returnFaults_eq_nil {root : String} {relation : FieldRef} {target : Shape} :
    returnFaults root relation target = [] ↔ target.id.table ≠ root := by
  simp [returnFaults]

theorem hop_reports (relation : FieldRef) (parent : Option Nat) :
    (Hop.of relation parent).Reports (hopFaults relation) := by
  unfold Hop.of hopFaults
  cases relation.field.references with
  | none => rfl
  | some target =>
    dsimp only
    cases target.key? with
    | none => rfl
    | some key => exact ⟨_, rfl⟩

theorem scopeFaults_eq_nil {root : String} {scope : Shape} {c : Condition} :
    c.scopeFaults root scope = [] ↔ c.Scoped root scope := by
  induction c generalizing scope with
  | unary f op => rw [scopeFaults, Scoped, Shape.memberFaults_eq_nil]
  | binary f op v => rw [scopeFaults, Scoped, Shape.memberFaults_eq_nil]
  | ternary f op v w => rw [scopeFaults, Scoped, Shape.memberFaults_eq_nil]
  | collection f op vs => rw [scopeFaults, Scoped, Shape.memberFaults_eq_nil]
  | relational relation inner ih =>
    rw [scopeFaults, Scoped, List.append_eq_nil_iff, List.append_eq_nil_iff,
      Shape.memberFaults_eq_nil, hopFaults_eq_nil]
    refine and_congr_right fun _ => ?_
    constructor
    · rintro ⟨⟨target, key, points, keyed⟩, behind⟩
      rw [points, List.append_eq_nil_iff, returnFaults_eq_nil] at behind
      exact ⟨target, key, points, keyed, behind.1, ih.mp behind.2⟩
    · rintro ⟨target, key, points, keyed, apart, inside⟩
      rw [points, List.append_eq_nil_iff, returnFaults_eq_nil]
      exact ⟨⟨target, key, rfl, keyed⟩, apart, ih.mpr inside⟩
  | composite op children ih =>
    rw [scopeFaults, Scoped, scopeFaultsOfAll_eq, List.flatMap_eq_nil_iff]
    exact forall₂_congr fun c hc => ih c hc

theorem binaryFaults_eq_nil {field : FieldRef} {op : BinaryOp} {v : Value} :
    binaryFaults field op v = [] ↔
      (v.isNull = true → op = .eq ∨ op = .notEq) ∧ (op.isPattern = true → ∃ s, v = .text s) := by
  cases v <;> cases op <;> simp [binaryFaults, Value.isNull, BinaryOp.isPattern]

theorem operandFaults_eq_nil {c : Condition} : c.operandFaults = [] ↔ c.Fitting := by
  induction c with
  | unary f op => simp [operandFaults, Fitting]
  | binary f op v => rw [operandFaults, Fitting, binaryFaults_eq_nil]
  | ternary f op v w => simp [operandFaults, Fitting]
  | collection f op vs => simp [operandFaults, Fitting]
  | relational relation inner ih => rw [operandFaults, Fitting, ih]
  | composite op children ih =>
    rw [operandFaults, Fitting, operandFaultsOfAll_eq, List.flatMap_eq_nil_iff]
    exact forall₂_congr fun c hc => ih c hc

theorem hopsOfAll_reports {root : String} {scope : Shape} {parent : Option Nat}
    {cs : List Condition} (known : List Hop)
    (each : ∀ c ∈ cs, ∀ known,
      (c.hops root scope parent known).Reports (c.scopeFaults root scope)) :
    (hopsOfAll root scope parent known cs).Reports (cs.flatMap (scopeFaults root scope)) := by
  induction cs generalizing known with
  | nil => exact ⟨known, rfl⟩
  | cons c cs ih =>
    obtain ⟨first, others⟩ := List.forall_mem_cons.mp each
    rw [List.flatMap_cons]
    exact (first known).bind fun next _ => ih next others

/-- Hops are made unless a field or a relation is at fault, whatever hops are known. -/
theorem hops_reports (root : String) (scope : Shape) (parent : Option Nat) (known : List Hop)
    (c : Condition) : (c.hops root scope parent known).Reports (c.scopeFaults root scope) := by
  induction c generalizing scope parent known with
  | unary f op => exact (scope.check_reports f).map _
  | binary f op v => exact (scope.check_reports f).map _
  | ternary f op v w => exact (scope.check_reports f).map _
  | collection f op vs => exact (scope.check_reports f).map _
  | relational relation inner ih =>
    rw [hops_relational, scopeFaults]
    refine (scope.check_reports relation).bind fun _ _ => ?_
    refine (hop_reports relation parent).bind fun hop found => ?_
    obtain ⟨points, -⟩ := Hop.of_ok found
    simp only [points, returnFaults]
    split
    · rfl
    · split <;> exact ih _ _ _
  | composite op children ih =>
    rw [scopeFaults, scopeFaultsOfAll_eq]
    exact hopsOfAll_reports known fun c hc known => ih c hc scope parent known

/-- Every relation leads on in the way that a statement reaches tables. -/
def Reached (reach : Reach) : Option Nat → Condition → Prop
  | scope, .relational relation inner =>
    match reach with
    | .joined joins => ∃ index join,
      (joins.findIdx? fun j => j.toHop.takes scope relation) = some index ∧
        joins[index]? = some join ∧ Reached reach (some index) inner
    | .nested => (∃ hop, Hop.of relation none = .ok hop) ∧ Reached reach none inner
  | scope, .composite _ children => ∀ c ∈ children, Reached reach scope c
  | _, _ => True

theorem reached_nested {root : String} {scope : Shape} {c : Condition} (sound : c.Scoped root scope) :
    c.Reached .nested none := by
  induction c generalizing scope with
  | relational relation inner ih =>
    rw [Scoped] at sound
    obtain ⟨-, target, key, points, keyed, -, inside⟩ := sound
    rw [Reached]
    refine ⟨⟨⟨none, relation, target, key⟩, ?_⟩, ih inside⟩
    simp only [Hop.of, points, keyed]
  | composite op children ih =>
    rw [Scoped] at sound
    rw [Reached]
    intro c hc
    exact ih c hc (sound c hc)
  | _ => simp [Reached]

open Hop (Grown Within)

theorem reached_all {root : String} {scope : Shape} {parent : Option Nat} {joins : List Join}
    {cs : List Condition} {known found : List Hop}
    (each : ∀ c ∈ cs, ∀ known found, c.hops root scope parent known = .ok found → Grown known →
      Within parent known.length → found <+: joins.map (·.toHop) → c.Reached (.joined joins) parent)
    (h : hopsOfAll root scope parent known cs = .ok found) (grown : Grown known)
    (within : Within parent known.length) (whole : found <+: joins.map (·.toHop)) :
    ∀ c ∈ cs, c.Reached (.joined joins) parent := by
  induction cs generalizing known with
  | nil => exact List.forall_mem_nil _
  | cons c cs ih =>
    obtain ⟨next, first, rest⟩ := Except.bind_eq_ok.mp h
    obtain ⟨grown', longer⟩ := hops_grown first grown within
    have within' : Within parent next.length := fun i hi =>
      Nat.lt_of_lt_of_le (within i hi) longer.length_le
    obtain ⟨-, longer'⟩ := hopsOfAll_grown root scope parent
      (fun c _ known found h grown within => hops_grown h grown within) rest grown' within'
    obtain ⟨here, others⟩ := List.forall_mem_cons.mp each
    exact List.forall_mem_cons.mpr
      ⟨here known next first grown within (longer'.trans whole), ih others rest grown' within'⟩

/-- The joins made from the hops of a condition lead along all its relations. -/
theorem reached_joined {root : String} {scope : Shape} {parent : Option Nat} {joins : List Join}
    {known found : List Hop} {c : Condition} (h : c.hops root scope parent known = .ok found)
    (grown : Grown known) (within : Within parent known.length)
    (whole : found <+: joins.map (·.toHop)) : c.Reached (.joined joins) parent := by
  induction c generalizing scope parent known found with
  | relational relation inner ih =>
    obtain ⟨hop, index, next, -, hhop, taken, added, deeper⟩ := hops_relational_ok h
    obtain ⟨grown', inside, -⟩ := grown_next hhop taken added grown within
    obtain ⟨-, longer⟩ := hops_grown deeper grown' inside
    obtain ⟨rest, all⟩ := longer.trans whole
    have found : (joins.map (·.toHop)).findIdx? (fun h => h.takes parent relation) = some index := by
      rw [← all, List.findIdx?_append, ← Hop.find?, taken]
      rfl
    rw [List.findIdx?_map] at found
    obtain ⟨there, -⟩ := List.findIdx?_eq_some_iff_getElem.mp found
    rw [Reached]
    exact ⟨index, joins[index], found, List.getElem?_eq_getElem there, ih deeper grown' inside whole⟩
  | composite op children ih =>
    rw [Reached]
    exact reached_all (fun c hc known found h => ih c hc h) h grown within whole
  | _ => simp [Reached]

theorem binaryExpr_reports (column : Sql.ColumnRef) (field : FieldRef) (op : BinaryOp)
    (operand : Value) :
    (binaryExpr column field op operand).Reports (binaryFaults field op operand) := by
  cases operand <;> cases op <;> first | rfl | exact ⟨_, rfl⟩

/-- Where every relation leads on, only operands are at fault. -/
theorem toExpr_reports (qualify : Bool) {reach : Reach} {scope : Option Nat} (name : String)
    {c : Condition} (reached : c.Reached reach scope) :
    (c.toExpr reach qualify scope name).Reports c.operandFaults := by
  induction c generalizing scope name with
  | unary f op => exact ⟨_, rfl⟩
  | binary f op v => exact binaryExpr_reports _ f op v
  | ternary f op v w =>
    cases op
    exact ⟨_, rfl⟩
  | collection f op vs => exact ⟨_, rfl⟩
  | relational relation inner ih =>
    rw [operandFaults]
    cases reach with
    | joined joins =>
      rw [Reached] at reached
      obtain ⟨index, join, taken, found, inside⟩ := reached
      simp only [toExpr, taken, found]
      exact ih join.name inside
    | nested =>
      rw [Reached] at reached
      obtain ⟨⟨hop, found⟩, inside⟩ := reached
      simp only [toExpr, found]
      exact (ih hop.target.id.table inside).bind_ok fun e => ⟨_, rfl⟩
  | composite op children ih =>
    rw [Reached] at reached
    rw [operandFaults, operandFaultsOfAll_eq]
    have parts : (toExprs reach qualify scope name children).Reports
        (children.flatMap operandFaults) := by
      rw [toExprs_eq]
      exact Except.reports_mapM fun c hc => ih c hc name (reached c hc)
    exact parts.bind_ok fun es => ⟨_, rfl⟩

theorem joins_reports (c : Condition) (e : Entity) :
    (c.joins e).Reports (c.scopeFaults e.id.table e.shape) :=
  (c.hops_reports e.id.table e.shape none []).map _

theorem reached_of_joins {c : Condition} {e : Entity} {joins : List Join}
    (h : c.joins e = .ok joins) (joining : Bool) :
    c.Reached (if joining then .joined joins else .nested) none := by
  cases joining with
  | true =>
    obtain ⟨hops, found, rfl⟩ := Except.map_eq_ok.mp h
    have start : Within none ([] : List Hop).length := fun i hi => by cases hi
    have whole : hops <+: (Hop.toJoins hops).map (·.toHop) :=
      (Join.map_toHop_toJoins hops).symm ▸ List.prefix_rfl
    exact reached_joined found .nil start whole
  | false =>
    have sound := (c.joins_reports e).ok_iff.mp ⟨joins, h⟩
    exact reached_nested (scopeFaults_eq_nil.mp sound)

end Condition

namespace Query

/-- All faults of the condition of a query. -/
def faults (q : Query) : List Error :=
  match q.predicate with
  | none => []
  | some c => c.scopeFaults q.entity.id.table q.entity.shape ++ c.operandFaults

theorem faults_some {q : Query} {c : Condition} (given : q.predicate = some c) :
    q.faults = c.scopeFaults q.entity.id.table q.entity.shape ++ c.operandFaults := by
  rw [faults, given]

/-- Joining or not, the filter is refused for the same faults. -/
theorem filter_reports (q : Query) (joining : Bool) : (q.filter joining).Reports q.faults := by
  unfold filter faults
  cases q.predicate with
  | none => exact ⟨_, rfl⟩
  | some c =>
    refine (c.joins_reports q.entity).bind fun joins joined => ?_
    have reached := Condition.reached_of_joins joined joining
    have compiled := Condition.toExpr_reports (!joins.isEmpty) q.entity.id.table reached
    exact compiled.bind_ok fun e => ⟨_, rfl⟩

theorem select_reports {q : Query} (fielded : q.entity.fields ≠ [])
    (ordered : ∀ o ∈ q.ordering, q.entity.shape.Member o.1) : q.select.Reports q.faults := by
  have some : q.entity.refs.isEmpty = false := by
    simpa [Entity.refs] using fielded
  have known : q.entity.refs.forM q.entity.shape.check = .ok () :=
    Shape.checks_ok (f := id) q.entity.member_refs
  have sorted := Shape.checks_ok ordered
  rw [select, selectFields_eq, some, if_neg Bool.false_ne_true, known]
  refine (q.filter_reports true).bind_ok fun f => ?_
  rw [sorted]
  exact ⟨_, rfl⟩

theorem count_reports (q : Query) : q.count.Reports q.faults :=
  (q.filter_reports true).bind_ok fun _ => ⟨_, rfl⟩

theorem delete_reports (q : Query) : q.delete.Reports q.faults :=
  (q.filter_reports false).bind_ok fun _ => ⟨_, rfl⟩

theorem update_reports {q : Query} (assigning : q.assignments ≠ [])
    (members : ∀ a ∈ q.assignments, q.entity.shape.Member a.1) : q.update.Reports q.faults := by
  have some : q.assignments.isEmpty = false := by
    simpa using assigning
  rw [update_eq, some, if_neg Bool.false_ne_true, Shape.checks_ok members]
  exact (q.filter_reports false).bind_ok fun f => ⟨_, rfl⟩

theorem faults_eq_nil {q : Query} : q.faults = [] ↔ ∀ c, q.predicate = some c →
    c.Scoped q.entity.id.table q.entity.shape ∧ c.Fitting := by
  unfold faults
  cases q.predicate with
  | none => simp
  | some c =>
    simp [Condition.scopeFaults_eq_nil, Condition.operandFaults_eq_nil]

/-- The values that an update assigns, as it binds them. -/
def assigned (q : Query) : List Param := q.assignments.map fun a => ⟨a.1.field.type, a.2⟩

theorem operands_assignmentSlots (ident : String → String) (q : Query) :
    (q.assignmentSlots ident).map (·.operand) = q.assigned := by
  rw [assignmentSlots, assigned, List.map_map]
  rfl

/-- Selections, counts, deletions and updates of a query are refused alike, for the first fault of a
field or relation or else of an operand, and bind the same operands where they are accepted. -/
theorem statements_accept_alike (d : Dialect) (q : Query) (fielded : q.entity.fields ≠ [])
    (ordered : ∀ o ∈ q.ordering, q.entity.shape.Member o.1) :
    q.count.map d.params = q.select.map d.params ∧
    q.delete.map d.params = q.select.map d.params ∧
    (q.assignments ≠ [] → (∀ a ∈ q.assignments, q.entity.shape.Member a.1) →
      q.update.map d.params = q.select.map fun command => q.assigned ++ d.params command) ∧
    ((∃ command, q.select = .ok command) ↔ ∀ c, q.predicate = some c →
      c.Scoped q.entity.id.table q.entity.shape ∧ c.Fitting) ∧
    ∀ c, q.predicate = some c →
      (¬ c.Scoped q.entity.id.table q.entity.shape →
        ∃ e, (c.scopeFaults q.entity.id.table q.entity.shape).head? = some e ∧
          q.select = .error e) ∧
      (c.Scoped q.entity.id.table q.entity.shape → ¬ c.Fitting →
        ∃ e, c.operandFaults.head? = some e ∧ q.select = .error e) := by
  have selects := select_reports fielded ordered
  have bound {c : Sql.Command Param} (h : q.select = .ok c) :
      d.params c = (q.slots d.ident).map (·.operand) :=
    (Request.hasSlots_selectFields d h).operands_eq
  refine ⟨?_, ?_, fun assigning members => ?_, ?_, fun c given => ⟨fun fault => ?_, ?_⟩⟩
  · refine q.count_reports.map_eq selects fun a b counted selected => ?_
    exact (Request.hasSlots_count d counted).operands_eq.trans (bound selected).symm
  · refine q.delete_reports.map_eq selects fun a b deleted selected => ?_
    exact (Request.hasSlots_delete d deleted).operands_eq.trans (bound selected).symm
  · refine (update_reports assigning members).map_eq selects fun a b updated selected => ?_
    have operands : d.params a = ((Request.update q).slots d.ident).map (·.operand) :=
      (Request.hasSlots_update d updated).operands_eq
    rw [operands, Request.slots, List.map_append, operands_assignmentSlots, bound selected]
  · rw [selects.ok_iff, faults_eq_nil]
  · rw [faults_some given] at selects
    exact selects.first fun none => fault (Condition.scopeFaults_eq_nil.mp none)
  · intro sound fault
    rw [faults_some given, Condition.scopeFaults_eq_nil.mpr sound, List.nil_append,
      ← List.append_nil c.operandFaults] at selects
    exact selects.first fun none => fault (Condition.operandFaults_eq_nil.mp none)

def renamedInOrder : Query :=
  Request.renamed.orderBy [Request.users.ref (.named "name" .text)] .desc

/-- Users are compared with null, and then asked for the title of a role. -/
def misplaced : Condition :=
  .composite .and
    [.binary (Request.users.ref (.named "name" .text)) .lessThan .null,
      .unary (Request.roles.ref (.named "title" .text)) .isNull]

def renamedParams : List Param :=
  [⟨.text, .text "a%"⟩, ⟨.integer, .int 1⟩, ⟨.integer, .int 2⟩]

theorem statements_accept_alike_renamed :
    renamedInOrder.entity.fields ≠ [] ∧
    (∀ o ∈ renamedInOrder.ordering, renamedInOrder.entity.shape.Member o.1) ∧
    renamedInOrder.assignments ≠ [] ∧
    (∀ a ∈ renamedInOrder.assignments, renamedInOrder.entity.shape.Member a.1) ∧
    renamedInOrder.count.map Dialect.generic.params = .ok renamedParams ∧
    renamedInOrder.delete.map Dialect.generic.params = .ok renamedParams ∧
    renamedInOrder.update.map Dialect.generic.params =
      .ok (⟨.text, .text "b"⟩ :: renamedParams) ∧
    ((Query.all Request.users).restrict misplaced).select =
      .error (.schemaMismatch (.notMember "Role.title" "User")) := by
  have fielded : renamedInOrder.entity.fields ≠ [] := by decide
  have ordered : ∀ o ∈ renamedInOrder.ordering, renamedInOrder.entity.shape.Member o.1 := by decide
  have assigning : renamedInOrder.assignments ≠ [] := by decide
  have members : ∀ a ∈ renamedInOrder.assignments, renamedInOrder.entity.shape.Member a.1 := by
    decide
  obtain ⟨count, delete, update, -⟩ :=
    statements_accept_alike .generic renamedInOrder fielded ordered
  have fault : ¬ misplaced.Scoped "users" Request.users.shape := by
    rw [← Condition.scopeFaults_eq_nil]
    decide
  obtain ⟨e, first, refused⟩ := ((statements_accept_alike .generic
    ((Query.all Request.users).restrict misplaced) fielded (List.forall_mem_nil _)).2.2.2.2
      misplaced rfl).1 fault
  cases first
  exact ⟨fielded, ordered, assigning, members, count, delete, update assigning members, refused⟩

end Query

end EntityStore
