import EntityStore.Proofs.Query.Correspondence
import EntityStore.Proofs.Sql.Bound
import EntityStore.TypeMap

namespace EntityStore

open Sql (Binding)

/-- Some field of the entity is stored in the column as this type. -/
def Shape.Stores (s : Shape) (column : String) (type : FieldType) : Prop :=
  ∃ a ∈ s.attributes, a.column = column ∧ a.type = type

instance (s : Shape) (column : String) (type : FieldType) : Decidable (s.Stores column type) := by
  unfold Shape.Stores
  infer_instance

theorem Shape.members_of_checks {s : Shape} {α : Type} {as : List α} {f : α → FieldRef} {u : Unit}
    (checked : (as.forM fun a => s.check (f a)) = .ok u) : ∀ a ∈ as, s.Member (f a) := by
  induction as with
  | nil => exact List.forall_mem_nil _
  | cons a as ih =>
    rw [List.forM_eq_forM, List.forM_cons, check_eq] at checked
    obtain ⟨_, first, others⟩ := Except.bind_eq_ok.mp checked
    split at first
    · rename_i member
      exact List.forall_mem_cons.mpr ⟨member, ih others⟩
    · cases first

/-- A field that a statement compares with a value or assigns it to, and the entity whose table has
the column. -/
structure Use where
  owner : Shape
  field : FieldRef
  /-- The value is a pattern. -/
  pattern : Bool
  value : Value

namespace Use

def param (u : Use) : Param := ⟨if u.pattern then .text else u.field.field.type, u.value⟩

/-- A qualifier is a name of a table of the entity; columns of the root may go without. -/
def Qualifies (names : String → String → Prop) (root : Shape) (qualifier : Option String)
    (owner : Shape) : Prop :=
  match qualifier with
  | none => owner = root
  | some name => names name owner.id.table

/-- The value is bound beside the column of the field, in a table of the owner. -/
structure At (names : String → String → Prop) (root : Shape) (b : Binding Param) (u : Use) :
    Prop where
  operand : b.operand = u.param
  column : b.column.column = u.field.field.column
  table : Qualifies names root b.column.qualifier u.owner

/-- The value is bound as the type that the owner declares for the column, or as a text if it is a
pattern. -/
def Declared (b : Binding Param) (u : Use) : Prop :=
  if u.pattern then b.operand.type = .text else u.owner.Stores b.column.column b.operand.type

/-- The reference itself has the type that the owner declares for its column. -/
def Agrees (u : Use) : Prop := u.owner.Stores u.field.field.column u.field.field.type

instance (u : Use) : Decidable u.Agrees := by
  unfold Agrees
  infer_instance

theorem At.declared_iff {names : String → String → Prop} {root : Shape} {b : Binding Param} {u : Use}
    (bound : At names root b u) : Declared b u ↔ (u.pattern = false → u.Agrees) := by
  rw [Declared, bound.operand, bound.column, param, Agrees]
  cases u.pattern <;> simp

theorem forall₂_declared_iff {names : String → String → Prop} {root : Shape}
    {bs : List (Binding Param)} {us : List Use} (bound : List.Forall₂ (At names root) bs us) :
    List.Forall₂ Declared bs us ↔ ∀ u ∈ us, u.pattern = false → u.Agrees := by
  induction bound with
  | nil => simp
  | cons first _ ih => rw [List.forall₂_cons, first.declared_iff, ih, List.forall_mem_cons]

end Use

/-- Where a relation leads: the place of the join that it takes, the name of the table there, and
its entity. -/
structure Landing where
  scope : Option Nat
  name : String
  target : Shape

def Reach.follow : Reach → Option Nat → FieldRef → Option Landing
  | .joined joins, scope, relation =>
    (joins.findIdx? fun j => j.toHop.takes scope relation).bind fun index =>
      joins[index]?.map fun join => ⟨some index, join.name, join.target⟩
  | .nested, _, relation =>
    relation.field.references.map fun target => ⟨none, target.id.table, target⟩

namespace Condition

section

variable (reach : Reach)

mutual

/-- The fields that a condition compares, from left to right. Null is not compared. -/
def uses : Option Nat → Shape → Condition → List Use
  | _, _, .unary _ _ => []
  | _, owner, .binary field op v =>
    if v.isNull then []
    else [⟨owner, field, op.isPattern, (comparisonParam field op v).value⟩]
  | _, owner, .ternary field _ low high => [⟨owner, field, false, low⟩, ⟨owner, field, false, high⟩]
  | _, owner, .collection field _ vs => vs.map fun v => ⟨owner, field, false, v⟩
  | scope, _, .relational relation inner =>
    match reach.follow scope relation with
    | none => []
    | some landing => uses landing.scope landing.target inner
  | scope, owner, .composite _ children => usesOfAll scope owner children

def usesOfAll : Option Nat → Shape → List Condition → List Use
  | _, _, [] => []
  | scope, owner, c :: cs => uses scope owner c ++ usesOfAll scope owner cs

end

end

variable {reach : Reach}

theorem usesOfAll_eq (scope : Option Nat) (owner : Shape) (cs : List Condition) :
    usesOfAll reach scope owner cs = cs.flatMap (uses reach scope owner) := by
  induction cs with
  | nil => rfl
  | cons c cs ih => rw [usesOfAll, ih, List.flatMap_cons]

theorem bindings_binaryExpr {column : Sql.ColumnRef} {field : FieldRef} {op : BinaryOp} {v : Value}
    {e : Sql.Expr Param} (h : binaryExpr column field op v = .ok e) (owner : Shape) :
    e.bindings = if v.isNull then []
      else [⟨column, Use.param ⟨owner, field, op.isPattern, (comparisonParam field op v).value⟩⟩] := by
  unfold binaryExpr at h
  split at h
  · rename_i null
    rw [if_pos null]
    cases op <;> cases h <;> rfl
  · rename_i bound
    rw [if_neg bound]
    split at h
    · rename_i pattern
      cases v <;> cases h
      simp [Sql.Expr.bindings, Use.param, comparisonParam, pattern]
    · rename_i plain
      cases h
      have same : comparisonParam field op v = ⟨field.field.type, v⟩ := by
        cases v <;> simp [comparisonParam, plain]
      simp [Sql.Expr.bindings, Use.param, same, plain]

theorem bindings_collectionExpr (column : Sql.ColumnRef) (field : FieldRef) (op : CollectionOp)
    (vs : List Value) :
    (collectionExpr column field op vs).bindings =
      vs.map fun v => ⟨column, ⟨field.field.type, v⟩⟩ := by
  cases vs with
  | nil => rfl
  | cons v vs => simp [collectionExpr, Sql.Expr.bindings]

/-- The inner condition of a relation is compiled for where the relation leads. -/
theorem toExpr_relational {qualify : Bool} {scope : Option Nat} {name : String} {relation : FieldRef}
    {inner : Condition} {e : Sql.Expr Param}
    (h : (relational relation inner).toExpr reach qualify scope name = .ok e) :
    ∃ landing e', reach.follow scope relation = some landing ∧
      inner.toExpr reach qualify landing.scope landing.name = .ok e' ∧ e.bindings = e'.bindings := by
  cases reach with
  | joined joins =>
    simp only [toExpr] at h
    split at h
    · cases h
    · rename_i index taken
      split at h
      · cases h
      · rename_i join found
        exact ⟨⟨some index, join.name, join.target⟩, e, by simp [Reach.follow, taken, found], h, rfl⟩
  | nested =>
    obtain ⟨hop, hhop, h⟩ := Except.bind_eq_ok.mp h
    obtain ⟨e', he, h⟩ := Except.bind_eq_ok.mp h
    cases h
    obtain ⟨points, -⟩ := Hop.of_ok hhop
    exact ⟨⟨none, hop.target.id.table, hop.target⟩, e', by simp [Reach.follow, points], he, rfl⟩

section

variable {names : String → String → Prop} {root : Shape}

/-- What a search condition binds are the values of the fields that are compared, in order and each
beside its column. -/
theorem bindings_toExpr
    (lands : ∀ scope relation landing, reach.follow scope relation = some landing →
      names landing.name landing.target.id.table)
    {qualify : Bool} {scope : Option Nat} {name : String} {owner : Shape} {c : Condition}
    {e : Sql.Expr Param} (h : c.toExpr reach qualify scope name = .ok e)
    (here : Use.Qualifies names root (if qualify then some name else none) owner)
    (alone : qualify = false → c.hasRelations = false) :
    List.Forall₂ (Use.At names root) e.bindings (c.uses reach scope owner) := by
  induction c generalizing scope name owner e with
  | unary field op =>
    cases h
    exact .nil
  | binary field op v =>
    rw [bindings_binaryExpr h owner, uses]
    split
    · exact .nil
    · exact .cons ⟨rfl, rfl, here⟩ .nil
  | ternary field op low high =>
    cases op
    cases h
    exact .cons ⟨rfl, rfl, here⟩ (.cons ⟨rfl, rfl, here⟩ .nil)
  | collection field op vs =>
    cases h
    rw [bindings_collectionExpr, uses, List.forall₂_map_left_iff, List.forall₂_map_right_iff,
      List.forall₂_same]
    exact fun v _ => ⟨rfl, rfl, here⟩
  | relational relation inner ih =>
    obtain ⟨landing, e', leads, he, same⟩ := toExpr_relational h
    have qualified : qualify = true := by
      by_contra not
      cases alone (Bool.eq_false_iff.mpr not)
    subst qualified
    have there : Use.Qualifies names root (some landing.name) landing.target :=
      lands scope relation landing leads
    rw [same, uses, leads]
    exact ih he there (fun no => by cases no)
  | composite op children ih =>
    obtain ⟨es, hes, h⟩ := Except.bind_eq_ok.mp h
    cases h
    rw [toExprs_eq] at hes
    rw [Sql.Expr.bindings_ofParts, uses, usesOfAll_eq]
    have inside : ∀ c ∈ children, qualify = false → c.hasRelations = false := by
      intro c hc single
      have none := alone single
      rw [hasRelations, anyRelations_eq, List.any_eq_false] at none
      exact Bool.eq_false_iff.mpr (none c hc)
    have parts : List.Forall₂
        (fun c e => List.Forall₂ (Use.At names root) e.bindings (c.uses reach scope owner))
        children es :=
      ((List.forall₂_and_left children es).mpr ⟨fun c hc => hc, Except.mapM_forall₂ hes⟩).imp
        fun c e part => ih c part.1 part.2 here (inside c part.1)
    exact List.rel_flatMap parts.flip fun _ _ part => part

/-- A field that is compared belongs to the entity whose column is meant, as long as relations lead
to their own entities. -/
theorem member_of_uses {start : String}
    {whole : Condition} (own : ∀ scope, ∀ relation ∈ whole.fields, ∀ landing,
      reach.follow scope relation = some landing → relation.field.references = some landing.target)
    {scope : Option Nat} {owner : Shape} {c : Condition} (part : c.fields ⊆ whole.fields)
    (sound : c.Scoped start owner) : ∀ u ∈ c.uses reach scope owner, u.owner.Member u.field := by
  induction c generalizing scope owner with
  | unary field op => exact List.forall_mem_nil _
  | binary field op v =>
    rw [Scoped] at sound
    rw [uses]
    split
    · exact List.forall_mem_nil _
    · exact List.forall_mem_singleton.mpr sound
  | ternary field op low high =>
    rw [Scoped] at sound
    exact List.forall_mem_cons.mpr ⟨sound, List.forall_mem_singleton.mpr sound⟩
  | collection field op vs =>
    rw [Scoped] at sound
    exact List.forall_mem_map.mpr fun _ _ => sound
  | relational relation inner ih =>
    rw [Scoped] at sound
    obtain ⟨-, target, key, points, -, -, inside⟩ := sound
    rw [uses]
    cases leads : reach.follow scope relation with
    | none => exact List.forall_mem_nil _
    | some landing =>
      have mentioned : relation ∈ whole.fields :=
        part (List.mem_append_right _ (List.mem_singleton_self _))
      have target_eq := own scope relation mentioned landing leads
      rw [points] at target_eq
      cases target_eq
      exact ih (fun f hf => part (List.mem_append_left _ hf)) inside
  | composite op children ih =>
    rw [Scoped] at sound
    rw [uses, usesOfAll_eq]
    intro u there
    obtain ⟨c, hc, there⟩ := List.mem_flatMap.mp there
    refine ih c hc (fun f hf => part ?_) (sound c hc) u there
    rw [fields, fieldsOfAll_eq]
    exact List.mem_flatMap.mpr ⟨c, hc, hf⟩

end

theorem hasRelations_of_no_joins {c : Condition} {e : Entity} (alone : c.joins e = .ok []) :
    c.hasRelations = false := by
  obtain ⟨hops, found, none⟩ := Except.map_eq_ok.mp alone
  have no_hops : hops = [] := by
    rw [← Join.map_toHop_toJoins hops, none]
    rfl
  have paths := paths_of_hops found .nil fun i hi => by cases hi
  rw [no_hops] at paths
  exact relationPaths_eq_nil.mp (Path.eraseDups_eq_nil.mp paths.symm)

end Condition

namespace Sql

/-- The names of tables in a source: the first table goes by its own name, and joined ones by those
of their joins. -/
def Source.Names {α : Type} (s : Source α) (name table : String) : Prop :=
  name = s.table ∧ table = s.table ∨ ∃ j ∈ s.joins, j.name = name ∧ j.table = table

/-- The names that a statement knows tables by. A change calls every table by its own, also in inner
conditions. -/
def Command.Names {α : Type} : Command α → String → String → Prop
  | .select _ source _ _ => source.Names
  | .count source _ => source.Names
  | _ => (· = ·)

end Sql

namespace Query

/-- The fields that the condition of a query compares, with the entities that its relations lead to. -/
def comparedUses (q : Query) (joining : Bool) : List Use :=
  match q.predicate with
  | none => []
  | some c =>
    match c.joins q.entity with
    | .error _ => []
    | .ok joins => c.uses (if joining then .joined joins else .nested) none q.entity.shape

def assignedUses (q : Query) : List Use := q.assignments.map fun a => ⟨q.entity.shape, a.1, false, a.2⟩

/-- The fields that a statement of a query compares or assigns, in the order of its text. -/
def uses (q : Query) : Sql.Command Param → List Use
  | .select .. | .count .. => q.comparedUses true
  | .update .. => q.assignedUses ++ q.comparedUses false
  | .delete .. => q.comparedUses false
  | _ => []

theorem bindings_filter {q : Query} {joining : Bool} {f : Filter} (h : q.filter joining = .ok f)
    {names : String → String → Prop} (root : names q.entity.id.table q.entity.id.table)
    (joined : joining = true → ∀ j ∈ f.joins, names j.name j.target.id.table)
    (nested : joining = false → ∀ table, names table table) :
    List.Forall₂ (Use.At names q.entity.shape) (Sql.Command.filterBindings f.clause)
      (q.comparedUses joining) := by
  rcases filter_ok h with ⟨none, rfl⟩ | ⟨c, joins, e, given, accepted, compiled, rfl⟩
  · rw [comparedUses, none]
    exact .nil
  · simp only [comparedUses, given, accepted]
    refine Condition.bindings_toExpr (fun scope relation landing leads => ?_) compiled ?_ fun alone => ?_
    · cases joining with
      | true =>
        obtain ⟨index, -, found⟩ := Option.bind_eq_some_iff.mp leads
        obtain ⟨join, there, rfl⟩ := Option.map_eq_some_iff.mp found
        exact joined rfl join (List.mem_of_getElem? there)
      | false =>
        obtain ⟨target, -, rfl⟩ := Option.map_eq_some_iff.mp leads
        exact nested rfl target.id.table
    · cases joins with
      | nil => rfl
      | cons join joins => exact root
    · have none : joins = [] := by simpa using alone
      exact Condition.hasRelations_of_no_joins (none ▸ accepted)

theorem bindings_source {q : Query} {f : Filter} (h : q.filter true = .ok f) :
    List.Forall₂ (Use.At (f.source q.entity.id.table).Names q.entity.shape)
      (Sql.Command.filterBindings f.clause) (q.comparedUses true) := by
  refine bindings_filter h (.inl ⟨rfl, rfl⟩) (fun _ j there => ?_) (fun no => by cases no)
  exact .inr ⟨f.joinClause j, List.mem_map_of_mem there, rfl, rfl⟩

theorem bindings_nested {q : Query} {f : Filter} (h : q.filter false = .ok f) :
    List.Forall₂ (Use.At (· = ·) q.entity.shape) (Sql.Command.filterBindings f.clause)
      (q.comparedUses false) :=
  bindings_filter h rfl (fun no => by cases no) fun _ _ => rfl

/-- The fields that are compared belong to the entities whose columns are meant, unless a join was
made for another field of the same name. -/
theorem members_compared {q : Query} {joining : Bool} {f : Filter} (h : q.filter joining = .ok f)
    (coherent : joining = true → ∀ c, q.predicate = some c → c.Coherent) :
    ∀ u ∈ q.comparedUses joining, u.owner.Member u.field := by
  rcases filter_ok h with ⟨none, rfl⟩ | ⟨c, joins, e, given, accepted, -, rfl⟩
  · rw [comparedUses, none]
    exact List.forall_mem_nil _
  · have sound : c.Scoped q.entity.id.table q.entity.shape :=
      Condition.scopeFaults_eq_nil.mp ((c.joins_reports q.entity).ok_iff.mp ⟨joins, accepted⟩)
    simp only [comparedUses, given, accepted]
    refine Condition.member_of_uses (fun scope relation mentioned landing leads => ?_)
      (List.Subset.refl c.fields) sound
    cases joining with
    | true =>
      obtain ⟨index, taken, found⟩ := Option.bind_eq_some_iff.mp leads
      obtain ⟨join, there, rfl⟩ := Option.map_eq_some_iff.mp found
      have resolved := Join.resolved_of_joins accepted
      have field := Condition.field_of_taken (coherent rfl c given) resolved mentioned taken there
      rw [← field]
      exact (Hop.of_ok (resolved join (List.mem_of_getElem? there)).of).1
    | false =>
      obtain ⟨target, points, rfl⟩ := Option.map_eq_some_iff.mp leads
      exact points

theorem members_assigned {q : Query} {command : Sql.Command Param} (h : q.update = .ok command) :
    ∀ a ∈ q.assignments, q.entity.shape.Member a.1 := by
  rw [update_eq] at h
  split at h
  · cases h
  · obtain ⟨_, checked, -⟩ := Except.bind_eq_ok.mp h
    exact Shape.members_of_checks checked

theorem Selects.bindings {q : Query} {command : Sql.Command Param} (h : q.Selects command) :
    command.mayFilter = true ∧
      List.Forall₂ (Use.At command.Names q.entity.shape) command.bindings (q.uses command) := by
  rcases h.fields_or_count with ⟨fields, h⟩ | h
  · obtain ⟨f, hf, rfl⟩ := selectFields_ok h
    exact ⟨rfl, bindings_source hf⟩
  · obtain ⟨f, hf, rfl⟩ := count_ok h
    exact ⟨rfl, bindings_source hf⟩

theorem Changes.bindings {q : Query} {command : Sql.Command Param} (h : q.Changes command) :
    command.mayFilter = true ∧
      List.Forall₂ (Use.At command.Names q.entity.shape) command.bindings (q.uses command) := by
  rcases h with h | h
  · obtain ⟨f, hf, rfl⟩ := delete_ok h
    exact ⟨rfl, bindings_nested hf⟩
  · obtain ⟨f, hf, rfl⟩ := update_ok h
    refine ⟨rfl, List.rel_append ?_ (bindings_nested hf)⟩
    rw [assignedUses, List.map_map, List.forall₂_map_left_iff, List.forall₂_map_right_iff,
      List.forall₂_same]
    exact fun a _ => ⟨rfl, rfl, rfl⟩

theorem Selects.members {q : Query} {command : Sql.Command Param} (h : q.Selects command)
    (coherent : ∀ c, q.predicate = some c → c.Coherent) :
    ∀ u ∈ q.uses command, u.owner.Member u.field := by
  rcases h.fields_or_count with ⟨fields, h⟩ | h
  · obtain ⟨f, hf, rfl⟩ := selectFields_ok h
    exact members_compared hf fun _ => coherent
  · obtain ⟨f, hf, rfl⟩ := count_ok h
    exact members_compared hf fun _ => coherent

theorem Changes.members {q : Query} {command : Sql.Command Param} (h : q.Changes command) :
    ∀ u ∈ q.uses command, u.owner.Member u.field := by
  rcases h with h | h
  · obtain ⟨f, hf, rfl⟩ := delete_ok h
    exact members_compared hf fun no => by cases no
  · have assigned := members_assigned h
    obtain ⟨f, hf, rfl⟩ := update_ok h
    exact List.forall_mem_append.mpr
      ⟨List.forall_mem_map.mpr assigned, members_compared hf fun no => by cases no⟩

/-- The parameters of a statement are the values beside its columns, in order: those of the fields
that it assigns and compares, each beside the column of its field in a table of the entity that the
relations lead to. That entity declares a field of this name and column, in joined statements too
unless two of their relations differ under one name. All parameters have the types that the entities
declare, and patterns are texts, just where every reference has the declared type itself. -/
theorem params_typed_by_references {q : Query} {command : Sql.Command Param}
    (compiled : q.Selects command ∨ q.Changes command) :
    (∀ d : Dialect, d.params command = command.bindings.map (·.operand)) ∧
    List.Forall₂ (Use.At command.Names q.entity.shape) command.bindings (q.uses command) ∧
    (q.Changes command ∨ (∀ c, q.predicate = some c → c.Coherent) →
      ∀ u ∈ q.uses command, u.owner.Member u.field) ∧
    (List.Forall₂ Use.Declared command.bindings (q.uses command) ↔
      ∀ u ∈ q.uses command, u.pattern = false → u.Agrees) := by
  obtain ⟨filtered, bound⟩ : command.mayFilter = true ∧
      List.Forall₂ (Use.At command.Names q.entity.shape) command.bindings (q.uses command) :=
    compiled.elim Selects.bindings Changes.bindings
  refine ⟨fun d => Sql.Command.operands_commandPieces d filtered, bound, fun known => ?_,
    Use.forall₂_declared_iff bound⟩
  rcases known with changes | coherent
  · exact changes.members
  · exact compiled.elim (fun selects => selects.members coherent) Changes.members

theorem params_typed_by_references_labelled :
    labelled.Changes labelledUpdate ∧
    List.Forall₂ Use.Declared labelledUpdate.bindings (labelled.uses labelledUpdate) := by
  have changes : labelled.Changes labelledUpdate := .inr rfl
  exact ⟨changes, (params_typed_by_references (.inr changes)).2.2.2.mpr (by decide)⟩

def visits : Entity :=
  ⟨⟨"Visit", "visits"⟩, [(Field.named "id" .integer).asPrimaryKey, .named "at" .date]⟩

def entries : Entity :=
  ⟨⟨"Entry", "entries"⟩, [(Field.named "id" .integer).asPrimaryKey, .named "at" .text]⟩

/-- Visits after an instant, by the field of another entity. -/
def recent : Query :=
  (Query.all visits).restrict
    (.binary (visits.ref (.named "at" .text)) .greaterThan (.time .epoch))

/-- An instant is compared with a column of dates as a text, and is not stored as its dates are. -/
theorem instant_compared_as_text :
    (Field.named "at" .text) ∈ entries.fields ∧
    ∃ command, recent.select = .ok command ∧
      command.bindings.map (fun b => (b.column, b.operand)) =
        [(⟨none, "at"⟩, ⟨.text, .time .epoch⟩)] ∧
      (∀ type, visits.shape.Stores "at" type → type = .date) ∧
      TypeMap.sqlite.encode .date (.time .epoch) = .ok (.int 0) ∧
      TypeMap.sqlite.encode .text (.time .epoch) = .ok (.time .epoch) := by
  have only : ∀ a ∈ visits.shape.attributes, a.column = "at" → a.type = .date := by decide
  refine ⟨by decide, _, rfl, rfl, ?_, rfl, rfl⟩
  rintro type ⟨a, there, column, rfl⟩
  exact only a there column

end Query

end EntityStore
