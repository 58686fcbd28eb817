import EntityStore.Proofs.Schema.Derivation
import EntityStore.Proofs.Query.Joined

namespace EntityStore

/-- A foreign key for a relation points at a key column, under the type of the key, and is what
queries along the relation compare with. -/
structure ForeignKey.MeetsKey (k : ForeignKey) (schema : Schema) (types : TypeMap)
    (relation : FieldRef) (key : Attribute) : Prop where
  there : ∃ t, schema.table? k.table = some t ∧ ∃ c ∈ t.columns, c.name = k.column ∧
    c.primaryKey = true ∧ types.columnType key.type = .ok c.sqlType
  joined : ∀ (q : Query) (f : Filter), q.filter true = .ok f → ∀ j ∈ f.joins,
    j.relation = relation → (f.joinClause j).table = k.table ∧ (f.joinClause j).key = k.column
  nested : ∀ (qualify : Bool) (scope : Option Nat) (name : String) (inner : Condition)
    (x : Sql.Expr Param),
    (Condition.relational relation inner).toExpr .nested qualify scope name = .ok x →
      ∃ e, x = .amongRows (Condition.columnOf qualify name relation) k.table k.column e

/-- A foreign key for a relation to an entity without a key: no column of the table is a key, and
queries along the relation are refused. -/
structure ForeignKey.MissesKey (k : ForeignKey) (schema : Schema) (relation : FieldRef)
    (target : EntityName) : Prop where
  column : k.column = "id"
  there : ∃ t, schema.table? k.table = some t ∧ ∀ c ∈ t.columns, c.primaryKey = false
  refused : ∀ parent, Hop.of relation parent = .error (.schemaMismatch (.noKey target.name))

theorem Column.references_ofField {f : Field} {target : Entity}
    (points : f.references = some target.shape) (sqlType : String) :
    (ofField f sqlType).references =
      some ⟨target.id.table, (target.key?.map (·.column)).getD "id"⟩ := by
  have key := target.key?_shape
  simp only [ofField, points, Option.map_some, key]
  cases target.key? <;> rfl

theorem Query.resolved_of_filter {q : Query} {f : Filter} (h : q.filter true = .ok f) :
    ∀ j ∈ f.joins, Hop.of j.relation j.parent = .ok j.toHop := by
  rcases filter_ok h with ⟨-, rfl⟩ | ⟨c, joins, x, -, joined, -, rfl⟩
  · exact List.forall_mem_nil _
  · exact fun j there => (Join.resolved_of_joins joined j there).of

section

variable {schema : Schema} {types : TypeMap} {e : Entity} {f : Field} {target : Entity}

/-- A relation to an entity with a key has one column to compare with. -/
theorem ForeignKey.MeetsKey.of_key (points : f.references = some target.shape) {key : Field}
    (keyed : target.key? = some key) {t : Table} (there : schema.table? target.id.table = some t)
    (made : Table.ofEntity target types = .ok t) :
    MeetsKey ⟨target.id.table, key.column⟩ schema types (e.ref f) key.toAttribute := by
  have shape : target.shape.key? = some key.toAttribute := by
    rw [Entity.key?_shape, keyed, Option.map_some]
  have hop {parent : Option Nat} {h : Hop} (found : Hop.of (e.ref f) parent = .ok h) :
      h.target = target.shape ∧ h.targetKey = key.toAttribute := by
    obtain ⟨target', key'⟩ := Hop.of_ok found
    have same : target.shape = h.target := Option.some.inj (points.symm.trans target')
    rw [← same] at key'
    exact ⟨same.symm, Option.some.inj (key'.symm.trans shape)⟩
  refine ⟨⟨t, there, ?_⟩, fun q filter compiled j joins relation => ?_,
    fun qualify scope name inner x compiled => ?_⟩
  · obtain ⟨c, hc, type, own⟩ := Table.field_has_column made (List.mem_of_find?_eq_some keyed)
    have primary : key.primaryKey = true :=
      List.find?_some (p := fun f : Field => f.primaryKey) keyed
    refine ⟨c, hc, ?_, ?_, type⟩
    · rw [own]
      rfl
    · rw [own]
      exact primary
  · have found := Query.resolved_of_filter compiled j joins
    rw [relation] at found
    obtain ⟨same, key'⟩ := hop found
    rw [Filter.joinClause, same, key']
    exact ⟨rfl, rfl⟩
  · rw [Condition.toExpr] at compiled
    obtain ⟨h, found, compiled⟩ := Except.bind_eq_ok.mp compiled
    obtain ⟨same, key'⟩ := hop found
    obtain ⟨x', -, compiled⟩ := Except.bind_eq_ok.mp compiled
    cases compiled
    exact ⟨x', by rw [same, key']; rfl⟩

theorem ForeignKey.MissesKey.of_none (points : f.references = some target.shape)
    (keyless : target.key? = none) {t : Table} (there : schema.table? target.id.table = some t)
    (made : Table.ofEntity target types = .ok t) :
    MissesKey ⟨target.id.table, "id"⟩ schema (e.ref f) target.id := by
  refine ⟨rfl, ⟨t, there, fun c hc => ?_⟩, fun parent => ?_⟩
  · obtain ⟨g, hg, -, own⟩ := Table.column_of_field made hc
    have plain := List.find?_eq_none.mp keyless g hg
    rw [own]
    exact Bool.eq_false_iff.mpr plain
  · have shape : target.shape.key? = none := by rw [Entity.key?_shape, keyless, Option.map_none]
    simp only [Hop.of, Entity.ref, points, shape]
    rfl

end

/-- Every foreign key of a derived schema belongs to a relation. It points at the key of the entity
that the relation leads to, where queries along the relation look, if that entity has a key; and if
not, at a column that is no key, while queries are refused. -/
theorem Schema.references_meet_keys (entities : List Entity) (types : TypeMap) (schema : Schema)
    (distinct : (entities.map (·.id.table)).Nodup)
    (closed : ∀ e ∈ entities, ∀ f ∈ e.fields, ∀ target ∈ f.references,
      ∃ e' ∈ entities, e'.shape = target)
    (made : ofEntities entities types = .ok schema) (name : String) (t : Table)
    (found : schema.table? name = some t) (c : Column) (hc : c ∈ t.columns) (k : ForeignKey)
    (points : c.references = some k) :
    ∃ e ∈ entities, ∃ f ∈ e.fields, ∃ target ∈ entities, name = e.id.table ∧ c.name = f.column ∧
      f.references = some target.shape ∧ k.table = target.id.table ∧
      match target.key? with
      | some key => k.MeetsKey schema types (e.ref f) key.toAttribute
      | none => k.MissesKey schema (e.ref f) target.id := by
  obtain ⟨named, e, he, own⟩ := ofEntities_ok made found
  obtain ⟨f, hf, -, column⟩ := Table.column_of_field own hc
  rw [column] at points
  obtain ⟨shape, references, -⟩ := Option.map_eq_some_iff.mp points
  obtain ⟨target, there, rfl⟩ := closed e he f hf shape references
  obtain rfl := Option.some.inj ((Column.references_ofField references _).symm.trans points)
  obtain ⟨t', found', own'⟩ := ofEntities_own made distinct there
  refine ⟨e, he, f, hf, target, there, named.symm.trans (Table.ofEntity_name own),
    by rw [column]; rfl, references, rfl, ?_⟩
  cases keyed : target.key? with
  | some key => exact .of_key references keyed found' own'
  | none => exact .of_none references keyed found' own'

namespace Schema

/-- Members as others refer to them: they are known by the instant at which they joined. -/
def memberShape : Shape :=
  ⟨⟨"Member", "members"⟩, [(Field.named "since" .date).asPrimaryKey.toAttribute,
    ((Field.named "mentor" .date).inColumn "mentor_since").asNullable.toAttribute,
    ((Field.named "team" .text).inColumn "team_division").toAttribute]⟩

/-- Teams are known by a division and a number, and are led by a member. -/
def teams : Entity :=
  ⟨⟨"Team", "teams"⟩, [(Field.named "division" .text).asPrimaryKey,
    (Field.named "number" .integer).asPrimaryKey,
    ((Field.named "lead" .date).inColumn "lead_since").referencing memberShape]⟩

def mentor : Field :=
  ((Field.named "mentor" .date).inColumn "mentor_since").asNullable.referencing memberShape

/-- Members belong to teams, and have other members as mentors. -/
def members : Entity :=
  ⟨⟨"Member", "members"⟩, [(Field.named "since" .date).asPrimaryKey, mentor,
    ((Field.named "team" .text).inColumn "team_division").referencing teams.shape]⟩

theorem references_meet_keys_members :
    ∃ schema t, ofEntities [teams, members] .sqlite = .ok schema ∧
      schema.table? "members" = some t ∧
      Column.ofField mentor "INTEGER" ∈ t.columns ∧
      ForeignKey.MeetsKey ⟨"members", "since"⟩ schema .sqlite (members.ref mentor)
        (Field.named "since" .date).asPrimaryKey.toAttribute := by
  have distinct : ([teams, members].map (·.id.table)).Nodup := by decide
  have closed : ∀ e ∈ [teams, members], ∀ f ∈ e.fields, ∀ target ∈ f.references,
      ∃ e' ∈ [teams, members], e'.shape = target := by decide
  refine ⟨_, _, rfl, rfl, List.mem_cons_of_mem _ List.mem_cons_self, ?_⟩
  obtain ⟨e, he, f, hf, target, ht, table, column, points, -, meets⟩ :=
    references_meet_keys [teams, members] .sqlite _ distinct closed rfl "members" _ rfl
      (Column.ofField mentor "INTEGER") (List.mem_cons_of_mem _ List.mem_cons_self) _ rfl
  have own : ∀ e ∈ [teams, members], "members" = e.id.table → e = members := by decide
  obtain rfl := own e he table
  have named : ∀ f ∈ members.fields, (Column.ofField mentor "INTEGER").name = f.column →
      f = mentor := by decide
  obtain rfl := named f hf column
  have one : ∀ target ∈ [teams, members], mentor.references = some target.shape →
      target = members := by decide
  obtain rfl := one target ht points
  exact meets

/-- Notes have no key. -/
def notes : Entity :=
  ⟨⟨"Note", "notes"⟩, [.named "title" .text, (Field.named "body" .text).asNullable]⟩

def pins : Entity :=
  ⟨⟨"Pin", "pins"⟩, [(Field.named "id" .integer).asPrimaryKey,
    ((Field.named "note" .integer).inColumn "note_id").asNullable.referencing notes.shape]⟩

/-- A schema is derived whose foreign key points at a column that is not there. -/
theorem pins_point_nowhere :
    ([pins, notes].map (·.id.table)).Nodup ∧
    (∀ e ∈ [pins, notes], ∀ f ∈ e.fields, ∀ target ∈ f.references,
      ∃ e' ∈ [pins, notes], e'.shape = target) ∧
    ∃ schema t c t', ofEntities [pins, notes] .generic = .ok schema ∧
      schema.table? "pins" = some t ∧ c ∈ t.columns ∧ c.references = some ⟨"notes", "id"⟩ ∧
      schema.table? "notes" = some t' ∧ ∀ c' ∈ t'.columns, c'.name ≠ "id" := by
  exact ⟨by decide, by decide, _, _, _, _, rfl, rfl, List.mem_cons_of_mem _ List.mem_cons_self, rfl,
    rfl, by decide⟩

end Schema

end EntityStore
