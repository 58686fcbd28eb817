import EntityStore.Proofs.Outcome
import EntityStore.Schema.Basic
import Mathlib.Data.List.Nodup

namespace EntityStore

namespace Table

variable {e : Entity} {types : TypeMap} {t : Table}

theorem ofEntity_eq_ok : ofEntity e types = .ok t ↔ ∃ columns, t = ⟨e.id.table, columns⟩ ∧
    e.fields.mapM (fun f => (types.columnType f.type).map (Column.ofField f)) = .ok columns := by
  rw [ofEntity]
  constructor
  · intro made
    obtain ⟨columns, each, made⟩ := Except.bind_eq_ok.mp made
    cases made
    exact ⟨columns, rfl, each⟩
  · rintro ⟨columns, rfl, each⟩
    exact Except.bind_eq_ok.mpr ⟨columns, each, rfl⟩

theorem ofEntity_name (made : ofEntity e types = .ok t) : t.name = e.id.table := by
  obtain ⟨columns, rfl, -⟩ := ofEntity_eq_ok.mp made
  rfl

theorem ofEntity_columns (made : ofEntity e types = .ok t) :
    t.columns.map (·.name) = e.fields.map (·.column) := by
  obtain ⟨columns, rfl, each⟩ := ofEntity_eq_ok.mp made
  refine Except.mapM_map_eq (fun f c own => ?_) each
  obtain ⟨type, -, rfl⟩ := Except.map_eq_ok.mp own
  rfl

/-- Each column is that of a field. -/
theorem column_of_field (made : ofEntity e types = .ok t) {c : Column} (hc : c ∈ t.columns) :
    ∃ f ∈ e.fields, types.columnType f.type = .ok c.sqlType ∧ c = .ofField f c.sqlType := by
  obtain ⟨columns, rfl, each⟩ := ofEntity_eq_ok.mp made
  obtain ⟨f, hf, own⟩ := Except.mapM_mem each hc
  obtain ⟨type, known, rfl⟩ := Except.map_eq_ok.mp own
  exact ⟨f, hf, known, rfl⟩

/-- Each field has its column. -/
theorem field_has_column (made : ofEntity e types = .ok t) {f : Field} (hf : f ∈ e.fields) :
    ∃ c ∈ t.columns, types.columnType f.type = .ok c.sqlType ∧ c = .ofField f c.sqlType := by
  obtain ⟨columns, rfl, each⟩ := ofEntity_eq_ok.mp made
  obtain ⟨c, hc, own⟩ := Except.mapM_mem_left each hf
  obtain ⟨type, known, rfl⟩ := Except.map_eq_ok.mp own
  exact ⟨_, hc, known, rfl⟩

end Table

namespace Schema

theorem table?_add (s : Schema) (t : Table) (name : String) :
    (s.add t).table? name = if name = t.name then some t else s.table? name :=
  s.tables.get?_insert t.name t name

/-- Of tables with one name the last one counts. -/
theorem table?_adds (ts : List Table) (s : Schema) (name : String) :
    (ts.foldl add s).table? name =
      (ts.reverse.find? fun t => t.name == name).or (s.table? name) := by
  induction ts generalizing s with
  | nil => rfl
  | cons t ts ih =>
    rw [List.foldl_cons, ih, table?_add, List.reverse_cons, List.find?_append, Option.or_assoc,
      List.find?_singleton]
    refine congrArg (Option.or _) ?_
    by_cases here : name = t.name
    · simp [here]
    · simp [here, Ne.symm here]

theorem ofEntities_eq (entities : List Entity) (types : TypeMap) :
    ofEntities entities types =
      (entities.mapM fun e => Table.ofEntity e types).map (List.foldl add empty) := by
  have fold (entities : List Entity) (start : Schema) :
      entities.foldlM (fun s e => (Table.ofEntity e types).map s.add) start =
        (entities.mapM fun e => Table.ofEntity e types).map (List.foldl add start) := by
    induction entities generalizing start with
    | nil => rfl
    | cons e entities ih =>
      rw [List.foldlM_cons, List.mapM_cons]
      cases Table.ofEntity e types with
      | error fault => rfl
      | ok t =>
        refine (ih (start.add t)).trans ?_
        cases entities.mapM fun e => Table.ofEntity e types <;> rfl
  exact fold entities empty

section

variable {entities more : List Entity} {types : TypeMap} {s s' : Schema} {name : String} {t : Table}

/-- Each table of the schema is the table of an entity. -/
theorem ofEntities_ok (h : ofEntities entities types = .ok s) (some : s.table? name = some t) :
    t.name = name ∧ ∃ e ∈ entities, Table.ofEntity e types = .ok t := by
  rw [ofEntities_eq] at h
  obtain ⟨ts, made, rfl⟩ := Except.map_eq_ok.mp h
  have none : empty.table? name = Option.none := rfl
  rw [table?_adds, none, Option.or_none] at some
  have there : t ∈ ts := List.mem_reverse.mp (List.mem_of_find?_eq_some some)
  have named := List.find?_some some
  exact ⟨beq_iff_eq.mp named, Except.mapM_mem made there⟩

/-- Every entity has a table in the schema. -/
theorem ofEntities_there (h : ofEntities entities types = .ok s) {e : Entity} (he : e ∈ entities) :
    ∃ t, s.table? e.id.table = some t := by
  rw [ofEntities_eq] at h
  obtain ⟨ts, made, rfl⟩ := Except.map_eq_ok.mp h
  obtain ⟨t, there, own⟩ := Except.mapM_mem_left made he
  rw [table?_adds, ← Option.isSome_iff_exists, Option.isSome_or, Bool.or_eq_true]
  refine .inl (List.find?_isSome.mpr ⟨t, List.mem_reverse.mpr there, ?_⟩)
  exact beq_iff_eq.mpr (Table.ofEntity_name own)

/-- Where entities have different tables, each finds its own. -/
theorem ofEntities_own (h : ofEntities entities types = .ok s)
    (distinct : (entities.map (·.id.table)).Nodup) {e : Entity} (he : e ∈ entities) :
    ∃ t, s.table? e.id.table = some t ∧ Table.ofEntity e types = .ok t := by
  obtain ⟨t, some⟩ := ofEntities_there h he
  obtain ⟨named, e', he', made⟩ := ofEntities_ok h some
  have one : e'.id.table = e.id.table := (Table.ofEntity_name made).symm.trans named
  obtain rfl := List.inj_on_of_nodup_map distinct he' he one
  exact ⟨t, some, made⟩

/-- Entities that come later add their tables. -/
theorem ofEntities_append (h : ofEntities entities types = .ok s)
    (h' : ofEntities more types = .ok s') :
    ∃ u, ofEntities (entities ++ more) types = .ok u ∧
      ∀ name, u.table? name = (s'.table? name).or (s.table? name) := by
  rw [ofEntities_eq] at h h'
  obtain ⟨ts, made, rfl⟩ := Except.map_eq_ok.mp h
  obtain ⟨ts', made', rfl⟩ := Except.map_eq_ok.mp h'
  refine ⟨(ts ++ ts').foldl add empty, ?_, fun name => ?_⟩
  · rw [ofEntities_eq, List.mapM_append, made, made']
    rfl
  · have none : empty.table? name = Option.none := rfl
    rw [table?_adds, table?_adds, table?_adds, List.reverse_append, List.find?_append, none,
      Option.or_none, Option.or_none, Option.or_none]

end

end Schema

end EntityStore
