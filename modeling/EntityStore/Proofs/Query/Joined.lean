import EntityStore.Proofs.Sql.Joined
import EntityStore.Proofs.Query.Nested

namespace EntityStore

open Sql (Collation Row Rows)

namespace Hop

theorem Grown.of_snoc {hops : List Hop} {h : Hop} (grown : Grown (hops ++ [h])) :
    Grown hops ∧ Within h.parent hops.length := by
  generalize whole : hops ++ [h] = found at grown
  cases grown with
  | nil => simp at whole
  | snoc before within fresh =>
    obtain ⟨rfl, last⟩ := List.append_inj' whole rfl
    cases last
    exact ⟨before, within⟩

/-- What is known of a hop that was found for one of some fields: those that start at the root are
relations of the root. -/
structure Resolved (root : EntityName) (fields : List FieldRef) (h : Hop) : Prop where
  of : Hop.of h.relation h.parent = .ok h
  field : h.relation ∈ fields
  owner : h.parent = none → h.relation.owner = root

theorem Resolved.mono {root : EntityName} {fields more : List FieldRef} {h : Hop}
    (resolved : h.Resolved root fields) (sub : fields ⊆ more) : h.Resolved root more :=
  ⟨resolved.of, sub resolved.field, resolved.owner⟩

end Hop

namespace Shape

theorem check_owner {s : Shape} {f : FieldRef} {u : Unit} (h : s.check f = .ok u) :
    f.owner = s.id := by
  unfold check at h
  split at h
  · rename_i declared
    rw [Bool.and_eq_true, beq_iff_eq] at declared
    exact declared.1
  · cases h

end Shape

namespace Condition

theorem fieldsOfAll_eq (cs : List Condition) : fieldsOfAll cs = cs.flatMap fields := by
  induction cs with
  | nil => rfl
  | cons c cs ih => rw [fieldsOfAll, ih, List.flatMap_cons]

theorem hopsOfAll_resolved {root : String} {e : EntityName} {scope : Shape} {parent : Option Nat}
    {cs : List Condition} {known found : List Hop}
    (each : ∀ c ∈ cs, ∀ known found, c.hops root scope parent known = .ok found →
      ∀ h ∈ found, h ∈ known ∨ h.Resolved e c.fields)
    (h : hopsOfAll root scope parent known cs = .ok found) :
    ∀ h ∈ found, h ∈ known ∨ h.Resolved e (cs.flatMap fields) := by
  induction cs generalizing known with
  | nil =>
    cases h
    exact fun h there => .inl there
  | cons c cs ih =>
    obtain ⟨next, first, rest⟩ := Except.bind_eq_ok.mp h
    intro h there
    rw [List.flatMap_cons]
    rcases ih (fun c hc => each c (List.mem_cons_of_mem _ hc)) rest h there with before | new
    · rcases each c List.mem_cons_self known next first h before with before | new
      · exact .inl before
      · exact .inr (new.mono (List.subset_append_left _ _))
    · exact .inr (new.mono (List.subset_append_right _ _))

/-- The hops that a condition adds are those of its own relations. -/
theorem hops_resolved {root : String} {e : EntityName} {scope : Shape} {parent : Option Nat}
    {known found : List Hop} {c : Condition} (h : c.hops root scope parent known = .ok found)
    (start : parent = none → scope.id = e) : ∀ h ∈ found, h ∈ known ∨ h.Resolved e c.fields := by
  induction c generalizing scope parent known found with
  | unary f op =>
    obtain ⟨_, -, rfl⟩ := Except.map_eq_ok.mp h
    exact fun h there => .inl there
  | binary f op v =>
    obtain ⟨_, -, rfl⟩ := Except.map_eq_ok.mp h
    exact fun h there => .inl there
  | ternary f op v w =>
    obtain ⟨_, -, rfl⟩ := Except.map_eq_ok.mp h
    exact fun h there => .inl there
  | collection f op vs =>
    obtain ⟨_, -, rfl⟩ := Except.map_eq_ok.mp h
    exact fun h there => .inl there
  | relational relation inner ih =>
    obtain ⟨hop, index, next, checked, hhop, -, added, deeper⟩ := hops_relational_ok h
    obtain ⟨starts, taken⟩ := hop_of_ok hhop
    have whole : fields inner ⊆ (relational relation inner).fields := List.subset_append_left _ _
    have here : hop.Resolved e (relational relation inner).fields := by
      refine ⟨by rw [starts, taken]; exact hhop, ?_, fun root => ?_⟩
      · rw [taken]
        exact List.mem_append_right _ (List.mem_singleton_self _)
      · rw [taken, Shape.check_owner checked]
        exact start (starts ▸ root)
    intro g there
    rcases ih deeper (by simp) g there with before | new
    · rcases added with rfl | ⟨rfl, -⟩
      · exact .inl before
      · rcases List.mem_append.mp before with before | last
        · exact .inl before
        · exact .inr (List.mem_singleton.mp last ▸ here)
    · exact .inr (new.mono whole)
  | composite op children ih =>
    intro g there
    rw [fields, fieldsOfAll_eq]
    exact hopsOfAll_resolved (fun c hc known found h => ih c hc h start) h g there

end Condition

namespace Join

theorem resolved_of_joins {c : Condition} {e : Entity} {joins : List Join}
    (h : c.joins e = .ok joins) : ∀ j ∈ joins, j.toHop.Resolved e.id c.fields := by
  obtain ⟨hops, found, rfl⟩ := Except.map_eq_ok.mp h
  intro j there
  have hop : j.toHop ∈ hops := by
    rw [← map_toHop_toJoins hops]
    exact List.mem_map_of_mem there
  exact (Condition.hops_resolved found (fun _ => rfl) j.toHop hop).resolve_left List.not_mem_nil

theorem pathAt_mem (joins : List Join) {scope : Option Nat} (within : Hop.Within scope joins.length) :
    Hop.pathAt (paths joins) scope ∈ [] :: paths joins := by
  cases scope with
  | none => exact List.mem_cons_self
  | some i =>
    have inside : i < (paths joins).length := by
      rw [paths, Hop.paths_length, List.length_map]
      exact within i rfl
    rw [Hop.pathAt, List.getElem?_eq_getElem inside]
    exact List.mem_cons_of_mem _ (List.getElem_mem inside)

theorem rowsAt_snoc {names : List String} {places : List Path} {name : String} {p : Path}
    (length : names.length = places.length) (fresh : p ∉ places) (rows : Path → Row) (row : Row) :
    rowsAt (names ++ [name]) (places ++ [p]) (Function.update rows p row) =
      rowsAt names places rows ++ [(name, row)] := by
  have before : rowsAt names places (Function.update rows p row) = rowsAt names places rows := by
    unfold rowsAt
    apply List.ext_getElem
    · simp
    · intro i hi hi'
      have inside : i < places.length := by
        rw [List.length_zipWith] at hi
        omega
      have other : places[i] ≠ p := by
        intro same
        exact fresh (same ▸ List.getElem_mem _)
      simp [Function.update_of_ne other]
  rw [← before]
  simp [rowsAt, List.zipWith_append, length]

/-- Where one more join leads. -/
def lastPath (joins : List Join) (j : Join) : Path :=
  Hop.pathAt (paths joins) j.parent ++ [j.relation.step]

theorem paths_snoc (joins : List Join) (j : Join) :
    paths (joins ++ [j]) = paths joins ++ [lastPath joins j] := by
  rw [paths, List.map_append, List.map_singleton, Hop.paths_append]
  rfl

section

variable {joins : List Join} {j : Join} (grown : Hop.Grown ((joins ++ [j]).map (·.toHop)))

include grown

theorem grown_before : Hop.Grown (joins.map (·.toHop)) ∧ Hop.Within j.parent joins.length := by
  rw [List.map_append] at grown
  have before := grown.of_snoc
  rwa [List.length_map] at before

theorem lastPath_fresh : lastPath joins j ∉ [] :: paths joins := by
  have places : ([] :: paths (joins ++ [j])).Nodup := grown.places_nodup
  rw [paths_snoc, ← List.cons_append] at places
  exact fun there => (List.nodup_append.mp places).2.2 _ there _ (List.mem_singleton_self _) rfl

variable (rows : Path → Row) (row : Row)

/-- The rows of earlier joins stay where they were. -/
theorem update_pathAt {scope : Option Nat} (within : Hop.Within scope joins.length) :
    Function.update rows (lastPath joins j) row (Hop.pathAt (paths (joins ++ [j])) scope) =
      rows (Hop.pathAt (paths joins) scope) := by
  have length : joins.length = (paths joins).length := by
    rw [paths, Hop.paths_length, List.length_map]
  have other : Hop.pathAt (paths joins) scope ≠ lastPath joins j :=
    fun same => lastPath_fresh grown (same ▸ pathAt_mem joins within)
  rw [paths_snoc, Hop.pathAt_append within (Nat.le_of_eq length)]
  exact Function.update_of_ne other row rows

omit grown in
/-- The new row stands at the end of the last join. -/
theorem update_pathAt_last :
    Function.update rows (lastPath joins j) row
      (Hop.pathAt (paths (joins ++ [j])) (some joins.length)) = row := by
  have length : joins.length = (paths joins).length := by
    rw [paths, Hop.paths_length, List.length_map]
  rw [paths_snoc, Hop.pathAt, length, List.getElem?_concat_length, Option.getD_some]
  exact Function.update_self _ row rows

theorem rowsAt_update (root : String) :
    rowsAt (root :: joins.map (·.name)) ([] :: paths joins) rows ++ [(j.name, row)] =
      rowsAt (root :: (joins ++ [j]).map (·.name)) ([] :: paths (joins ++ [j]))
        (Function.update rows (lastPath joins j) row) := by
  have length : (root :: joins.map (·.name)).length = ([] :: paths joins).length := by
    simp [paths, Hop.paths_length]
  rw [paths_snoc, List.map_append, ← List.cons_append, ← List.cons_append]
  exact (rowsAt_snoc length (lastPath_fresh grown) rows row).symm

end

section

variable (k : Collation) (tables : String → List Row)

/-- At the end of every join stands the one row that its foreign key leads to. -/
def Followed (joins : List Join) (rows : Path → Row) : Prop :=
  ∀ i j, joins[i]? = some j → ∀ other,
    k.outer tables j.target.id.table j.targetKey.column
        (rows (Hop.pathAt (paths joins) j.parent) j.relation.field.column) other ↔
      other = rows (Hop.pathAt (paths joins) (some i))

variable {k tables}

theorem Followed.snoc {joins : List Join} {j : Join} {rows : Path → Row} {row : Row}
    (followed : Followed k tables joins rows) (grown : Hop.Grown ((joins ++ [j]).map (·.toHop)))
    (leads : ∀ other, k.outer tables j.target.id.table j.targetKey.column
      (rows (Hop.pathAt (paths joins) j.parent) j.relation.field.column) other ↔ other = row) :
    Followed k tables (joins ++ [j]) (Function.update rows (lastPath joins j) row) := by
  obtain ⟨before, within⟩ := grown_before grown
  intro i g found other
  rcases Nat.lt_trichotomy i joins.length with inside | rfl | outside
  · rw [List.getElem?_append_left inside] at found
    have hop : (joins.map (·.toHop))[i]? = some g.toHop := by
      rw [List.getElem?_map, found]
      rfl
    have parent : Hop.Within g.parent joins.length := fun n hn =>
      Nat.lt_trans ((before.path hop).2 n hn) inside
    have here : Hop.Within (some i) joins.length := fun n hn => Option.some.inj hn ▸ inside
    rw [update_pathAt grown rows row parent, update_pathAt grown rows row here]
    exact followed i g found other
  · rw [List.getElem?_concat_length] at found
    cases found
    rw [update_pathAt grown rows row within, update_pathAt_last]
    exact leads other
  · rw [List.getElem?_eq_none (by simp; omega)] at found
    cases found

theorem standing_parent (f : Filter) {root : EntityName} {fields : List FieldRef} {joins : List Join}
    {j : Join} (before : joins <+: f.joins) (within : Hop.Within j.parent joins.length)
    (resolved : j.toHop.Resolved root fields) :
    Condition.Standing root.table (joins ++ [j]) (f.joinClause j).parent j.parent := by
  cases parent : j.parent with
  | none =>
    have start : (f.joinClause j).parent = j.relation.owner.table := by
      simp only [Filter.joinClause, parent]
    exact start.trans (congrArg EntityName.table (resolved.owner parent))
  | some i =>
    have inside : i < joins.length := within i parent
    have found : f.joins[i]? = some joins[i] := by
      obtain ⟨rest, all⟩ := before
      rw [← all, List.getElem?_append_left inside, List.getElem?_eq_getElem inside]
    refine ⟨joins[i], ?_, ?_⟩
    · rw [List.getElem?_append_left inside, List.getElem?_eq_getElem inside]
    · simp only [Filter.joinClause, parent, found]

/-- One more join extends the rows in one way. -/
theorem extend_followed (f : Filter) {root : EntityName} {fields : List FieldRef} {joins : List Join}
    {j : Join} (rows : Path → Row) (before : joins <+: f.joins)
    (grown : Hop.Grown ((joins ++ [j]).map (·.toHop))) (resolved : j.toHop.Resolved root fields)
    (distinct : (root.table :: (joins ++ [j]).map (·.name)).Nodup)
    (unique : k.Identifies tables j.target.id.table j.targetKey.column) :
    ∃ row, (f.joinClause j).extend k tables
          (rowsAt (root.table :: joins.map (·.name)) ([] :: paths joins) rows) =
        [rowsAt (root.table :: (joins ++ [j]).map (·.name)) ([] :: paths (joins ++ [j]))
          (Function.update rows (lastPath joins j) row)] ∧
      ∀ other, k.outer tables j.target.id.table j.targetKey.column
        (rows (Hop.pathAt (paths joins) j.parent) j.relation.field.column) other ↔ other = row := by
  have within := (grown_before grown).2
  have found {name : String} {scope : Option Nat} (row : Row)
      (standing : Condition.Standing root.table (joins ++ [j]) name scope) (column : String) :
      Rows.value (rowsAt (root.table :: joins.map (·.name)) ([] :: paths joins) rows ++
          [(j.name, row)]) ⟨some name, column⟩ =
        Function.update rows (lastPath joins j) row (Hop.pathAt (paths (joins ++ [j])) scope)
          column := by
    rw [rowsAt_update grown]
    exact Condition.value_standing _ distinct standing column
  have parent (row : Row) : Rows.value
        (rowsAt (root.table :: joins.map (·.name)) ([] :: paths joins) rows ++
          [((f.joinClause j).name, row)]) ⟨some (f.joinClause j).parent, (f.joinClause j).foreignKey⟩ =
      rows (Hop.pathAt (paths joins) j.parent) j.relation.field.column :=
    (found row (standing_parent f before within resolved) _).trans
      (congrFun (update_pathAt grown rows row within) _)
  have key (row : Row) : Rows.value
        (rowsAt (root.table :: joins.map (·.name)) ([] :: paths joins) rows ++
          [((f.joinClause j).name, row)]) ⟨some (f.joinClause j).name, (f.joinClause j).key⟩ =
      row (f.joinClause j).key := by
    have standing : Condition.Standing root.table (joins ++ [j]) j.name (some joins.length) :=
      ⟨j, List.getElem?_concat_length, rfl⟩
    exact (found row standing _).trans (congrFun (update_pathAt_last rows row) _)
  obtain ⟨row, extended, leads⟩ := Sql.JoinClause.extend_of_identifies parent key unique
  exact ⟨row, extended.trans (congrArg List.singleton (rowsAt_update grown rows row root.table)),
    leads⟩

/-- Joins keep the number of rows: there is one way to extend a row of the root. -/
theorem joined_prefix (f : Filter) {root : EntityName} {fields : List FieldRef} (row : Row)
    {joins : List Join} (before : joins <+: f.joins) (grown : Hop.Grown (joins.map (·.toHop)))
    (resolved : ∀ j ∈ joins, j.toHop.Resolved root fields)
    (distinct : (root.table :: joins.map (·.name)).Nodup)
    (unique : ∀ j ∈ joins, k.Identifies tables j.target.id.table j.targetKey.column) :
    ∃ rows : Path → Row, rows [] = row ∧
      (joins.map f.joinClause).foldl (fun done j => done.flatMap (j.extend k tables))
          [[(root.table, row)]] =
        [rowsAt (root.table :: joins.map (·.name)) ([] :: paths joins) rows] ∧
      Followed k tables joins rows := by
  induction joins using List.reverseRecOn with
  | nil =>
    refine ⟨fun _ => row, rfl, rfl, fun i j hj => ?_⟩
    simp at hj
  | append_singleton joins j ih =>
    have shorter : joins <+: f.joins := (List.prefix_append joins [j]).trans before
    have distinct' : (root.table :: joins.map (·.name)).Nodup := by
      rw [List.map_append, ← List.cons_append] at distinct
      exact (List.nodup_append.mp distinct).1
    obtain ⟨rows, start, joined, followed⟩ := ih shorter (grown_before grown).1
      (fun g hg => resolved g (List.mem_append_left _ hg)) distinct'
      (fun g hg => unique g (List.mem_append_left _ hg))
    have last : j ∈ joins ++ [j] := List.mem_append_right _ (List.mem_singleton_self j)
    obtain ⟨row', extended, leads⟩ :=
      extend_followed f rows shorter grown (resolved j last) distinct (unique j last)
    have within : Hop.Within none joins.length := fun i hi => by cases hi
    have root : Function.update rows (lastPath joins j) row' [] = rows [] :=
      update_pathAt grown rows row' within
    refine ⟨_, root.trans start, ?_, followed.snoc grown leads⟩
    rw [List.map_append, List.foldl_append, joined, List.map_singleton, List.foldl_cons,
      List.foldl_nil, List.flatMap_singleton, extended]

end

end Join

end EntityStore
