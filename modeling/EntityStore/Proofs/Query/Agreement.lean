import EntityStore.Proofs.Query.Joined

namespace EntityStore

open Sql (Collation Row Rows)

namespace Condition

/-- Fields that are taken for the same are the same. -/
def Coherent (c : Condition) : Prop :=
  ∀ r ∈ c.fields, ∀ s ∈ c.fields, r.same s = true → r.field = s.field

section

variable (k : Collation) (tables : String → List Row)

/-- At the end of every path that a condition takes stands the one row that it leads to. -/
def Follows (rows : Path → Row) : Path → Condition → Prop
  | p, .relational relation inner =>
    (∃ target key, relation.field.references = some target ∧ target.key? = some key ∧
      ∀ other, k.outer tables target.id.table key.column (rows p relation.field.column) other ↔
        other = rows (p ++ [relation.step])) ∧
    Follows rows (p ++ [relation.step]) inner
  | p, .composite _ children => ∀ c ∈ children, Follows rows p c
  | _, _ => True

/-- No relation that leads nowhere from a row has an inner condition that nulls satisfy. -/
def Settled : Row → Condition → Prop
  | row, .relational relation inner =>
    ∀ target key, relation.field.references = some target → target.key? = some key →
      (∀ other, k.partner tables target.id.table key.column (row relation.field.column) other →
        Settled other inner) ∧
      ((∀ other, ¬k.partner tables target.id.table key.column (row relation.field.column) other) →
        ¬inner.HoldsAlong k (k.outer tables) Sql.missing)
  | row, .composite _ children => ∀ c ∈ children, Settled row c
  | _, _ => True

variable {k tables}

/-- Joined rows follow the condition that they were joined for. -/
theorem follows_of_followed {joins : List Join} {rows : Path → Row} {root : EntityName}
    {whole : Condition} (grown : Hop.Grown (joins.map (·.toHop)))
    (followed : Join.Followed k tables joins rows)
    (resolved : ∀ j ∈ joins, j.toHop.Resolved root whole.fields) (coherent : whole.Coherent)
    {qualify : Bool} {scope : Option Nat} {name : String} {c : Condition} {e : Sql.Expr Param}
    (part : c.fields ⊆ whole.fields) (h : c.toExpr (.joined joins) qualify scope name = .ok e) :
    c.Follows k tables rows (Hop.pathAt (Join.paths joins) scope) := by
  induction c generalizing scope name e with
  | unary f op => simp [Follows]
  | binary f op v => simp [Follows]
  | ternary f op v w => simp [Follows]
  | collection f op vs => simp [Follows]
  | relational relation inner ih =>
    simp only [toExpr] at h
    split at h
    · cases h
    · rename_i index taken
      split at h
      · cases h
      · rename_i join found
        have path := pathAt_taken grown taken found
        obtain ⟨inside, takes, -⟩ := List.findIdx?_eq_some_iff_getElem.mp taken
        have there : join ∈ joins := List.mem_of_getElem? found
        have same : joins[index] = join := by
          rw [List.getElem?_eq_getElem inside] at found
          exact Option.some.inj found
        rw [same, Hop.takes, Bool.and_eq_true, beq_iff_eq] at takes
        have here : relation ∈ whole.fields :=
          part (List.mem_append_right _ (List.mem_singleton_self _))
        have field : join.relation.field = relation.field :=
          coherent _ (resolved join there).field _ here takes.2
        obtain ⟨points, keyed⟩ := Hop.of_ok (resolved join there).of
        have leads := followed index join found
        rw [takes.1, field, path] at leads
        rw [Follows, ← path]
        refine ⟨⟨join.target, join.targetKey, field ▸ points, keyed, path ▸ leads⟩, ?_⟩
        exact ih (fun f hf => part (List.mem_append_left _ hf)) h
  | composite op children ih =>
    obtain ⟨es, hes, h⟩ := Except.bind_eq_ok.mp h
    rw [toExprs_eq] at hes
    rw [Follows]
    intro c hc
    obtain ⟨e', -, he'⟩ := Except.mapM_mem_left hes hc
    refine ih c hc (fun f hf => part ?_) he'
    rw [fields, fieldsOfAll_eq]
    exact List.mem_flatMap.mpr ⟨c, hc, hf⟩

theorem truth_of_follows {rows : Path → Row} {p : Path} {c : Condition}
    (follows : c.Follows k tables rows p) :
    c.truth k rows p = some true ↔ c.HoldsAlong k (k.outer tables) (rows p) := by
  induction c generalizing p with
  | unary f op => exact truth_leaf (by trivial) rows p
  | binary f op v => exact truth_leaf (by trivial) rows p
  | ternary f op v w => exact truth_leaf (by trivial) rows p
  | collection f op vs => exact truth_leaf (by trivial) rows p
  | relational relation inner ih =>
    rw [Follows] at follows
    obtain ⟨⟨target, key, points, keyed, leads⟩, inside⟩ := follows
    rw [truth, ih inside, holdsAlong_relational points keyed]
    constructor
    · exact fun holds => ⟨_, (leads _).mpr rfl, holds⟩
    · rintro ⟨other, led, holds⟩
      exact (leads other).mp led ▸ holds
  | composite op children ih =>
    rw [Follows] at follows
    rw [truth, truthOfAll_eq]
    apply join_eq_true_iff
    rw [List.forall₂_map_left_iff, List.forall₂_same]
    exact fun c hc => ih c hc (follows c hc)

/-- Nulls make no difference for a settled row. -/
theorem holds_outer_iff {row : Row} {c : Condition} (settled : c.Settled k tables row) :
    c.HoldsAlong k (k.outer tables) row ↔ c.Holds k tables row := by
  induction c generalizing row with
  | unary f op => cases op <;> simp [Holds, HoldsAlong]
  | binary f op v => simp [Holds, HoldsAlong]
  | ternary f op v w => cases op; simp [Holds, HoldsAlong]
  | collection f op vs => cases op <;> simp [Holds, HoldsAlong]
  | relational relation inner ih =>
    rw [Settled] at settled
    rw [Holds, HoldsAlong, HoldsAlong]
    constructor
    · rintro ⟨target, key, points, keyed, other, there | ⟨rfl, none⟩, holds⟩
      · have inside := (settled target key points keyed).1 other there
        exact ⟨target, key, points, keyed, other, there, (ih inside).mp holds⟩
      · exact absurd holds ((settled target key points keyed).2 none)
    · rintro ⟨target, key, points, keyed, other, there, holds⟩
      have inside := (settled target key points keyed).1 other there
      exact ⟨target, key, points, keyed, other, .inl there, (ih inside).mpr holds⟩
  | composite op children ih =>
    rw [Settled] at settled
    cases op with
    | and =>
      rw [Holds, HoldsAlong, HoldsAlong]
      exact forall₂_congr fun c hc => ih c hc (settled c hc)
    | or =>
      rw [Holds, HoldsAlong, HoldsAlong]
      exact exists_congr fun c => exists_congr fun hc => ih c hc (settled c hc)

end

end Condition

namespace Sql.Command

/-- Where every row is joined in one way, the rows that are kept are those of the table that a
condition holds for. -/
theorem hits_select {k : Collation} {tables : String → List Row} {columns : List Sql.ColumnRef}
    {source : Sql.Source Param} {order : List (Sql.ColumnRef × Direction)} {page : Option Page}
    {p : Row → Bool}
    (once : ∀ row, ∃ rows, source.joined k tables row = [rows] ∧
      Sql.keeps k tables source.filter rows = p row) :
    (select columns source order page).hits k tables = (tables source.table).filter p := by
  rw [hits]
  induction tables source.table with
  | nil => rfl
  | cons row rest ih =>
    obtain ⟨rows, joined, keeps⟩ := once row
    rw [List.flatMap_cons, ih, joined, List.filter_cons, List.filter_cons, keeps]
    cases p row <;> rfl

end Sql.Command

namespace Query

theorem select_hits {k : Collation} {tables : String → List Row} {q : Query} {c : Condition}
    {joins : List Join} {command : Sql.Command Param} (selects : q.select = .ok command)
    (predicate : q.predicate = some c) (joined : c.joins q.entity = .ok joins)
    (distinct : (q.entity.id.table :: joins.map (·.name)).Nodup) (coherent : c.Coherent)
    (unique : ∀ j ∈ joins, k.Identifies tables j.target.id.table j.targetKey.column)
    {p : Row → Bool} (holds : ∀ row, p row = true ↔ c.HoldsAlong k (k.outer tables) row) :
    command.hits k tables = (tables q.entity.id.table).filter p := by
  obtain ⟨f, hf, rfl⟩ := selectFields_ok selects
  obtain ⟨e, he, rfl⟩ := filter_joined predicate joined hf
  have grown := Join.grown_of_joins joined
  have resolved := Join.resolved_of_joins joined
  have standing : Condition.Standing q.entity.id.table joins q.entity.id.table none := rfl
  apply Sql.Command.hits_select
  intro row
  obtain ⟨rows, rfl, one, followed⟩ := Join.joined_prefix
    ⟨joins, some e, !joins.isEmpty⟩ row List.prefix_rfl grown resolved distinct unique
  refine ⟨_, one, ?_⟩
  have follows := Condition.follows_of_followed grown followed resolved coherent
    (List.Subset.refl _) he
  have meaning : c.truth k rows [] = some true ↔ p (rows []) = true :=
    (Condition.truth_of_follows follows).trans (holds (rows [])).symm
  have truth : e.truth k tables _ = c.truth k rows [] :=
    Condition.truth_toExpr rows grown distinct standing he
  rw [Bool.eq_iff_iff, ← meaning, ← truth]
  simp [Sql.keeps, Filter.source]

theorem Changes.hits {k : Collation} {tables : String → List Row} {q : Query}
    {command : Sql.Command Param} (changes : q.Changes command) :
    ∃ f, q.filter false = .ok f ∧ command.hits k tables =
      (tables q.entity.id.table).filter fun row =>
        Sql.keeps k tables f.clause [(q.entity.id.table, row)] := by
  rcases changes with h | h
  · obtain ⟨f, hf, rfl⟩ := delete_ok h
    exact ⟨f, hf, rfl⟩
  · obtain ⟨f, hf, rfl⟩ := update_ok h
    exact ⟨f, hf, rfl⟩

theorem change_hits {k : Collation} {tables : String → List Row} {q : Query} {c : Condition}
    {command : Sql.Command Param} (changes : q.Changes command) (predicate : q.predicate = some c)
    {p : Row → Bool} (holds : ∀ row, p row = true ↔ c.Holds k tables row) :
    command.hits k tables = (tables q.entity.id.table).filter p := by
  obtain ⟨f, hf, hits⟩ := changes.hits
  rcases filter_ok hf with ⟨none, -⟩ | ⟨c', joins, e, given, -, he, rfl⟩
  · rw [predicate] at none
    cases none
  · rw [predicate] at given
    cases given
    simp only [Bool.false_eq_true, if_false] at he
    rw [hits]
    apply List.filter_congr
    intro row _
    have truth : e.truth k tables [(q.entity.id.table, row)] = some true ↔ c.Holds k tables row :=
      Condition.truth_nested he row []
    rw [Bool.eq_iff_iff, holds, ← truth]
    simp [Sql.keeps]

theorem hits_of_no_predicate {k : Collation} {tables : String → List Row} {q : Query}
    (predicate : q.predicate = none) {command : Sql.Command Param}
    (statement : q.select = .ok command ∨ q.Changes command) :
    command.hits k tables = tables q.entity.id.table := by
  have filtered {joining : Bool} {f : Filter} (hf : q.filter joining = .ok f) :
      f = ⟨[], none, false⟩ := by
    rcases filter_ok hf with ⟨-, rfl⟩ | ⟨c, joins, e, given, -⟩
    · rfl
    · rw [predicate] at given
      cases given
  rcases statement with selects | changes
  · obtain ⟨f, hf, rfl⟩ := selectFields_ok selects
    obtain rfl := filtered hf
    rw [Sql.Command.hits_select fun row => ⟨_, rfl, rfl⟩]
    exact List.filter_true _
  · obtain ⟨f, hf, hits⟩ := changes.hits
    obtain rfl := filtered hf
    rw [hits]
    exact List.filter_true _

open scoped Classical in
/-- With keys that identify rows, a selection returns the rows for which its condition holds with
nulls in place of a missing relation, and a change with the same condition hits the rows for which
it holds. The two are the same where no row has a missing relation whose nulls would do. -/
theorem selection_beside_change {k : Collation} {tables : String → List Row} {q q' : Query}
    {selected changed : Sql.Command Param} (entity : q'.entity = q.entity)
    (predicate : q'.predicate = q.predicate) (selects : q.select = .ok selected)
    (changes : q'.Changes changed) :
    (q.predicate = none → selected.hits k tables = changed.hits k tables) ∧
    ∀ c joins, q.predicate = some c → c.joins q.entity = .ok joins →
      (q.entity.id.table :: joins.map (·.name)).Nodup → c.Coherent →
      (∀ j ∈ joins, k.Identifies tables j.target.id.table j.targetKey.column) →
      selected.hits k tables = (tables q.entity.id.table).filter
          (fun row => c.HoldsAlong k (k.outer tables) row) ∧
      changed.hits k tables =
        (tables q.entity.id.table).filter (fun row => c.Holds k tables row) ∧
      ((∀ row ∈ tables q.entity.id.table, c.Settled k tables row) →
        selected.hits k tables = changed.hits k tables) := by
  refine ⟨fun none => ?_, fun c joins some joined distinct coherent unique => ?_⟩
  · rw [hits_of_no_predicate none (.inl selects),
      hits_of_no_predicate (predicate.trans none) (.inr changes), entity]
  · have selection := select_hits selects some joined distinct coherent unique
      fun row => decide_eq_true_iff (p := c.HoldsAlong k (k.outer tables) row)
    have change := change_hits changes (predicate.trans some)
      fun row => decide_eq_true_iff (p := c.Holds k tables row)
    rw [entity] at change
    refine ⟨selection, change, fun settled => ?_⟩
    rw [selection, change]
    apply List.filter_congr
    intro row there
    rw [decide_eq_decide]
    exact Condition.holds_outer_iff (settled row there)

def assignee : Field :=
  ((Field.named "assignee" .integer).inColumn "assignee_id").asNullable.referencing people.shape

def chores : Entity :=
  ⟨⟨"Chore", "chores"⟩, [(Field.named "id" .integer).asPrimaryKey, assignee]⟩

/-- The assignee has no name. -/
def unnamed : Condition :=
  .relational (chores.ref assignee) (.unary (people.ref (Field.named "name" .text).asNullable) .isNull)

def anonymous : Query := (Query.all chores).restrict unnamed

def anonymousJoin : Join :=
  ⟨⟨none, chores.ref assignee, people.shape, (Field.named "id" .integer).asPrimaryKey.toAttribute⟩,
    "people"⟩

def anonymousSelect : Sql.Command Param :=
  .select [⟨some "chores", "id"⟩, ⟨some "chores", "assignee_id"⟩]
    ⟨"chores", [⟨"people", "people", "chores", "assignee_id", "id"⟩],
      some (.nullTest ⟨some "people", "name"⟩ false)⟩ [] none

def anonymousDelete : Sql.Command Param :=
  .delete "chores" (some (.amongRows ⟨some "chores", "assignee_id"⟩ "people" "id"
    (.nullTest ⟨some "people", "name"⟩ false)))

def sameValues : Collation where
  equal v p := v.equals p.value
  less _ _ := false
  greater _ _ := false
  like _ _ := false
  same := Value.equals

def nameless : Row := fun c => if c = "id" then .int 7 else .null

/-- One chore with an assignee, or without one, and one person without a name. -/
def choreOf (assignee : Value) : String → List Row
  | "chores" => [fun c => if c = "id" then .int 1 else assignee]
  | _ => [nameless]

theorem selection_beside_change_assigned :
    anonymous.select = .ok anonymousSelect ∧ anonymous.delete = .ok anonymousDelete ∧
    anonymousSelect.hits sameValues (choreOf (.int 7)) =
      anonymousDelete.hits sameValues (choreOf (.int 7)) := by
  have joined : unnamed.joins chores = .ok [anonymousJoin] := rfl
  have distinct : ("chores" :: [anonymousJoin].map (·.name)).Nodup := by decide
  have coherent : unnamed.Coherent := by
    unfold Condition.Coherent
    decide
  have unique : ∀ j ∈ [anonymousJoin],
      sameValues.Identifies (choreOf (.int 7)) j.target.id.table j.targetKey.column :=
    List.forall_mem_singleton.mpr (List.pairwise_singleton _ _)
  have refers : sameValues.partner (choreOf (.int 7)) "people" "id" (.int 7) nameless :=
    ⟨List.mem_singleton_self _, rfl, rfl, rfl⟩
  have settled : ∀ row ∈ choreOf (.int 7) "chores",
      unnamed.Settled sameValues (choreOf (.int 7)) row := by
    intro row there
    obtain rfl := List.mem_singleton.mp there
    rw [unnamed, Condition.Settled]
    intro target key points keyed
    cases points
    cases keyed
    exact ⟨fun other _ => by simp [Condition.Settled], fun none => absurd refers (none nameless)⟩
  have selects : anonymous.select = .ok anonymousSelect := rfl
  have changes : anonymous.Changes anonymousDelete := .inl rfl
  exact ⟨selects, rfl, ((selection_beside_change rfl rfl selects changes).2 unnamed [anonymousJoin]
    rfl joined distinct coherent unique).2.2 settled⟩

/-- A chore without an assignee is selected for the name that its assignee lacks, and kept. -/
theorem unassigned_selected_not_deleted :
    anonymous.select = .ok anonymousSelect ∧ anonymous.delete = .ok anonymousDelete ∧
    sameValues.Identifies (choreOf .null) "people" "id" ∧
    (∀ row ∈ choreOf .null "people", (row "id").isNull = false) ∧
    (anonymousSelect.hits sameValues (choreOf .null)).length = 1 ∧
    anonymousDelete.hits sameValues (choreOf .null) = [] := by
  refine ⟨rfl, rfl, ?_, ?_, ?_, ?_⟩
  · exact List.pairwise_singleton _ _
  · decide
  · decide
  · rfl

end Query

end EntityStore
