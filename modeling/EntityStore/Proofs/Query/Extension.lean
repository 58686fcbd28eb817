import EntityStore.Proofs.Query.Counting
import EntityStore.Proofs.Sql.Chain

namespace EntityStore

open Sql (Collation Rows)

namespace Sql

/-- Equality of values carries over from one to the other. -/
structure Collation.Lawful (k : Collation) : Prop where
  symm : ∀ v w, k.same v w = true → k.same w v = true
  trans : ∀ u v w, k.same u v = true → k.same v w = true → k.same u w = true

/-- No two rows of a table have the same value in a column. -/
def Collation.Distinct (k : Collation) (tables : String → List Row) (table column : String) : Prop :=
  (tables table).Pairwise fun a b => ¬ k.Refers (a column) (b column)

theorem Collation.Distinct.identifies {k : Collation} (lawful : k.Lawful)
    {tables : String → List Row} {table column : String} (distinct : k.Distinct tables table column) :
    k.Identifies tables table column := by
  refine List.Pairwise.imp ?_ distinct
  intro a b apart v first second
  obtain ⟨-, present, same⟩ := first
  obtain ⟨-, present', same'⟩ := second
  exact apart ⟨present, present', lawful.trans _ v _ (lawful.symm v _ same) same'⟩

/-- What is read of a text behind FROM, as a source without a condition. -/
def Source.ofTables (table : String) (joins : List JoinClause) : Source Param := ⟨table, joins, none⟩

theorem Source.tail_where (d : Dialect) (table : String) (joins : List JoinClause) (e : Expr Param) :
    (Source.mk table joins (some e)).tail d =
      " FROM " ++ (d.ident table ++ String.join (joins.map (Command.joinText d.ident))) ++
        " WHERE " ++ (e.pieces d.ident).render d.placeholder 0 := by
  rw [tail, Command.sourcePieces_eq, Command.filterPieces, Fragment.render, Fragment.render]
  simp only [String.append_assoc]

end Sql

namespace Join

/-- The rows at the ends of all paths, under the names of the joins that lead there. -/
theorem rowsAt_paths (root : String) (joins : List Join) (rows : Path → Sql.Row) :
    rowsAt (root :: joins.map (·.name)) ([] :: paths joins) rows =
      (root, rows []) ::
        joins.mapIdx fun i j => (j.name, rows (Hop.pathAt (paths joins) (some i))) := by
  have length : (paths joins).length = joins.length := by
    rw [paths, Hop.paths_length, List.length_map]
  rw [rowsAt, List.zipWith_cons_cons]
  congr 1
  apply List.ext_getElem
  · simp [length]
  · intro i hi hi'
    have inside : i < (paths joins).length := by
      rw [List.length_mapIdx] at hi'
      omega
    simp [Hop.pathAt, inside]

end Join

namespace Query

/-- A selection is written around the text of its source. -/
theorem Selects.text {q : Query} {command : Sql.Command Param} (h : q.Selects command)
    (d : Dialect) :
    ∃ f before after, q.filter true = .ok f ∧
      (Statement.ofCommand d command).sql =
        before ++ (f.source q.entity.id.table).tail d ++ after := by
  rcases h.fields_or_count with ⟨fields, h⟩ | h
  · obtain ⟨f, hf, rfl⟩ := selectFields_ok h
    have text := Sql.Command.sql_select d (f.source q.entity.id.table) q.page
      (fields.map f.column) (q.ordering.map fun o => (f.column o.1, o.2))
    rw [String.append_assoc] at text
    exact ⟨f, _, _, hf, text⟩
  · obtain ⟨f, hf, rfl⟩ := count_ok h
    have text := Sql.Command.sql_count d (f.source q.entity.id.table) q.page
    cases clause : q.page.bind d.pageClause with
    | none =>
      rw [clause] at text
      exact ⟨f, "SELECT COUNT(*)", "", hf, text.trans (String.append_empty).symm⟩
    | some words =>
      rw [clause] at text
      refine ⟨f, "SELECT COUNT(*) FROM (SELECT 1",
        " " ++ words ++ ") AS " ++ d.ident "page", hf, text.trans ?_⟩
      simp only [String.append_assoc]

/-- The joined rows that the text behind FROM stands for are the rows of the root, each once and with
one part for each join: the row that the foreign key in the part of its parent refers to, or nulls
where it refers to none. -/
theorem joins_extend_once (d : Dialect) (q : Query) (c : Condition) (joins : List Join)
    (command : Sql.Command Param) (predicate : q.predicate = some c)
    (joined : c.joins q.entity = .ok joins) (selects : q.Selects command)
    (distinct : (q.entity.id.table :: joins.map (·.name)).Nodup) :
    ∃ before chain after clauses,
      (Statement.ofCommand d command).sql = before ++ " FROM " ++ chain ++ " WHERE " ++ after ∧
      chain = d.ident q.entity.id.table ++
        String.join (clauses.map (Sql.Command.joinText d.ident)) ∧
      (d.Legible → Sql.readTables d chain = some (q.entity.id.table, clauses)) ∧
      ∀ (k : Collation) (tables : String → List Sql.Row), k.Lawful →
        (∀ j ∈ joins, k.Distinct tables j.target.id.table j.targetKey.column) →
        ∃ part : Sql.Row → Option Nat → Sql.Row,
          (Sql.Source.ofTables q.entity.id.table clauses).extended k tables =
            (tables q.entity.id.table).map (fun row => (q.entity.id.table, row) ::
              joins.mapIdx fun i j => (j.name, part row (some i))) ∧
          ∀ row, part row none = row ∧ ∀ i j, joins[i]? = some j → Hop.Within j.parent i ∧
            ∀ other, k.outer tables j.target.id.table j.targetKey.column
                (part row j.parent j.relation.field.column) other ↔ other = part row (some i) := by
  obtain ⟨f, before, after, hf, text⟩ := selects.text d
  obtain ⟨e, -, parts⟩ := filter_joined predicate joined hf
  have all : f.joins = joins := by rw [parts]
  have clause : f.clause = some e := by rw [parts]
  rw [Filter.source, all, clause, Sql.Source.tail_where] at text
  refine ⟨before, _, (e.pieces d.ident).render d.placeholder 0 ++ after, joins.map f.joinClause, ?_,
    rfl, fun legible => Sql.readTables_text legible _ _, fun k tables lawful keys => ?_⟩
  · simp only [text, String.append_assoc]
  have grown := Join.grown_of_joins joined
  have resolved := Join.resolved_of_joins joined
  have unique : ∀ j ∈ joins, k.Identifies tables j.target.id.table j.targetKey.column := by
    intro j there
    exact (keys j there).identifies lawful
  have before : joins <+: f.joins := all ▸ List.prefix_rfl
  have extended (row : Sql.Row) := Join.joined_prefix f row before grown resolved distinct unique
  choose rows start once followed using extended
  refine ⟨fun row scope => rows row (Hop.pathAt (Join.paths joins) scope), ?_,
    fun row => ⟨start row, fun i j found => ?_⟩⟩
  · have each : ∀ row ∈ tables q.entity.id.table,
        (Sql.Source.ofTables q.entity.id.table (joins.map f.joinClause)).joined k tables row =
          [(q.entity.id.table, row) :: joins.mapIdx fun i j =>
            (j.name, rows row (Hop.pathAt (Join.paths joins) (some i)))] := by
      intro row _
      rw [Sql.Source.joined, Sql.Source.ofTables, once row, Join.rowsAt_paths, start row]
    exact (List.flatMap_congr each).trans List.map_eq_flatMap.symm
  · have hop : (joins.map (·.toHop))[i]? = some j.toHop := by
      rw [List.getElem?_map, found]
      rfl
    exact ⟨(grown.path hop).2, followed row i j found⟩

/-- Values that are equal are the same. -/
def exactly : Collation := { sameValues with same := fun v w => v == w }

theorem lawful_exactly : exactly.Lawful where
  symm v w same := by
    simp only [exactly, beq_iff_eq] at same ⊢
    exact same.symm
  trans u v w first second := by
    simp only [exactly, beq_iff_eq] at first second ⊢
    exact first.trans second

def personOf (id : Int) (name : String) : Sql.Row :=
  fun c => if c = "id" then .int id else .text name

def ownedTicket : Sql.Row := fun c => if c = "owner_id" then .int 2 else .null

/-- A ticket that the second of two people owns and nobody reviews. -/
def ticketed : String → List Sql.Row
  | "tickets" => [ownedTicket]
  | _ => [personOf 1 "Ann", personOf 2 "Bob"]

theorem joins_extend_once_reviewed :
    reviewed.joins tickets = .ok reviewedJoins ∧
    ((Query.all tickets).restrict reviewed).Selects reviewedCount ∧
    ("tickets" :: reviewedJoins.map (·.name)).Nodup ∧
    exactly.Lawful ∧
    (∀ j ∈ reviewedJoins, exactly.Distinct ticketed j.target.id.table j.targetKey.column) ∧
    ∃ before chain after clauses,
      (Statement.ofCommand .generic reviewedCount).sql =
        before ++ " FROM " ++ chain ++ " WHERE " ++ after ∧
      Sql.readTables .generic chain = some ("tickets", clauses) ∧
      (Sql.Source.ofTables "tickets" clauses).extended exactly ticketed =
        [[("tickets", ownedTicket), ("people__owner_id", personOf 2 "Bob"),
          ("people__reviewer_id", Sql.missing)]] := by
  have joined : reviewed.joins tickets = .ok reviewedJoins := rfl
  have selects : ((Query.all tickets).restrict reviewed).Selects reviewedCount := .inr (.inr rfl)
  have distinct : ("tickets" :: reviewedJoins.map (·.name)).Nodup := by decide
  have apart : exactly.Distinct ticketed "people" "id" := by
    refine List.pairwise_pair.mpr ?_
    rintro ⟨-, -, same⟩
    cases same
  have keys : ∀ j ∈ reviewedJoins,
      exactly.Distinct ticketed j.target.id.table j.targetKey.column := by
    intro j there
    rcases List.mem_pair.mp there with rfl | rfl
    · exact apart
    · exact apart
  obtain ⟨before, chain, after, clauses, text, -, read, extended⟩ :=
    joins_extend_once .generic ((Query.all tickets).restrict reviewed) reviewed reviewedJoins
      reviewedCount rfl joined selects distinct
  obtain ⟨part, rows, parts⟩ := extended exactly ticketed lawful_exactly keys
  obtain ⟨root, ends⟩ := parts ownedTicket
  have second : personOf 2 "Bob" ∈ ticketed "people" :=
    List.mem_cons_of_mem _ (List.mem_singleton_self _)
  have owner : personOf 2 "Bob" = part ownedTicket (some 0) := by
    refine ((ends 0 _ rfl).2 _).mp (.inl ?_)
    show exactly.partner ticketed "people" "id" (part ownedTicket none "owner_id") _
    rw [root]
    exact ⟨second, rfl, rfl, by decide⟩
  have reviewer : Sql.missing = part ownedTicket (some 1) := by
    refine ((ends 1 _ rfl).2 _).mp (.inr ⟨rfl, fun other => ?_⟩)
    show ¬ exactly.partner ticketed "people" "id" (part ownedTicket none "reviewer_id") _
    rw [root]
    rintro ⟨-, present, -⟩
    cases present
  refine ⟨joined, selects, distinct, lawful_exactly, keys, before, chain, after, clauses, text,
    read Dialect.legible_generic, rows.trans ?_⟩
  rw [owner, reviewer]
  rfl

end Query

end EntityStore
