import EntityStore.Migration.Order
import Mathlib.Data.Fintype.EquivFin
import Mathlib.Order.WellFounded

namespace EntityStore

namespace TableOrder

open Relation (ReflTransGen TransGen)

variable {deps : String → List String}

theorem arrange_perm (deps : String → List String) (waiting : List String) :
    (arrange deps waiting).Perm waiting := by
  fun_induction arrange deps waiting with
  | case1 => exact .nil
  | case2 first rest name ih =>
    exact (ih.cons name).trans (List.perm_cons_erase (next_mem deps first rest)).symm

/-- Where nothing that a table depends on, itself or through others, depends on itself, one of the
tables that wait depends on none that waits. -/
theorem exists_ready {waiting : List String} {first : String} (member : first ∈ waiting)
    (free : ∀ c, ReflTransGen (fun a b => b ∈ deps a) first c →
      ¬ TransGen (fun a b => b ∈ deps a) c c) :
    ∃ name ∈ waiting, isReady deps waiting name = true := by
  let reached := { name // name ∈ waiting ∧ ReflTransGen (fun a b => b ∈ deps a) first name }
  let among (a : reached) : { name // name ∈ waiting } := ⟨a.1, a.2.1⟩
  have finite : Finite reached := Finite.of_injective among fun a b same =>
    Subtype.ext (congrArg (fun n : { name // name ∈ waiting } => n.1) same)
  let below (a b : reached) : Prop := TransGen (fun a b => b ∈ deps a) b.1 a.1
  have irrefl : Std.Irrefl below := ⟨fun a => free a.1 a.2.2⟩
  have trans : IsTrans _ below := ⟨fun a b c ab bc => bc.trans ab⟩
  have wellFounded : WellFounded below := Finite.wellFounded_of_trans_of_irrefl below
  obtain ⟨⟨name, waits, path⟩, -, least⟩ :=
    wellFounded.has_min Set.univ ⟨⟨first, member, .refl⟩, trivial⟩
  refine ⟨name, waits, List.all_eq_true.mpr fun d hd => ?_⟩
  have free : d ∉ waiting := fun h => least ⟨d, h, path.tail hd⟩ trivial (.single hd)
  simpa using free

/-- A table is taken in its turn if it waits for no other, or if all wait for others and it is the
first of them. -/
theorem next_turn (deps : String → List String) (first : String) (rest : List String) :
    isReady deps (first :: rest) (next deps first rest) = true ∨
      (next deps first rest = first ∧
        ∀ name ∈ first :: rest, isReady deps (first :: rest) name = false) := by
  unfold next
  cases h : (first :: rest).find? (isReady deps (first :: rest)) with
  | none =>
    exact .inr ⟨rfl, fun name waits => Bool.eq_false_iff.mpr (List.find?_eq_none.mp h name waits)⟩
  | some found => exact .inl (List.find?_some h)

theorem next_ready (acyclic : ∀ a, ¬ TransGen (fun a b => b ∈ deps a) a a) (first : String)
    (rest : List String) : isReady deps (first :: rest) (next deps first rest) = true := by
  obtain ⟨name, waits, ready⟩ :=
    exists_ready (List.mem_cons_self (a := first) (l := rest)) fun c _ => acyclic c
  rcases next_turn deps first rest with own | ⟨-, stuck⟩
  · exact own
  · rw [stuck name waits] at ready
    cases ready

/-- No table depends on a later one. -/
theorem arrange_pairwise (acyclic : ∀ a, ¬ TransGen (fun a b => b ∈ deps a) a a)
    (waiting : List String) : (arrange deps waiting).Pairwise fun a b => b ∉ deps a := by
  fun_induction arrange deps waiting with
  | case1 => exact .nil
  | case2 first rest name ih =>
    refine List.pairwise_cons.mpr ⟨fun b hb depends => ?_, ih⟩
    have waits : b ∈ first :: rest :=
      List.mem_of_mem_erase ((arrange_perm deps _).mem_iff.mp hb)
    have ready := List.all_eq_true.mp (next_ready acyclic first rest) b depends
    simp [waits] at ready

theorem mem_all {expected actual : Schema} {name : String} :
    name ∈ all expected actual ↔ (expected.table? name).isSome ∨ (actual.table? name).isSome := by
  rw [all, (arrange_perm _ _).mem_iff, SortedMap.mem_keys_union, SortedMap.mem_keys_iff,
    SortedMap.mem_keys_iff]
  rfl

theorem all_nodup (expected actual : Schema) : (all expected actual).Nodup :=
  (arrange_perm _ _).nodup_iff.mpr (SortedMap.keys_nodup _)

end TableOrder

namespace Schema

open Relation (TransGen)

/-- A table has a foreign key that points at another. -/
def Refers (s : Schema) (a b : String) : Prop := ∃ t, s.table? a = some t ∧ b ∈ t.referenced

/-- Foreign keys point at tables of the schema. -/
def Closed (s : Schema) : Prop := ∀ a b, s.Refers a b → (s.table? b).isSome

def Acyclic (s : Schema) : Prop := ∀ a, ¬ TransGen s.Refers a a

/-- Tables are found under their own names. -/
def Named (s : Schema) : Prop := ∀ name t, s.table? name = some t → t.name = name

/-- No table has two columns of one name. -/
def Distinct (s : Schema) : Prop :=
  ∀ name t, s.table? name = some t → (t.columns.map (·.name)).Nodup

theorem entry_of_table {s : Schema} {name : String} {t : Table}
    (h : s.table? name = some t) : (name, t) ∈ s.tables.entries := by
  obtain ⟨e, found, rfl⟩ := Option.map_eq_some_iff.mp h
  have same : e.1 = name := by simpa using List.find?_some found
  exact same ▸ List.mem_of_find?_eq_some found

theorem named_of_entries {s : Schema} (h : ∀ e ∈ s.tables.entries, e.2.name = e.1) :
    s.Named :=
  fun _ _ ht => h _ (entry_of_table ht)

theorem distinct_of_entries {s : Schema}
    (h : ∀ e ∈ s.tables.entries, (e.2.columns.map (·.name)).Nodup) : s.Distinct :=
  fun _ _ ht => h _ (entry_of_table ht)

theorem closed_of_entries {s : Schema}
    (h : ∀ e ∈ s.tables.entries, ∀ b ∈ e.2.referenced, (s.table? b).isSome) : s.Closed :=
  fun _ _ ⟨_, ht, hb⟩ => h _ (entry_of_table ht) _ hb

/-- References that lead from higher to lower ranks form no circle. -/
theorem acyclic_of_rank {s : Schema} (rank : String → Nat)
    (h : ∀ e ∈ s.tables.entries, ∀ b ∈ e.2.referenced, rank b < rank e.1) : s.Acyclic := by
  have step {a b : String} (refers : s.Refers a b) : rank b < rank a := by
    obtain ⟨t, ht, hb⟩ := refers
    exact h _ (entry_of_table ht) b hb
  have falls {a b : String} (path : TransGen s.Refers a b) : rank b < rank a := by
    induction path with
    | single refers => exact step refers
    | tail _ refers ih => exact Nat.lt_trans (step refers) ih
  exact fun a circle => Nat.lt_irrefl _ (falls circle)

end Schema

namespace TableOrder

open Relation (TransGen)

variable {expected actual : Schema}

theorem mem_dependencies {a b : String} :
    b ∈ dependencies expected actual a ↔
      expected.Refers a b ∨ (expected.table? a = none ∧ actual.Refers a b) := by
  unfold dependencies Schema.Refers
  cases expected.table? a with
  | some t => simp
  | none => cases actual.table? a <;> simp

theorem expected_of_trans (closed : expected.Closed) {a b : String}
    (h : TransGen (fun a b => b ∈ dependencies expected actual a) a b)
    (known : (expected.table? a).isSome) :
    TransGen expected.Refers a b ∧ (expected.table? b).isSome := by
  induction h with
  | single step =>
    rcases mem_dependencies.mp step with refers | ⟨none, -⟩
    · exact ⟨.single refers, closed _ _ refers⟩
    · simp [none] at known
  | tail _ step ih =>
    obtain ⟨path, there⟩ := ih
    rcases mem_dependencies.mp step with refers | ⟨none, -⟩
    · exact ⟨path.tail refers, closed _ _ refers⟩
    · simp [none] at there

theorem actual_of_trans (closed : expected.Closed) {a b : String}
    (h : TransGen (fun a b => b ∈ dependencies expected actual a) a b)
    (unknown : expected.table? b = none) : TransGen actual.Refers a b := by
  induction h using TransGen.head_induction_on with
  | single step =>
    rcases mem_dependencies.mp step with refers | ⟨-, refers⟩
    · have := closed _ _ refers
      simp [unknown] at this
    · exact .single refers
  | head step rest ih =>
    rcases mem_dependencies.mp step with refers | ⟨-, refers⟩
    · obtain ⟨-, known⟩ := expected_of_trans closed rest (closed _ _ refers)
      simp [unknown] at known
    · exact .head refers ih

/-- A circle of dependencies lies in one of the schemas. -/
theorem dependencies_acyclic (closed : expected.Closed) (he : expected.Acyclic)
    (ha : actual.Acyclic) (a : String) :
    ¬ TransGen (fun a b => b ∈ dependencies expected actual a) a a := by
  intro circle
  cases h : expected.table? a with
  | none => exact ha a (actual_of_trans closed circle h)
  | some t => exact he a (expected_of_trans closed circle (h ▸ rfl)).1

/-- No table depends on one that comes after it. -/
theorem all_pairwise (closed : expected.Closed) (he : expected.Acyclic) (ha : actual.Acyclic) :
    (all expected actual).Pairwise fun a b => b ∉ dependencies expected actual a :=
  arrange_pairwise (dependencies_acyclic closed he ha) _

end TableOrder

end EntityStore
