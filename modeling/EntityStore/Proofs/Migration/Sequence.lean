import EntityStore.Proofs.Migration.Steps
import Mathlib.Data.List.Nodup

namespace EntityStore

/-- The other tables that a step needs to be there. -/
def Step.references : Step → List String
  | .createTable t => t.referenced
  | .rebuildTable t _ => t.referenced
  | .addColumn name c => (c.references.toList.map (·.table)).filter fun r => r != name
  | .dropTable _ => []
  | .dropColumn _ _ => []

/-- All that a plan does to one table. -/
inductive Step.OneTable (name : String) : List Step → Prop
  | created (t : Table) : t.name = name → OneTable name [.createTable t]
  | droppedTable : OneTable name [.dropTable name]
  | rebuilt (t : Table) (copies : List ColumnCopy) : t.name = name →
      OneTable name [.rebuildTable t copies]
  | altered (added : List Column) (dropped : List String) :
      OneTable name (added.map (.addColumn name) ++ dropped.map (.dropColumn name))

theorem Step.OneTable.table {name : String} {steps : List Step} (h : Step.OneTable name steps) :
    ∀ step ∈ steps, step.table = name := by
  intro step hs
  cases h with
  | created t same =>
    obtain rfl := List.mem_singleton.mp hs
    exact same
  | droppedTable =>
    obtain rfl := List.mem_singleton.mp hs
    rfl
  | rebuilt t copies same =>
    obtain rfl := List.mem_singleton.mp hs
    exact same
  | altered added dropped =>
    rcases List.mem_append.mp hs with add | drop
    · obtain ⟨c, -, rfl⟩ := List.mem_map.mp add
      rfl
    · obtain ⟨c, -, rfl⟩ := List.mem_map.mp drop
      rfl

namespace Planner

variable {p : Planner} {expected actual : Schema} {name : String} {steps : List Step}

namespace Treated

theorem oneTable (ne : expected.Named) (h : Treated p expected actual name steps) :
    Step.OneTable name steps := by
  cases h with
  | unexpected none => exact .altered [] []
  | created t some none => exact .created t (ne name t some)
  | rebuilt t current copies some found rules => exact .rebuilt t copies (ne name t some)
  | altered t current some found keep =>
    rw [ne name t some]
    have steps : Step.OneTable name _ := .altered (added t current)
      ((dropped t current).map (·.name))
    rwa [List.map_map, Function.comp_def] at steps

theorem references (h : Treated p expected actual name steps) :
    ∀ step ∈ steps, ∀ r ∈ step.references, expected.Refers name r := by
  intro step hs r hr
  cases h with
  | unexpected none => cases hs
  | created t some none =>
    obtain rfl := List.mem_singleton.mp hs
    exact ⟨t, some, hr⟩
  | rebuilt t current copies some found rules =>
    obtain rfl := List.mem_singleton.mp hs
    exact ⟨t, some, hr⟩
  | altered t current some found keep =>
    rcases List.mem_append.mp hs with add | drop
    · obtain ⟨c, hc, rfl⟩ := List.mem_map.mp add
      refine ⟨t, some, ?_⟩
      obtain ⟨key, other⟩ := List.mem_filter.mp hr
      obtain ⟨f, hf, rfl⟩ := List.mem_map.mp key
      refine List.mem_filter.mpr ⟨List.mem_filterMap.mpr ⟨c, (List.mem_filter.mp hc).1, ?_⟩, other⟩
      rw [Option.mem_toList.mp hf]
      rfl
    · obtain ⟨c, -, rfl⟩ := List.mem_map.mp drop
      cases hr

theorem nil_of_unexpected (h : Treated p expected actual name steps)
    (none : expected.table? name = none) : steps = [] := by
  cases h with
  | unexpected _ => rfl
  | created t some _ => simp [none] at some
  | rebuilt t current copies some _ _ => simp [none] at some
  | altered t current some _ _ => simp [none] at some

theorem created_of_new (ne : expected.Named) (h : Treated p expected actual name steps)
    (known : (expected.table? name).isSome) (new : actual.table? name = none) :
    ∃ t, t.name = name ∧ steps = [.createTable t] := by
  cases h with
  | unexpected none => simp [none] at known
  | created t some _ => exact ⟨t, ne name t some, rfl⟩
  | rebuilt t current copies _ found _ => simp [new] at found
  | altered t current _ found _ => simp [new] at found

theorem not_drop (h : Treated p expected actual name steps) (other : String) :
    .dropTable other ∉ steps := by
  cases h <;> simp

end Treated

/-- A member of two lists, one after the other, is in the first or behind it. -/
theorem append_split {α : Type} {xs ys before after : List α} {a : α}
    (h : xs ++ ys = before ++ a :: after) :
    (a ∈ xs ∧ ∃ rest, xs = before ++ a :: rest) ∨
      ∃ b, before = xs ++ b ∧ ys = b ++ a :: after := by
  rcases List.append_eq_append_iff.mp h with ⟨b, rfl, tail⟩ | ⟨rest, rfl, tail⟩
  · exact .inr ⟨b, rfl, tail⟩
  · cases rest with
    | nil => exact .inr ⟨[], by simp, tail.symm⟩
    | cons first rest =>
      obtain ⟨rfl, -⟩ := List.cons.inj tail
      exact .inl ⟨List.mem_append_right _ List.mem_cons_self, rest, rfl⟩

/-- A step among the steps of several tables is a step of one of them. -/
theorem flatMap_split {steps : String → List Step} {names : List String} {before after : List Step}
    {step : Step} (h : names.flatMap steps = before ++ step :: after) :
    ∃ earlier name later mine rest, names = earlier ++ name :: later ∧
      steps name = mine ++ step :: rest ∧ before = earlier.flatMap steps ++ mine := by
  induction names generalizing before with
  | nil => simp at h
  | cons first names ih =>
    rw [List.flatMap_cons] at h
    rcases append_split h with ⟨-, rest, own⟩ | ⟨_, rfl, tail⟩
    · exact ⟨[], first, names, before, rest, rfl, own, rfl⟩
    · obtain ⟨earlier, name, later, mine, rest, rfl, own, rfl⟩ := ih tail
      exact ⟨first :: earlier, name, later, mine, rest, rfl, own, by simp⟩

/-- Of two dropped tables, the one that refers to the other is dropped first. -/
theorem unknownTables_sorted (ce : expected.Closed) (ae : expected.Acyclic) (aa : actual.Acyclic)
    {a b : String} (ha : a ∈ p.unknownTables expected actual)
    (hb : b ∈ p.unknownTables expected actual) (refers : actual.Refers a b) :
    (p.unknownTables expected actual).idxOf a < (p.unknownTables expected actual).idxOf b := by
  have sorted : (p.unknownTables expected actual).Pairwise fun a b =>
      a ∉ TableOrder.dependencies expected actual b := by
    unfold unknownTables
    split
    · exact .nil
    · exact (List.pairwise_reverse.mpr (TableOrder.all_pairwise ce ae aa)).filter _
  have depends : b ∈ TableOrder.dependencies expected actual a :=
    TableOrder.mem_dependencies.mpr (.inr ⟨(mem_unknownTables.mp ha).2.1, refers⟩)
  rcases Nat.lt_trichotomy ((p.unknownTables expected actual).idxOf a)
    ((p.unknownTables expected actual).idxOf b) with less | same | more
  · exact less
  · have one : a = b := List.idxOf_inj ha |>.mp same
    rw [one] at refers
    exact absurd (.single refers) (aa b)
  · have apart := List.pairwise_iff_getElem.mp sorted _ _ (List.idxOf_lt_length_of_mem hb)
      (List.idxOf_lt_length_of_mem ha) more
    rw [List.getElem_idxOf, List.getElem_idxOf] at apart
    exact absurd depends apart

section

variable {steps : String → List Step}

/-- A table that a step refers to is an old one that stays, or was created before. -/
theorem reference_there (ce : expected.Closed) (ae : expected.Acyclic) (aa : actual.Acyclic)
    (ne : expected.Named)
    (treated : ∀ name ∈ TableOrder.all expected actual, Treated p expected actual name (steps name))
    {before after : List Step} {step : Step}
    (split : (TableOrder.all expected actual).flatMap steps = before ++ step :: after) {r : String}
    (hr : r ∈ step.references) :
    (expected.table? r).isSome ∧
      ((actual.table? r).isSome ∨ ∃ t, t.name = r ∧ .createTable t ∈ before) := by
  obtain ⟨earlier, name, later, mine, _, order, own, rfl⟩ := flatMap_split split
  have member : name ∈ TableOrder.all expected actual := order ▸ by simp
  have hs : step ∈ steps name := own ▸ List.mem_append_right _ List.mem_cons_self
  have refers := (treated name member).references step hs r hr
  have known := ce name r refers
  have sorted := TableOrder.all_pairwise ce ae aa
  rw [order] at sorted
  have ahead : r ∈ earlier := by
    have listed : r ∈ TableOrder.all expected actual := TableOrder.mem_all.mpr (.inl known)
    rw [order, List.mem_append, List.mem_cons] at listed
    rcases listed with here | rfl | behind
    · exact here
    · exact absurd (.single refers) (ae r)
    · have apart := (List.pairwise_cons.mp (List.pairwise_append.mp sorted).2.1).1 r behind
      exact absurd (TableOrder.mem_dependencies.mpr (.inl refers)) apart
  refine ⟨known, ?_⟩
  cases old : actual.table? r with
  | some t => exact .inl rfl
  | none =>
    have listed : r ∈ TableOrder.all expected actual := order ▸ List.mem_append_left _ ahead
    obtain ⟨t, same, created⟩ := (treated r listed).created_of_new ne known old
    have mine : .createTable t ∈ steps r := created ▸ List.mem_singleton.mpr rfl
    exact .inr ⟨t, same, List.mem_append_left _ (List.mem_flatMap.mpr ⟨r, ahead, mine⟩)⟩

theorem table_ne_of_drops {names : List String} (absent : name ∉ names) :
    ∀ step ∈ names.map Step.dropTable, step.table ≠ name := by
  intro step hs
  obtain ⟨n, hn, rfl⟩ := List.mem_map.mp hs
  rintro rfl
  exact absent hn

theorem table_ne_of_steps (ne : expected.Named) (name : String) {names : List String}
    (treated : ∀ n ∈ names, Treated p expected actual n (steps n))
    (absent : ∀ n ∈ names, steps n ≠ [] → n ≠ name) :
    ∀ step ∈ names.flatMap steps, step.table ≠ name := by
  intro step hs
  obtain ⟨n, hn, hs⟩ := List.mem_flatMap.mp hs
  rw [((treated n hn).oneTable ne).table step hs]
  exact absent n hn (List.ne_nil_of_mem hs)

/-- The steps for a table stand together among those of all tables. -/
theorem grouped (ne : expected.Named)
    (treated : ∀ name ∈ TableOrder.all expected actual, Treated p expected actual name (steps name))
    (name : String) :
    ∃ before mine after,
      (p.unknownTables expected actual).map .dropTable ++
        (TableOrder.all expected actual).flatMap steps = before ++ mine ++ after ∧
      Step.OneTable name mine ∧ ∀ step ∈ before ++ after, step.table ≠ name := by
  by_cases unknown : name ∈ p.unknownTables expected actual
  · obtain ⟨d₁, d₂, split⟩ := List.append_of_mem unknown
    have once := split ▸ unknownTables_nodup p expected actual
    have absent := (List.nodup_cons.mp (List.nodup_middle.mp once)).1
    have kept : ∀ n ∈ TableOrder.all expected actual, steps n ≠ [] → n ≠ name := by
      rintro n hn some rfl
      exact some ((treated n hn).nil_of_unexpected (mem_unknownTables.mp unknown).2.1)
    have first := table_ne_of_drops fun h => absent (List.mem_append_left d₂ h)
    have second := table_ne_of_drops fun h => absent (List.mem_append_right d₁ h)
    refine ⟨d₁.map .dropTable, [.dropTable name],
      d₂.map .dropTable ++ (TableOrder.all expected actual).flatMap steps, ?_, .droppedTable, ?_⟩
    · simp [split]
    · rw [List.forall_mem_append, List.forall_mem_append]
      exact ⟨first, second, table_ne_of_steps ne name treated kept⟩
  · have drops := table_ne_of_drops unknown
    by_cases listed : name ∈ TableOrder.all expected actual
    · obtain ⟨o₁, o₂, split⟩ := List.append_of_mem listed
      have once := split ▸ TableOrder.all_nodup expected actual
      have absent := (List.nodup_cons.mp (List.nodup_middle.mp once)).1
      rw [split] at treated ⊢
      have first := table_ne_of_steps ne name (fun n hn => treated n (List.mem_append_left _ hn))
        fun n hn _ same => absent (List.mem_append_left o₂ (same ▸ hn))
      have second := table_ne_of_steps ne name
        (fun n hn => treated n (List.mem_append_right _ (List.mem_cons_of_mem name hn)))
        fun n hn _ same => absent (List.mem_append_right o₁ (same ▸ hn))
      refine ⟨(p.unknownTables expected actual).map .dropTable ++ o₁.flatMap steps, steps name,
        o₂.flatMap steps, by simp, (treated name (by simp)).oneTable ne, ?_⟩
      rw [List.forall_mem_append, List.forall_mem_append]
      exact ⟨⟨drops, first⟩, second⟩
    · have others := table_ne_of_steps ne name treated fun n hn _ same => listed (same ▸ hn)
      refine ⟨(p.unknownTables expected actual).map .dropTable ++
        (TableOrder.all expected actual).flatMap steps, [], [], by simp, .altered [] [], ?_⟩
      rw [List.append_nil, List.forall_mem_append]
      exact ⟨drops, others⟩

end

/-- A plan drops first, needs no table that is not there, and treats one table after another. -/
theorem plan_in_sequence (d : Dialect) (types : TypeMap) (options : PlannerOptions)
    (expected actual : Schema) (ne : expected.Named) (ce : expected.Closed) (ae : expected.Acyclic)
    (aa : actual.Acyclic) (plan : Plan)
    (planned : (Planner.of d types options).plan expected actual = .ok plan) :
    (∃ (dropped : List String) (rest : Plan), plan = dropped.map .dropTable ++ rest ∧
      dropped.Nodup ∧ (∀ name, .dropTable name ∉ rest) ∧
      (∀ name, name ∈ dropped ↔ options.preserveUnknownTables = false ∧
        expected.table? name = none ∧ (actual.table? name).isSome) ∧
      ∀ a ∈ dropped, ∀ b ∈ dropped, actual.Refers a b → dropped.idxOf a < dropped.idxOf b) ∧
    (∀ before step after, plan = before ++ step :: after → ∀ r ∈ step.references,
      .dropTable r ∉ plan ∧
        ((actual.table? r).isSome ∨ ∃ t, t.name = r ∧ .createTable t ∈ before)) ∧
    ∀ name, ∃ before mine after, plan = before ++ mine ++ after ∧ Step.OneTable name mine ∧
      ∀ step ∈ before ++ after, step.table ≠ name := by
  obtain ⟨steps, treated, rfl⟩ := plan_ok planned
  have rest (name : String) :
      .dropTable name ∉ (TableOrder.all expected actual).flatMap steps := by
    intro h
    obtain ⟨n, hn, hs⟩ := List.mem_flatMap.mp h
    exact (treated n hn).not_drop name hs
  refine ⟨⟨_, _, rfl, unknownTables_nodup _ _ _, rest, fun name => mem_unknownTables,
    fun a ha b hb refers => unknownTables_sorted ce ae aa ha hb refers⟩, ?_, grouped ne treated⟩
  intro before step after split r hr
  rcases append_split split with ⟨drop, -⟩ | ⟨b, rfl, tail⟩
  · obtain ⟨n, -, rfl⟩ := List.mem_map.mp drop
    cases hr
  · obtain ⟨known, there⟩ := reference_there ce ae aa ne treated tail hr
    refine ⟨fun h => ?_, there.imp_right fun ⟨t, same, created⟩ =>
      ⟨t, same, List.mem_append_right _ created⟩⟩
    rcases List.mem_append.mp h with drop | treat
    · obtain ⟨n, hn, same⟩ := List.mem_map.mp drop
      cases same
      simp [(mem_unknownTables.mp hn).2.1] at known
    · exact rest r treat

theorem plan_in_sequence_wanted :
    wanted.Named ∧ wanted.Closed ∧ wanted.Acyclic ∧ stored.Acyclic ∧
      (Planner.of .generic .generic .default).plan wanted stored = .ok wantedSteps ∧
      ∃ (dropped : List String) (rest : Plan), wantedSteps = dropped.map .dropTable ++ rest ∧
        dropped.Nodup ∧ (∀ name, .dropTable name ∉ rest) ∧
        (∀ name, name ∈ dropped ↔ PlannerOptions.default.preserveUnknownTables = false ∧
          wanted.table? name = none ∧ (stored.table? name).isSome) ∧
        ∀ a ∈ dropped, ∀ b ∈ dropped, stored.Refers a b → dropped.idxOf a < dropped.idxOf b := by
  have ne : wanted.Named := Schema.named_of_entries (by decide)
  have ce : wanted.Closed := Schema.closed_of_entries (by decide)
  have ae : wanted.Acyclic :=
    Schema.acyclic_of_rank (fun name => if name = "users" then 1 else 0) (by decide)
  have aa : stored.Acyclic :=
    Schema.acyclic_of_rank (fun name => if name = "visits" then 1 else 0) (by decide)
  exact ⟨ne, ce, ae, aa, plan_wanted,
    (plan_in_sequence .generic .generic .default wanted stored ne ce ae aa wantedSteps
      plan_wanted).1⟩

end Planner

end EntityStore
