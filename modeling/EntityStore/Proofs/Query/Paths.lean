import EntityStore.Proofs.Condition.Truth
import EntityStore.Query.Joins
import Mathlib.Data.List.Induction
import Mathlib.Data.List.Nodup

namespace EntityStore

namespace Hop

/-- The path at the end of a hop, or of the root. -/
def pathAt (paths : List Path) : Option Nat → Path
  | none => []
  | some i => (paths[i]?).getD []

/-- The paths that hops lead along, each from the end of its parent. -/
def paths (hops : List Hop) : List Path :=
  hops.foldl (fun done h => done ++ [pathAt done h.parent ++ [h.relation.step]]) []

theorem paths_append (hops : List Hop) (h : Hop) :
    paths (hops ++ [h]) = paths hops ++ [pathAt (paths hops) h.parent ++ [h.relation.step]] := by
  simp [paths]

/-- Places that a hop may start from. -/
def Within (parent : Option Nat) (n : Nat) : Prop := ∀ i ∈ parent, i < n

/-- Hops that are found one after another. -/
inductive Grown : List Hop → Prop
  | nil : Grown []
  | snoc {hops : List Hop} {h : Hop} : Grown hops → Within h.parent hops.length →
      (∀ g ∈ hops, g.takes h.parent h.relation = false) → Grown (hops ++ [h])

theorem paths_length (hops : List Hop) : (paths hops).length = hops.length := by
  induction hops using List.reverseRecOn with
  | nil => rfl
  | append_singleton hops h ih => simp [paths_append, ih]

theorem pathAt_append {done more : List Path} {parent : Option Nat} {n : Nat}
    (h : Within parent n) (hn : n ≤ done.length) :
    pathAt (done ++ more) parent = pathAt done parent := by
  cases parent with
  | none => rfl
  | some i =>
    have : i < done.length := Nat.lt_of_lt_of_le (h i rfl) hn
    simp [pathAt, List.getElem?_append_left this]

/-- The path of a hop goes on from the path of its parent. -/
theorem Grown.path {hops : List Hop} (grown : Grown hops) {i : Nat} {h : Hop}
    (found : hops[i]? = some h) :
    (paths hops)[i]? = some (pathAt (paths hops) h.parent ++ [h.relation.step]) ∧
      Within h.parent i := by
  induction grown with
  | nil => simp at found
  | @snoc hops last _ within _ ih =>
    have length := paths_length hops
    rw [paths_append]
    rcases Nat.lt_trichotomy i hops.length with less | rfl | more
    · rw [List.getElem?_append_left less] at found
      obtain ⟨path, inner⟩ := ih found
      have inside : Within h.parent hops.length := fun j hj => Nat.lt_trans (inner j hj) less
      rw [List.getElem?_append_left (by omega), pathAt_append inside (by omega)]
      exact ⟨path, inner⟩
    · rw [List.getElem?_append_right (Nat.le_refl _)] at found
      have same : last = h := by simpa using found
      subst same
      rw [pathAt_append within (by omega), ← length, List.getElem?_append_right (Nat.le_refl _)]
      exact ⟨by simp, length ▸ within⟩
    · rw [List.getElem?_eq_none (by simp; omega)] at found
      cases found

theorem Grown.pathAt_ne_nil {hops : List Hop} (grown : Grown hops) {i : Nat}
    (hi : i < hops.length) : pathAt (paths hops) (some i) ≠ [] := by
  have path := (grown.path (List.getElem?_eq_getElem hi)).1
  simp [pathAt, path]

/-- Places with one path are one place. -/
theorem Grown.pathAt_inj {hops : List Hop} (grown : Grown hops) (nodup : (paths hops).Nodup)
    {a b : Option Nat} (ha : Within a hops.length) (hb : Within b hops.length)
    (same : pathAt (paths hops) a = pathAt (paths hops) b) : a = b := by
  have length := paths_length hops
  match a, b with
  | none, none => rfl
  | none, some j => exact absurd same.symm (grown.pathAt_ne_nil (hb j rfl))
  | some i, none => exact absurd same (grown.pathAt_ne_nil (ha i rfl))
  | some i, some j =>
    have hi : i < (paths hops).length := length ▸ ha i rfl
    have hj : j < (paths hops).length := length ▸ hb j rfl
    simp only [pathAt, List.getElem?_eq_getElem hi, List.getElem?_eq_getElem hj,
      Option.getD_some] at same
    rw [(nodup.getElem_inj_iff).mp same]

/-- No two hops lead along one path. -/
theorem Grown.paths_nodup {hops : List Hop} (grown : Grown hops) : (paths hops).Nodup := by
  induction grown with
  | nil => exact List.nodup_nil
  | @snoc hops h grown within fresh ih =>
    rw [paths_append, List.nodup_append]
    refine ⟨ih, by simp, ?_⟩
    intro p hp p' hp' same
    obtain rfl := List.mem_singleton.mp hp'
    obtain ⟨i, hi, rfl⟩ := List.getElem_of_mem hp
    rw [paths_length] at hi
    obtain ⟨path, inner⟩ := grown.path (List.getElem?_eq_getElem hi)
    have ends : pathAt (paths hops) hops[i].parent ++ [hops[i].relation.step] =
        pathAt (paths hops) h.parent ++ [h.relation.step] := by
      rw [List.getElem?_eq_getElem (by rw [paths_length]; exact hi)] at path
      rw [← Option.some.inj path]
      exact same
    obtain ⟨start, step⟩ := List.append_inj' ends rfl
    have parent := grown.pathAt_inj ih (fun j hj => Nat.lt_trans (inner j hj) hi) within start
    have takes : hops[i].takes h.parent h.relation = true := by
      simp only [List.cons.injEq, FieldRef.step, Prod.mk.injEq] at step
      simp [takes, parent, FieldRef.same, step.1]
    rw [fresh hops[i] (List.getElem_mem hi)] at takes
    cases takes

/-- No hop leads back to the root either. -/
theorem Grown.places_nodup {hops : List Hop} (grown : Grown hops) : ([] :: paths hops).Nodup := by
  refine List.nodup_cons.mpr ⟨fun root => ?_, grown.paths_nodup⟩
  obtain ⟨i, hi, empty⟩ := List.getElem_of_mem root
  have nonempty := grown.pathAt_ne_nil (paths_length hops ▸ hi)
  rw [pathAt, List.getElem?_eq_getElem hi] at nonempty
  exact nonempty empty

end Hop

namespace Condition

open Hop (Grown Within)

theorem hops_relational (root : String) (scope : Shape) (parent : Option Nat) (known : List Hop)
    (relation : FieldRef) (inner : Condition) :
    (Condition.relational relation inner).hops root scope parent known = (do
      scope.check relation
      let hop ← Hop.of relation parent
      if hop.target.id.table = root then
        .error (.invalidArgument (.backReference relation.label root))
      else
        match Hop.find? known parent relation with
        | some index => inner.hops root hop.target (some index) known
        | none => inner.hops root hop.target (some known.length) (known ++ [hop])) := by
  rfl

theorem hop_of_ok {relation : FieldRef} {parent : Option Nat} {hop : Hop}
    (h : Hop.of relation parent = .ok hop) : hop.parent = parent ∧ hop.relation = relation := by
  unfold Hop.of at h
  split at h
  · cases h
  · split at h
    · cases h
    · cases h
      exact ⟨rfl, rfl⟩

/-- A relation that is accepted takes the first hop for it, which is added where there was none. -/
theorem hops_relational_ok {root : String} {scope : Shape} {parent : Option Nat}
    {known found : List Hop} {relation : FieldRef} {inner : Condition}
    (h : (Condition.relational relation inner).hops root scope parent known = .ok found) :
    ∃ hop index next, scope.check relation = .ok () ∧ Hop.of relation parent = .ok hop ∧
      Hop.find? next parent relation = some index ∧
      (next = known ∨ next = known ++ [hop] ∧ Hop.find? known parent relation = none) ∧
      inner.hops root hop.target (some index) next = .ok found := by
  rw [hops_relational] at h
  obtain ⟨⟨⟩, checked, h⟩ := Except.bind_eq_ok.mp h
  obtain ⟨hop, hhop, h⟩ := Except.bind_eq_ok.mp h
  obtain ⟨start, taken⟩ := hop_of_ok hhop
  split at h
  · cases h
  · split at h
    · rename_i index some
      exact ⟨hop, index, known, checked, hhop, some, .inl rfl, h⟩
    · rename_i none
      have takes : hop.takes parent relation = true := by
        simp [Hop.takes, start, taken, FieldRef.same]
      have last : Hop.find? (known ++ [hop]) parent relation = some known.length := by
        rw [Hop.find?] at none ⊢
        rw [List.findIdx?_append, none]
        simp [takes]
      exact ⟨hop, known.length, known ++ [hop], checked, hhop, last, .inr ⟨rfl, none⟩, h⟩

/-- The hops among which a relation is taken. -/
theorem grown_next {parent : Option Nat} {known next : List Hop} {relation : FieldRef} {hop : Hop}
    {index : Nat} (found : Hop.of relation parent = .ok hop)
    (taken : Hop.find? next parent relation = some index)
    (added : next = known ∨ next = known ++ [hop] ∧ Hop.find? known parent relation = none)
    (grown : Grown known) (within : Within parent known.length) :
    Grown next ∧ Within (some index) next.length ∧ known <+: next := by
  have inside : Within (some index) next.length := by
    obtain ⟨inside, -⟩ := List.findIdx?_eq_some_iff_getElem.mp taken
    intro i hi
    exact Option.some.inj hi ▸ inside
  rcases added with rfl | ⟨rfl, none⟩
  · exact ⟨grown, inside, List.prefix_rfl⟩
  · obtain ⟨start, same⟩ := hop_of_ok found
    have fresh : ∀ g ∈ known, g.takes hop.parent hop.relation = false := by
      intro g hg
      rw [start, same]
      exact List.findIdx?_eq_none_iff.mp none g hg
    exact ⟨.snoc grown (start ▸ within) fresh, inside, List.prefix_append known [hop]⟩

theorem hopsOfAll_grown (root : String) (scope : Shape) (parent : Option Nat)
    {cs : List Condition} {known found : List Hop}
    (each : ∀ c ∈ cs, ∀ known found, c.hops root scope parent known = .ok found → Grown known →
      Within parent known.length → Grown found ∧ known <+: found)
    (h : hopsOfAll root scope parent known cs = .ok found) (grown : Grown known)
    (within : Within parent known.length) : Grown found ∧ known <+: found := by
  induction cs generalizing known with
  | nil =>
    cases h
    exact ⟨grown, List.prefix_rfl⟩
  | cons c cs ih =>
    obtain ⟨next, first, rest⟩ := Except.bind_eq_ok.mp h
    obtain ⟨grown', longer⟩ := each c List.mem_cons_self known next first grown within
    have within' : Within parent next.length := fun i hi =>
      Nat.lt_of_lt_of_le (within i hi) longer.length_le
    obtain ⟨grown'', longer'⟩ :=
      ih (fun c hc => each c (List.mem_cons_of_mem _ hc)) rest grown' within'
    exact ⟨grown'', longer.trans longer'⟩

/-- The hops that a condition adds come after those that are known. -/
theorem hops_grown {root : String} {scope : Shape} {parent : Option Nat} {known found : List Hop}
    {c : Condition} (h : c.hops root scope parent known = .ok found) (grown : Grown known)
    (within : Within parent known.length) : Grown found ∧ known <+: found := by
  induction c generalizing scope parent known found with
  | unary f op =>
    obtain ⟨_, -, rfl⟩ := Except.map_eq_ok.mp h
    exact ⟨grown, List.prefix_rfl⟩
  | binary f op v =>
    obtain ⟨_, -, rfl⟩ := Except.map_eq_ok.mp h
    exact ⟨grown, List.prefix_rfl⟩
  | ternary f op v w =>
    obtain ⟨_, -, rfl⟩ := Except.map_eq_ok.mp h
    exact ⟨grown, List.prefix_rfl⟩
  | collection f op vs =>
    obtain ⟨_, -, rfl⟩ := Except.map_eq_ok.mp h
    exact ⟨grown, List.prefix_rfl⟩
  | relational relation inner ih =>
    obtain ⟨hop, index, next, -, hhop, taken, added, deeper⟩ := hops_relational_ok h
    obtain ⟨grown', inside, longer⟩ := grown_next hhop taken added grown within
    obtain ⟨grown'', longer'⟩ := ih deeper grown' inside
    exact ⟨grown'', longer.trans longer'⟩
  | composite op children ih =>
    exact hopsOfAll_grown root scope parent
      (fun c hc known found h grown within => ih c hc h grown within) h grown within

end Condition

namespace Join

open Sql (Row Rows)

/-- The paths that joins lead along. -/
def paths (joins : List Join) : List Path := Hop.paths (joins.map (·.toHop))

theorem aliasesFrom_length (hops : List Hop) (taken : List String) (index : Nat) (rest : List Hop) :
    (Hop.aliasesFrom hops taken index rest).length = rest.length := by
  induction rest generalizing taken index with
  | nil => rfl
  | cons h rest ih => simp [Hop.aliasesFrom, ih]

theorem map_toHop_toJoins (hops : List Hop) : (Hop.toJoins hops).map (·.toHop) = hops := by
  have length := aliasesFrom_length hops [] 0 hops
  rw [Hop.toJoins, List.map_zipWith]
  apply List.ext_getElem <;> simp [length]

theorem grown_of_joins {c : Condition} {e : Entity} {joins : List Join}
    (h : c.joins e = .ok joins) : Hop.Grown (joins.map (·.toHop)) := by
  obtain ⟨hops, found, rfl⟩ := Except.map_eq_ok.mp h
  rw [map_toHop_toJoins]
  have start : Hop.Within none ([] : List Hop).length := fun i hi => by cases hi
  exact (Condition.hops_grown found .nil start).1

/-- The row at the end of each path, under the name of the table there. -/
def rowsAt (names : List String) (places : List Path) (rows : Path → Row) : Rows :=
  List.zipWith (fun name p => (name, rows p)) names places

/-- Where names are distinct, a name finds the row at its own place. -/
theorem value_rowsAt {names : List String} {places : List Path} (distinct : names.Nodup) {i : Nat}
    {name : String} {p : Path} (hn : names[i]? = some name) (hp : places[i]? = some p)
    (rows : Path → Row) (column : String) :
    (rowsAt names places rows).value ⟨some name, column⟩ = rows p column := by
  obtain ⟨hi, rfl⟩ := List.getElem?_eq_some_iff.mp hn
  obtain ⟨hi', rfl⟩ := List.getElem?_eq_some_iff.mp hp
  have found : (rowsAt names places rows).find? (fun r => (some names[i]).all (· == r.1)) =
      some (names[i], rows places[i]) := by
    rw [List.find?_eq_some_iff_getElem]
    refine ⟨by simp, i, by simp [rowsAt]; omega, by simp [rowsAt], fun j hj => ?_⟩
    have other : names[i] ≠ names[j] := by
      intro same
      have := (distinct.getElem_inj_iff).mp same
      omega
    simpa [rowsAt] using other
  rw [Rows.value]
  simp only [found]

end Join

end EntityStore
