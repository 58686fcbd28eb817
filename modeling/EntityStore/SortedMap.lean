namespace EntityStore

/-- Entries in ascending order of their keys, so that equal maps have equal lists. -/
structure SortedMap (α : Type) where
  entries : List (String × α)
  sorted : entries.Pairwise fun a b => a.1 < b.1

namespace SortedMap

variable {α : Type}

/-- Puts an entry in its place, where it replaces one of the same key. -/
def put (k : String) (v : α) : List (String × α) → List (String × α)
  | [] => [(k, v)]
  | e :: rest =>
    if k < e.1 then (k, v) :: e :: rest
    else if k = e.1 then (k, v) :: rest
    else e :: put k v rest

theorem mem_put {k : String} {v : α} {e : String × α} {l : List (String × α)}
    (h : e ∈ put k v l) : e = (k, v) ∨ e ∈ l := by
  induction l with
  | nil => simpa [put] using h
  | cons d l ih =>
    simp only [put] at h
    split at h
    · simpa using h
    · split at h
      · rcases List.mem_cons.1 h with h | h
        · exact .inl h
        · exact .inr (List.mem_cons_of_mem _ h)
      · rcases List.mem_cons.1 h with h | h
        · exact .inr (h ▸ List.mem_cons_self)
        · exact (ih h).imp id (List.mem_cons_of_mem _)

theorem sorted_put (k : String) (v : α) {l : List (String × α)}
    (h : l.Pairwise fun a b => a.1 < b.1) : (put k v l).Pairwise fun a b => a.1 < b.1 := by
  induction l with
  | nil => simp [put]
  | cons d l ih =>
    obtain ⟨hd, hl⟩ := List.pairwise_cons.1 h
    simp only [put]
    split
    · rename_i lt
      refine List.pairwise_cons.2 ⟨fun e he => ?_, h⟩
      rcases List.mem_cons.1 he with rfl | he
      · exact lt
      · exact String.lt_trans lt (hd e he)
    · split
      · rename_i eq
        exact List.pairwise_cons.2 ⟨fun e he => eq ▸ hd e he, hl⟩
      · rename_i nlt ne
        refine List.pairwise_cons.2 ⟨fun e he => ?_, ih hl⟩
        rcases mem_put he with rfl | he
        · exact Std.lt_of_le_of_ne (String.not_lt.1 nlt) (Ne.symm ne)
        · exact hd e he

def empty : SortedMap α := ⟨[], .nil⟩

/-- Adds an entry, or replaces the one of its key. -/
def insert (m : SortedMap α) (k : String) (v : α) : SortedMap α :=
  ⟨put k v m.entries, sorted_put k v m.sorted⟩

/-- The value of a key. -/
def get? (m : SortedMap α) (k : String) : Option α := (m.entries.find? fun e => e.1 == k).map (·.2)

def keys (m : SortedMap α) : List String := m.entries.map (·.1)

def values (m : SortedMap α) : List α := m.entries.map (·.2)

def isEmpty (m : SortedMap α) : Bool := m.entries.isEmpty

/-- Entries inserted one after another: of equal keys the last one counts. -/
def ofList (entries : List (String × α)) : SortedMap α :=
  entries.foldl (fun m e => m.insert e.1 e.2) empty

/-- The keys of two maps, each once. -/
def union (m : SortedMap α) (n : SortedMap α) : SortedMap α :=
  m.entries.foldl (fun acc e => acc.insert e.1 e.2) n

theorem mem_keys_insert {m : SortedMap α} {k : String} {v : α} {key : String} :
    key ∈ (m.insert k v).keys ↔ key = k ∨ key ∈ m.keys := by
  have entries (l : List (String × α)) :
      key ∈ (put k v l).map (·.1) ↔ key = k ∨ key ∈ l.map (·.1) := by
    induction l with
    | nil => simp [put]
    | cons e l ih =>
      simp only [put]
      split
      · simp
      · split
        · rename_i same
          simp [same]
        · simp only [List.map_cons, List.mem_cons, ih]
          exact or_left_comm
  exact entries m.entries

theorem get?_insert (m : SortedMap α) (k : String) (v : α) (key : String) :
    (m.insert k v).get? key = if key = k then some v else m.get? key := by
  have entries (l : List (String × α)) : ((put k v l).find? fun e => e.1 == key).map (·.2) =
      if key = k then some v else (l.find? fun e => e.1 == key).map (·.2) := by
    induction l with
    | nil => by_cases same : k = key <;> simp [put, same, Ne.symm]
    | cons e l ih =>
      simp only [put]
      split
      · by_cases same : k = key
        · simp [same]
        · simp [List.find?_cons, same, Ne.symm same]
      · split
        · rename_i own
          by_cases same : e.1 = key
          · simp [own, same]
          · simp [own, same, Ne.symm same]
        · rename_i other
          by_cases here : e.1 = key
          · have away : key ≠ k := fun same => other (here.trans same).symm
            simp [here, away]
          · simp [here, ih]
  exact entries m.entries

theorem mem_keys_union {m n : SortedMap α} {key : String} :
    key ∈ (m.union n).keys ↔ key ∈ m.keys ∨ key ∈ n.keys := by
  have entries (l : List (String × α)) (acc : SortedMap α) :
      key ∈ (l.foldl (fun acc e => acc.insert e.1 e.2) acc).keys ↔
        key ∈ l.map (·.1) ∨ key ∈ acc.keys := by
    induction l generalizing acc with
    | nil => simp
    | cons e l ih =>
      rw [List.foldl_cons, ih, mem_keys_insert, List.map_cons, List.mem_cons]
      exact or_left_comm.trans or_assoc.symm
  exact entries m.entries n

theorem keys_nodup (m : SortedMap α) : m.keys.Nodup := by
  refine List.pairwise_map.mpr (m.sorted.imp fun less same => ?_)
  rw [same] at less
  exact String.lt_irrefl _ less

theorem mem_keys_iff {m : SortedMap α} {key : String} : key ∈ m.keys ↔ (m.get? key).isSome := by
  simp [keys, get?]

theorem eq_of_entries {m n : SortedMap α} (same : m.entries = n.entries) : m = n := by
  cases m
  cases n
  cases same
  rfl

theorem put_last {k : String} {v : α} {entries : List (String × α)}
    (before : ∀ e ∈ entries, e.1 < k) : put k v entries = entries ++ [(k, v)] := by
  induction entries with
  | nil => rfl
  | cons e es ih =>
    obtain ⟨first, others⟩ := List.forall_mem_cons.mp before
    have notLess : ¬ k < e.1 := String.lt_asymm first
    have other : k ≠ e.1 := by
      intro same
      rw [same] at first
      exact String.lt_irrefl _ first
    rw [put, if_neg notLess, if_neg other, ih others, List.cons_append]

/-- Entries in ascending order are inserted one behind the other. -/
theorem entries_foldl_insert (m : SortedMap α) {entries : List (String × α)}
    (sorted : (m.entries ++ entries).Pairwise fun a b => a.1 < b.1) :
    (entries.foldl (fun m e => m.insert e.1 e.2) m).entries = m.entries ++ entries := by
  induction entries generalizing m with
  | nil => rw [List.foldl_nil, List.append_nil]
  | cons e es ih =>
    have placed : (m.insert e.1 e.2).entries = m.entries ++ [e] := by
      apply put_last
      intro d hd
      exact (List.pairwise_append.mp sorted).2.2 d hd e List.mem_cons_self
    have next := ih (m.insert e.1 e.2) (by simpa [placed] using sorted)
    rw [List.foldl_cons, next, placed, List.append_assoc, List.singleton_append]

theorem ofList_entries (m : SortedMap α) : ofList m.entries = m := by
  have sorted : ((empty : SortedMap α).entries ++ m.entries).Pairwise fun a b => a.1 < b.1 :=
    m.sorted
  exact eq_of_entries (entries_foldl_insert empty sorted)

end SortedMap

end EntityStore
