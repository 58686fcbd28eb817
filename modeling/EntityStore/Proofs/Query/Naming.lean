import EntityStore.Proofs.Query.Joined
import Mathlib.Data.List.Nodup

namespace EntityStore

namespace Hop

/-- Whether more hops than one lead to the table of a hop. -/
def Shared (hops : List Hop) (h : Hop) : Prop :=
  1 < hops.countP fun g => g.target.id.table == h.target.id.table

instance (hops : List Hop) (h : Hop) : Decidable (Shared hops h) :=
  inferInstanceAs (Decidable (1 < _))

/-- The table of a hop together with the column that leads there. -/
def longName (h : Hop) : String := h.target.id.table ++ "__" ++ h.relation.field.column

/-- The name of a hop before it is kept apart from those of earlier hops. -/
def plainName (hops : List Hop) (h : Hop) : String :=
  if Shared hops h then h.longName else h.target.id.table

/-- A name that is kept apart by a number. -/
def numberedName (hops : List Hop) (index : Nat) (h : Hop) : String :=
  plainName hops h ++ "_" ++ Nat.repr index

theorem aliasOf_eq (hops : List Hop) (taken : List String) (index : Nat) (h : Hop) :
    aliasOf hops taken index h =
      if plainName hops h ∈ taken then numberedName hops index h else plainName hops h := by
  simp only [aliasOf, List.contains_iff_mem]
  rfl

/-- Each alias is made from the hop and the aliases before it. -/
theorem aliasesFrom_getElem? {hops : List Hop} {taken : List String} {index : Nat} {rest : List Hop}
    {i : Nat} {h : Hop} (found : rest[i]? = some h) :
    (aliasesFrom hops taken index rest)[i]? =
      some (aliasOf hops (taken ++ (aliasesFrom hops taken index rest).take i) (index + i) h) := by
  induction rest generalizing taken index i with
  | nil => simp at found
  | cons first rest ih =>
    cases i with
    | zero =>
      obtain rfl : first = h := by simpa using found
      simp [aliasesFrom]
    | succ i =>
      rw [List.getElem?_cons_succ] at found
      rw [aliasesFrom, List.getElem?_cons_succ, ih found, List.take_succ_cons, List.append_assoc,
        List.singleton_append, Nat.add_assoc, Nat.add_comm 1 i]

/-- The digits of a number at the end of a name, up to the mark, which is no digit. -/
theorem digits_of_numbered (name : String) (n : Nat) :
    (name ++ "_" ++ Nat.repr n).toList.reverse.takeWhile (· != '_') = (Nat.repr n).toList.reverse := by
  have mark : "_".toList.reverse = ['_'] := rfl
  have digits : ∀ c ∈ (Nat.repr n).toList.reverse, (c != '_') = true := by
    intro c hc
    rw [List.mem_reverse, Nat.toList_repr] at hc
    have digit := Nat.isDigit_of_mem_toDigits (by decide) (by decide) hc
    rw [bne_iff_ne]
    rintro rfl
    exact absurd digit (by decide)
  rw [String.toList_append, String.toList_append, List.reverse_append, List.reverse_append, mark,
    List.takeWhile_append_of_pos digits]
  simp

/-- Numbered names are told apart by their numbers. -/
theorem numberedName_inj {hops : List Hop} {i j : Nat} {g h : Hop}
    (same : numberedName hops i g = numberedName hops j h) : i = j := by
  have digits := congrArg (fun s => s.toList.reverse.takeWhile (· != '_')) same
  simp only [numberedName, digits_of_numbered, List.reverse_inj, Nat.toList_repr] at digits
  have read (n : Nat) : Nat.ofDigitChars 10 (Nat.toDigits 10 n) 0 = n :=
    Nat.ofDigitChars_toDigits (by decide) (by decide)
  rw [← read i, ← read j, digits]

end Hop

namespace Condition

theorem elsewhere_of_all {root : String} {scope : Shape} {parent : Option Nat}
    {cs : List Condition} {known found : List Hop}
    (each : ∀ c ∈ cs, ∀ known found, c.hops root scope parent known = .ok found →
      (∀ h ∈ known, h.target.id.table ≠ root) → ∀ h ∈ found, h.target.id.table ≠ root)
    (h : hopsOfAll root scope parent known cs = .ok found)
    (before : ∀ h ∈ known, h.target.id.table ≠ root) : ∀ h ∈ found, h.target.id.table ≠ root := by
  induction cs generalizing known with
  | nil =>
    cases h
    exact before
  | cons c cs ih =>
    obtain ⟨next, first, rest⟩ := Except.bind_eq_ok.mp h
    obtain ⟨here, others⟩ := List.forall_mem_cons.mp each
    exact ih others rest (here known next first before)

/-- No hop leads back to the table of the root. -/
theorem elsewhere_of_hops {root : String} {scope : Shape} {parent : Option Nat}
    {known found : List Hop} {c : Condition} (h : c.hops root scope parent known = .ok found)
    (before : ∀ h ∈ known, h.target.id.table ≠ root) : ∀ h ∈ found, h.target.id.table ≠ root := by
  induction c generalizing scope parent known found with
  | relational relation inner ih =>
    rw [hops_relational] at h
    obtain ⟨⟨⟩, -, h⟩ := Except.bind_eq_ok.mp h
    obtain ⟨hop, -, h⟩ := Except.bind_eq_ok.mp h
    split at h
    · cases h
    · rename_i apart
      split at h
      · exact ih h before
      · refine ih h fun g there => ?_
        rcases List.mem_append.mp there with there | last
        · exact before g there
        · exact List.mem_singleton.mp last ▸ apart
  | composite op children ih =>
    exact elsewhere_of_all (fun c hc known found h before => ih c hc h before) h before
  | _ =>
    obtain ⟨_, -, rfl⟩ := Except.map_eq_ok.mp h
    exact before

end Condition

namespace Join

section

variable (joins : List Join)

def plainName (j : Join) : String := Hop.plainName (joins.map (·.toHop)) j.toHop

def numberedName (index : Nat) (j : Join) : String :=
  Hop.numberedName (joins.map (·.toHop)) index j.toHop

/-- An earlier join has the plain name of the join at an index. -/
def Numbered (index : Nat) : Prop :=
  ∃ j, joins[index]? = some j ∧ plainName joins j ∈ (joins.take index).map (·.name)

end

variable {joins : List Join}

theorem map_name_toJoins (hops : List Hop) :
    (Hop.toJoins hops).map (·.name) = Hop.aliasesFrom hops [] 0 hops := by
  have length := aliasesFrom_length hops [] 0 hops
  rw [Hop.toJoins, List.map_zipWith]
  apply List.ext_getElem <;> simp [length]

theorem name_eq {c : Condition} {e : Entity} (accepted : c.joins e = .ok joins) {i : Nat} {j : Join}
    (found : joins[i]? = some j) :
    j.name = Hop.aliasOf (joins.map (·.toHop)) ((joins.take i).map (·.name)) i j.toHop := by
  obtain ⟨hops, -, rfl⟩ := Except.map_eq_ok.mp accepted
  have hop : hops[i]? = some j.toHop := by
    rw [← map_toHop_toJoins hops, List.getElem?_map, found]
    rfl
  have name : ((Hop.toJoins hops).map (·.name))[i]? = some j.name := by
    rw [List.getElem?_map, found]
    rfl
  rw [map_name_toJoins, Hop.aliasesFrom_getElem? hop] at name
  rw [map_toHop_toJoins, List.map_take, map_name_toJoins, ← Option.some.inj name, List.nil_append,
    Nat.zero_add]

variable {c : Condition} {e : Entity} (accepted : c.joins e = .ok joins) {i : Nat} {j : Join}
  (found : joins[i]? = some j)

include accepted found

theorem name_of_numbered (numbered : Numbered joins i) : j.name = numberedName joins i j := by
  obtain ⟨j', found', taken⟩ := numbered
  obtain rfl : j = j' := Option.some.inj (found.symm.trans found')
  rw [name_eq accepted found, Hop.aliasOf_eq]
  exact if_pos taken

theorem name_of_not_numbered (plain : ¬Numbered joins i) :
    j.name = plainName joins j ∧ plainName joins j ∉ (joins.take i).map (·.name) := by
  have fresh : plainName joins j ∉ (joins.take i).map (·.name) :=
    fun taken => plain ⟨j, found, taken⟩
  rw [name_eq accepted found, Hop.aliasOf_eq]
  exact ⟨if_neg fresh, fresh⟩

omit found in
/-- Two joins have one name exactly where the later one is numbered and the earlier one has the
numbered name as its plain name. -/
theorem name_eq_name_iff {i j : Nat} {g h : Join} (first : joins[i]? = some g)
    (second : joins[j]? = some h) (before : i < j) :
    g.name = h.name ↔
      ¬Numbered joins i ∧ Numbered joins j ∧ plainName joins g = numberedName joins j h := by
  have taken : g.name ∈ (joins.take j).map (·.name) := by
    have earlier : (joins.take j)[i]? = some g := by
      rw [List.getElem?_take_of_lt before, first]
    exact List.mem_map_of_mem (List.mem_of_getElem? earlier)
  constructor
  · intro same
    have second_numbered : Numbered joins j := by
      by_contra plain
      obtain ⟨name, fresh⟩ := name_of_not_numbered accepted second plain
      exact fresh (name ▸ same ▸ taken)
    have later := name_of_numbered accepted second second_numbered
    have first_plain : ¬Numbered joins i := by
      intro numbered
      have earlier := name_of_numbered accepted first numbered
      have index : i = j := Hop.numberedName_inj (earlier.symm.trans (same.trans later))
      omega
    have earlier := (name_of_not_numbered accepted first first_plain).1
    exact ⟨first_plain, second_numbered, earlier.symm.trans (same.trans later)⟩
  · rintro ⟨first_plain, second_numbered, meet⟩
    rw [(name_of_not_numbered accepted first first_plain).1, meet,
      name_of_numbered accepted second second_numbered]

/-- A join has the name of the root exactly where that is its numbered name or, without a number,
its name with the column. -/
theorem name_eq_root_iff :
    j.name = e.id.table ↔
      Numbered joins i ∧ numberedName joins i j = e.id.table ∨
      ¬Numbered joins i ∧ Hop.Shared (joins.map (·.toHop)) j.toHop ∧
        j.toHop.longName = e.id.table := by
  have apart : j.target.id.table ≠ e.id.table := by
    obtain ⟨hops, hhops, rfl⟩ := Except.map_eq_ok.mp accepted
    have hop : j.toHop ∈ hops := by
      rw [← map_toHop_toJoins hops]
      exact List.mem_map_of_mem (List.mem_of_getElem? found)
    exact Condition.elsewhere_of_hops hhops (List.forall_mem_nil _) j.toHop hop
  by_cases numbered : Numbered joins i
  · simp [name_of_numbered accepted found numbered, numbered]
  · rw [(name_of_not_numbered accepted found numbered).1, plainName, Hop.plainName]
    split <;> simp_all

end Join

namespace Query

open Join (Numbered numberedName plainName)

/-- Which names of joins are ambiguous. Two joins have one name exactly where the later one is
numbered and the earlier one, which is not, has the numbered name as its plain name; a join has the
name of the root exactly where its numbered name or its name with the column is the root's; and all
names are apart exactly where neither happens. -/
theorem join_names_meet (c : Condition) (e : Entity) (joins : List Join)
    (accepted : c.joins e = .ok joins) :
    (∀ i j g h, joins[i]? = some g → joins[j]? = some h → i < j →
      (g.name = h.name ↔
        ¬Numbered joins i ∧ Numbered joins j ∧ plainName joins g = numberedName joins j h)) ∧
    (∀ i j, joins[i]? = some j →
      (j.name = e.id.table ↔
        Numbered joins i ∧ numberedName joins i j = e.id.table ∨
        ¬Numbered joins i ∧ Hop.Shared (joins.map (·.toHop)) j.toHop ∧
          j.toHop.longName = e.id.table)) ∧
    ((e.id.table :: joins.map (·.name)).Nodup ↔
      (∀ i j g h, joins[i]? = some g → joins[j]? = some h → i < j → ¬Numbered joins i →
        Numbered joins j → plainName joins g ≠ numberedName joins j h) ∧
      ∀ i j, joins[i]? = some j →
        (Numbered joins i → numberedName joins i j ≠ e.id.table) ∧
        (¬Numbered joins i → Hop.Shared (joins.map (·.toHop)) j.toHop →
          j.toHop.longName ≠ e.id.table)) := by
  have pairs : ∀ i j g h, joins[i]? = some g → joins[j]? = some h → i < j →
      (g.name = h.name ↔
        ¬Numbered joins i ∧ Numbered joins j ∧ plainName joins g = numberedName joins j h) :=
    fun i j g h first second before => Join.name_eq_name_iff accepted first second before
  have roots : ∀ i j, joins[i]? = some j →
      (j.name = e.id.table ↔
        Numbered joins i ∧ numberedName joins i j = e.id.table ∨
        ¬Numbered joins i ∧ Hop.Shared (joins.map (·.toHop)) j.toHop ∧
          j.toHop.longName = e.id.table) :=
    fun i j found => Join.name_eq_root_iff accepted found
  refine ⟨pairs, roots, ?_⟩
  rw [List.nodup_cons, List.Nodup, List.pairwise_iff_getElem, and_comm]
  refine and_congr ⟨fun apart i j g h first second before plain numbered meet => ?_,
    fun apart i j hi hj before same => ?_⟩ ⟨fun absent i j found => ?_, fun apart taken => ?_⟩
  · obtain ⟨hi, rfl⟩ := List.getElem?_eq_some_iff.mp first
    obtain ⟨hj, rfl⟩ := List.getElem?_eq_some_iff.mp second
    have same := (pairs i j _ _ first second before).mpr ⟨plain, numbered, meet⟩
    exact apart i j (by simpa using hi) (by simpa using hj) before (by simpa using same)
  · rw [List.length_map] at hi hj
    rw [List.getElem_map, List.getElem_map] at same
    have first := List.getElem?_eq_getElem hi
    have second := List.getElem?_eq_getElem hj
    obtain ⟨plain, numbered, meet⟩ := (pairs i j _ _ first second before).mp same
    exact apart i j _ _ first second before plain numbered meet
  · have other : j.name ≠ e.id.table := by
      intro same
      exact absent (same ▸ List.mem_map_of_mem (List.mem_of_getElem? found))
    rw [Ne, roots i j found, not_or] at other
    exact ⟨fun numbered meet => other.1 ⟨numbered, meet⟩,
      fun plain shared meet => other.2 ⟨plain, shared, meet⟩⟩
  · obtain ⟨j, there, same⟩ := List.mem_map.mp taken
    obtain ⟨i, hi, rfl⟩ := List.getElem_of_mem there
    have found := List.getElem?_eq_getElem hi
    rcases (roots i _ found).mp same with ⟨numbered, meet⟩ | ⟨plain, shared, meet⟩
    · exact (apart i _ found).1 numbered meet
    · exact (apart i _ found).2 plain shared meet

def stop : Entity := ⟨⟨"Stop", "stops"⟩, [(Field.named "id" .integer).asPrimaryKey]⟩

def line : Field := ((Field.named "line" .integer).inColumn "line_id").referencing stop.shape

def depot : Entity := ⟨⟨"Depot", "stops__line_id_2"⟩, [(Field.named "id" .integer).asPrimaryKey, line]⟩

def garage : Field := ((Field.named "garage" .integer).inColumn "garage_id").referencing depot.shape

def bus : Entity := ⟨⟨"Bus", "buses"⟩, [(Field.named "id" .integer).asPrimaryKey, line, garage]⟩

/-- Buses of a line, with a garage in the same one. -/
def parked : Condition :=
  .composite .and
    [.relational (bus.ref garage) (.unary (depot.ref (.named "id" .integer)) .isNotNull),
      .relational (bus.ref line) (.unary (stop.ref (.named "id" .integer)) .isNotNull),
      .relational (bus.ref garage)
        (.relational (depot.ref line) (.unary (stop.ref (.named "id" .integer)) .isNotNull))]

def parkedJoins : List Join :=
  [⟨⟨none, bus.ref garage, depot.shape, (Field.named "id" .integer).asPrimaryKey.toAttribute⟩,
      "stops__line_id_2"⟩,
    ⟨⟨none, bus.ref line, stop.shape, (Field.named "id" .integer).asPrimaryKey.toAttribute⟩,
      "stops__line_id"⟩,
    ⟨⟨some 0, depot.ref line, stop.shape, (Field.named "id" .integer).asPrimaryKey.toAttribute⟩,
      "stops__line_id_2"⟩]

theorem join_names_meet_parked :
    parked.joins bus = .ok parkedJoins ∧
    ¬Numbered parkedJoins 0 ∧ Numbered parkedJoins 2 ∧
    (parkedJoins.map (·.name))[0]? = (parkedJoins.map (·.name))[2]? := by
  have accepted : parked.joins bus = .ok parkedJoins := rfl
  have meeting := (join_names_meet parked bus parkedJoins accepted).1 0 2 _ _ rfl rfl (by decide)
  obtain ⟨plain, numbered, -⟩ := meeting.mp rfl
  exact ⟨accepted, plain, numbered, rfl⟩

def city : Entity :=
  ⟨⟨"City", "cities"⟩, [(Field.named "id" .integer).asPrimaryKey, .named "name" .text]⟩

def origin : Field := ((Field.named "from" .integer).inColumn "from_id").referencing city.shape

def goal : Field := ((Field.named "to" .integer).inColumn "to_id").referencing city.shape

def trip : Entity :=
  ⟨⟨"Trip", "cities__from_id"⟩, [(Field.named "id" .integer).asPrimaryKey, origin, goal]⟩

/-- Trips from one city to another one. -/
def travelled : Condition :=
  .composite .and
    [.relational (trip.ref origin) (.binary (city.ref (.named "name" .text)) .eq (.text "Oslo")),
      .relational (trip.ref goal) (.binary (city.ref (.named "name" .text)) .eq (.text "Rome"))]

/-- A join may have the name of the root: here that of its table and column is the root's. -/
theorem join_has_root_name :
    ∃ joins, travelled.joins trip = .ok joins ∧ ¬(trip.id.table :: joins.map (·.name)).Nodup := by
  refine ⟨_, rfl, ?_⟩
  decide

end Query

end EntityStore
