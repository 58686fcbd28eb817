import EntityStore.Json.Decode
import EntityStore.Proofs.Json.ReadBack

namespace EntityStore

theorem Numeral.toInt?_ofInt {n : Int} (low : Int64.minValue.toInt ≤ n)
    (high : n ≤ Int64.maxValue.toInt) : (Numeral.ofInt n).toInt? = some n := by
  have least : Int64.minValue.toInt = -9223372036854775808 := by decide
  have most : Int64.maxValue.toInt = 9223372036854775807 := by decide
  have word : Nat.pow 2 63 = 9223372036854775808 := by decide
  have significand : Numeral.maxSignificand = 18446744073709551615 := by decide
  rw [least] at low
  rw [most] at high
  simp only [Numeral.ofInt, toInt?, Text.ofDigits_digitsOf, word, significand]
  by_cases negative : n < 0
  · have fits : ¬ (n.natAbs = 0 ∨ 9223372036854775808 < n.natAbs) := by omega
    rw [if_pos (decide_eq_true negative), if_neg fits]
    congr 1
    omega
  · have fits : n.natAbs ≤ 18446744073709551615 := by omega
    rw [if_neg (by simpa using negative), if_pos fits]
    congr 1
    omega

namespace Json

theorem asInt?_ofInt {n : Int} (low : Int64.minValue.toInt ≤ n)
    (high : n ≤ Int64.maxValue.toInt) : (Json.ofInt n).asInt? = some n := by
  rw [ofInt, asInt?, Numeral.toInt?_ofInt low high, Option.filter_some, decide_eq_true ⟨low, high⟩]
  rfl

theorem asByte?_ofInt (b : UInt8) : (Json.ofInt b.toNat).asByte? = some b := by
  have small := b.toNat_lt
  have low : Int64.minValue.toInt ≤ 0 := by decide
  have high : 255 ≤ Int64.maxValue.toInt := by decide
  have least : Int64.minValue.toInt ≤ b.toNat := by omega
  have most : b.toNat ≤ Int64.maxValue.toInt := by omega
  rw [asByte?, asInt?_ofInt least most, Option.bind_some, if_pos (by omega)]
  simp

/-- The members of a record. -/
def members (fields : List FieldSpec) (values : List Json) : List (String × Json) :=
  (fields.map (·.name)).zip values

/-- A field is found behind members of other names. -/
theorem member?_of_distinct {before after : List (String × Json)} {f : FieldSpec} {v : Json}
    (first : ∀ m ∈ before, m.1 ≠ f.name) (last : ∀ m ∈ after, m.1 ≠ f.name) :
    member? (before ++ (f.name, v) :: after) f = some v := by
  have none (ms : List (String × Json)) (others : ∀ m ∈ ms, m.1 ≠ f.name) :
      (ms.filter fun m => m.1 == f.name) = [] := by
    rw [List.filter_eq_nil_iff]
    intro m hm
    simpa using others m hm
  have here : (((f.name, v) :: after).filter fun m => m.1 == f.name) = [(f.name, v)] := by
    rw [List.filter_cons, if_pos (beq_self_eq_true f.name), none after last]
  rw [member?, List.filter_append, none before first, here]
  rfl

/-- The fields of a record are found behind members that were read already. -/
theorem mapM_member? {fields : List FieldSpec} {values : List Json}
    (distinct : (fields.map (·.name)).Nodup) (length : values.length = fields.length)
    {before : List (String × Json)} (apart : ∀ m ∈ before, m.1 ∉ fields.map (·.name)) :
    fields.mapM (member? (before ++ members fields values)) = some values := by
  induction fields generalizing before values with
  | nil =>
    rw [List.eq_nil_of_length_eq_zero length]
    rfl
  | cons f fs ih =>
    cases values with
    | nil => cases length
    | cons v vs =>
      obtain ⟨new, others⟩ := List.nodup_cons.mp distinct
      have first : member? (before ++ members (f :: fs) (v :: vs)) f = some v := by
        apply member?_of_distinct
        · intro m hm same
          exact apart m hm (by simp [same])
        · intro m hm same
          have name := (List.of_mem_zip hm).1
          rw [same] at name
          exact new name
      have apart' : ∀ m ∈ before ++ [(f.name, v)], m.1 ∉ fs.map (·.name) := by
        intro m hm there
        rcases List.mem_append.mp hm with earlier | this
        · exact apart m earlier (List.mem_cons_of_mem _ there)
        · rw [List.mem_singleton.mp this] at there
          exact new there
      have rest := ih others (Nat.succ.inj length) apart'
      rw [List.append_assoc] at rest
      change fs.mapM (member? (before ++ members (f :: fs) (v :: vs))) = some vs at rest
      rw [List.mapM_cons, first, rest]
      rfl

/-- A record is read field by field, whatever the fields are, if their names differ. -/
theorem record?_members {fields : List FieldSpec} {values : List Json}
    (distinct : (fields.map (·.name)).Nodup) (length : values.length = fields.length) :
    record? fields (.object (members fields values)) = some values := by
  have apart : ∀ m ∈ ([] : List (String × Json)), m.1 ∉ fields.map (·.name) := by simp
  exact mapM_member? distinct length apart

/-- What is read item by item. -/
theorem mapM_map {α β : Type} {write : α → β} {read : β → Option α} {as : List α}
    (undone : ∀ a ∈ as, read (write a) = some a) : (as.map write).mapM read = some as := by
  induction as with
  | nil => rfl
  | cons a as ih =>
    obtain ⟨first, others⟩ := List.forall_mem_cons.mp undone
    rw [List.map_cons, List.mapM_cons, first, ih others]
    rfl

/-- A value is written as a document of integers and texts, from which it is read again. -/
structure Saves {α : Type} (write : α → Json) (read : Json → Option α) (a : α) : Prop where
  plain : Plain (write a)
  undone : read (write a) = some a

namespace Saves

variable {α : Type} {write : α → Json} {read : Json → Option α}

theorem list (as : List α) (each : ∀ a ∈ as, Saves write read a) :
    Saves (fun as => .list (as.map write)) (fun j => j.asList?.bind fun items => items.mapM read)
      as := by
  refine ⟨.list ?_, mapM_map fun a ha => (each a ha).undone⟩
  intro j hj
  obtain ⟨a, ha, rfl⟩ := List.mem_map.mp hj
  exact (each a ha).plain

/-- A value that may be absent, if none is written as null. -/
theorem optional {o : Option α} (value : ∀ a ∈ o, Saves write read a)
    (present : ∀ a, write a ≠ .null) : Saves (ofOptional write) (asOptional? read) o := by
  cases o with
  | none => exact ⟨.null, rfl⟩
  | some a =>
    have saves := value a rfl
    refine ⟨saves.plain, ?_⟩
    rw [ofOptional]
    unfold asOptional?
    split
    next null => exact absurd null (present a)
    next => rw [saves.undone, Option.map_some]

end Saves

theorem plain_members {fields : List FieldSpec} {values : List Json}
    (each : ∀ v ∈ values, Plain v) : Plain (.object (members fields values)) := by
  apply Plain.object
  intro m hm
  exact each m.2 (List.of_mem_zip hm).2

/-- A record is saved if its fields are, and is built again from their values. -/
theorem Saves.record {α : Type} {write : α → Json} {read : Json → Option α} {a : α}
    {fields : List FieldSpec} {values : List Json} {build : List Json → Option α}
    (written : write a = .object (members fields values))
    (distinct : (fields.map (·.name)).Nodup) (length : values.length = fields.length)
    (reads : ∀ j, read j = (record? fields j).bind build) (each : ∀ v ∈ values, Plain v)
    (built : build values = some a) : Saves write read a := by
  refine ⟨?_, ?_⟩
  · rw [written]
    exact plain_members each
  · rw [reads, written, record?_members distinct length, Option.bind_some, built]

theorem plain_tagged {name : String} {payload : Json} (plain : Plain payload) :
    Plain (tagged name payload) := by
  apply Plain.object
  intro m hm
  rw [List.mem_singleton.mp hm]
  exact plain

end Json

end EntityStore
