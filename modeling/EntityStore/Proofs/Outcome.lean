import Mathlib.Data.List.Forall2

namespace List

variable {α β : Type}

/-- The first of all results belongs to the first item that has some. -/
theorem head?_flatMap_eq_some {l : List α} {f : α → List β} {b : β}
    (h : (l.flatMap f).head? = some b) :
    ∃ before a after, l = before ++ a :: after ∧ (∀ x ∈ before, f x = []) ∧ (f a).head? = some b := by
  rw [head?_flatMap, findSome?_eq_some_iff] at h
  obtain ⟨before, a, after, split, here, none⟩ := h
  exact ⟨before, a, after, split, fun x hx => head?_eq_none_iff.mp (none x hx), here⟩

end List

namespace Except

variable {ε α β γ δ ζ κ : Type}

theorem bind_eq_ok {x : Except ε α} {f : α → Except ε β} {b : β} :
    x >>= f = .ok b ↔ ∃ a, x = .ok a ∧ f a = .ok b := by
  cases x <;> simp [bind, Except.bind]

theorem map_eq_ok {x : Except ε α} {f : α → β} {b : β} :
    x.map f = .ok b ↔ ∃ a, x = .ok a ∧ f a = b := by
  cases x <;> simp [Except.map]

theorem map_eq_error {x : Except ε α} {f : α → β} {e : ε} :
    x.map f = .error e ↔ x = .error e := by
  cases x <;> simp [Except.map]

/-- What goes on after a check, whether it was made or not. -/
theorem of_guarded {c : Prop} [Decidable c] {x : Except ε Unit} {f : Unit → Except ε β} {b : β}
    (h : (if c then x >>= f else f ()) = .ok b) : f () = .ok b := by
  split at h
  · obtain ⟨⟨⟩, -, h⟩ := bind_eq_ok.mp h
    exact h
  · exact h

/-- A check that is made on a condition has passed where the condition holds. -/
theorem checked_eq_ok {c : Prop} [Decidable c] {x : Except ε Unit} {y : Except ε β} {b : β} :
    ((if c then x else .ok ()) >>= fun _ => y) = .ok b ↔ (c → x = .ok ()) ∧ y = .ok b := by
  split
  · rename_i holds
    rw [bind_eq_ok]
    constructor
    · rintro ⟨⟨⟩, passed, rest⟩
      exact ⟨fun _ => passed, rest⟩
    · rintro ⟨passed, rest⟩
      exact ⟨(), passed holds, rest⟩
  · rename_i fails
    simp [fails, bind, Except.bind]

theorem mapError_eq_ok {x : Except ε α} {f : ε → δ} {a : α} :
    x.mapError f = .ok a ↔ x = .ok a := by
  cases x <;> simp [Except.mapError]

theorem mapM_forall₂ {f : α → Except ε β} {as : List α} {bs : List β} (h : as.mapM f = .ok bs) :
    List.Forall₂ (fun a b => f a = .ok b) as bs := by
  induction as generalizing bs with
  | nil => cases h; exact .nil
  | cons a as ih =>
    rw [List.mapM_cons] at h
    obtain ⟨b, hb, h⟩ := bind_eq_ok.mp h
    obtain ⟨rest, hrest, h⟩ := bind_eq_ok.mp h
    cases h
    exact .cons hb (ih hrest)

theorem mapM_mem {f : α → Except ε β} {as : List α} {bs : List β} (h : as.mapM f = .ok bs) {b : β}
    (hb : b ∈ bs) : ∃ a ∈ as, f a = .ok b := by
  obtain ⟨i, hi, rfl⟩ := List.getElem_of_mem hb
  obtain ⟨length, each⟩ := List.forall₂_iff_get.mp (mapM_forall₂ h)
  have place : i < as.length := by omega
  exact ⟨as[i], List.getElem_mem place, each i place hi⟩

theorem mapM_mem_left {f : α → Except ε β} {as : List α} {bs : List β} (h : as.mapM f = .ok bs)
    {a : α} (ha : a ∈ as) : ∃ b ∈ bs, f a = .ok b := by
  obtain ⟨i, hi, rfl⟩ := List.getElem_of_mem ha
  obtain ⟨length, each⟩ := List.forall₂_iff_get.mp (mapM_forall₂ h)
  have place : i < bs.length := by omega
  exact ⟨bs[i], List.getElem_mem place, each i hi place⟩

/-- What each step keeps is kept in the order of the items. -/
theorem mapM_map_eq {f : α → Except ε β} {g : α → γ} {g' : β → γ} {as : List α} {bs : List β}
    (each : ∀ a b, f a = .ok b → g' b = g a) (h : as.mapM f = .ok bs) : bs.map g' = as.map g := by
  induction as generalizing bs with
  | nil => cases h; rfl
  | cons a as ih =>
    rw [List.mapM_cons] at h
    obtain ⟨b, hb, h⟩ := bind_eq_ok.mp h
    obtain ⟨rest, hrest, h⟩ := bind_eq_ok.mp h
    cases h
    rw [List.map_cons, List.map_cons, each a b hb, ih hrest]

theorem mapM_of_forall {f : α → Except ε β} {g : α → β} {as : List α}
    (each : ∀ a ∈ as, f a = .ok (g a)) : as.mapM f = .ok (as.map g) := by
  induction as with
  | nil => rfl
  | cons a as ih =>
    obtain ⟨first, others⟩ := List.forall_mem_cons.mp each
    rw [List.mapM_cons, first, ih others]
    rfl

/-- A sequence of steps succeeds where every step does. -/
theorem mapM_succeeds {f : α → Except ε β} {as : List α} :
    (∃ bs, as.mapM f = .ok bs) ↔ ∀ a ∈ as, ∃ b, f a = .ok b := by
  constructor
  · rintro ⟨bs, h⟩ a ha
    obtain ⟨b, -, hb⟩ := mapM_mem_left h ha
    exact ⟨b, hb⟩
  · intro each
    induction as with
    | nil => exact ⟨[], rfl⟩
    | cons a as ih =>
      obtain ⟨⟨b, first⟩, others⟩ := List.forall_mem_cons.mp each
      obtain ⟨bs, rest⟩ := ih others
      refine ⟨b :: bs, ?_⟩
      rw [List.mapM_cons, first, rest]
      rfl

/-- Steps that all succeed have their results one by one. -/
theorem mapM_eq_map [Inhabited β] {f : α → Except ε β} {as : List α} {bs : List β}
    (h : as.mapM f = .ok bs) :
    ∃ g : α → β, (∀ a ∈ as, f a = .ok (g a)) ∧ bs = as.map g := by
  refine ⟨fun a => (f a).toOption.getD default, ?_⟩
  induction as generalizing bs with
  | nil =>
    cases h
    exact ⟨List.forall_mem_nil _, rfl⟩
  | cons a as ih =>
    rw [List.mapM_cons] at h
    obtain ⟨b, hb, h⟩ := bind_eq_ok.mp h
    obtain ⟨rest, hrest, h⟩ := bind_eq_ok.mp h
    cases h
    obtain ⟨each, rfl⟩ := ih hrest
    have first : (f a).toOption.getD default = b := by rw [hb]; rfl
    rw [List.map_cons, first]
    refine ⟨List.forall_mem_cons.mpr ⟨?_, each⟩, rfl⟩
    exact hb.trans (congrArg ok first.symm)

theorem bind_map {x : Except ε α} {f : α → β} {g : β → Except ε γ} :
    x.map f >>= g = x >>= fun a => g (f a) := by
  cases x <;> rfl

theorem map_bind {x : Except ε α} {f : α → Except ε β} {g : β → γ} :
    (x >>= f).map g = x >>= fun a => (f a).map g := by
  cases x <;> rfl

theorem map_map {x : Except ε α} {f : α → β} {g : β → γ} :
    (x.map f).map g = x.map fun a => g (f a) := by
  cases x <;> rfl

theorem mapM_map (f : α → Except ε β) (g : β → γ) (as : List α) :
    (as.mapM fun a => (f a).map g) = (as.mapM f).map (List.map g) := by
  induction as with
  | nil => rfl
  | cons a as ih =>
    rw [List.mapM_cons, List.mapM_cons, ih]
    cases f a with
    | error e => rfl
    | ok b =>
      change (as.mapM f).map _ >>= _ = (as.mapM f >>= _).map _
      cases as.mapM f <;> rfl

/-- Steps that give fixed results where their checks pass. -/
theorem mapM_checked (check : α → Except ε Unit) (g : α → β) (as : List α) :
    (as.mapM fun a => (check a).map fun _ => g a) = (as.forM check).map fun _ => as.map g := by
  induction as with
  | nil => rfl
  | cons a as ih =>
    rw [List.mapM_cons, ih, List.forM_eq_forM, List.forM_cons]
    cases check a with
    | error e => rfl
    | ok u =>
      change (as.forM check).map _ >>= _ = (as.forM check).map _
      cases as.forM check <;> rfl

theorem map_bind_congr {x : Except ε α} {y : Except ε β} {g : α → γ} {g' : β → γ}
    {f : α → Except ε δ} {f' : β → Except ε ζ} {k : δ → κ} {k' : ζ → κ}
    (same : x.map g = y.map g') (each : ∀ a b, g a = g' b → (f a).map k = (f' b).map k') :
    (x >>= f).map k = (y >>= f').map k' := by
  cases x with
  | error e =>
    cases y with
    | error e' => cases same; rfl
    | ok b => cases same
  | ok a =>
    cases y with
    | error e' => cases same
    | ok b =>
      simp only [Except.map, Except.ok.injEq] at same
      exact each a b same

/-- The same first step. -/
theorem map_bind_right (x : Except ε α) {f : α → Except ε δ} {f' : α → Except ε ζ} {k : δ → κ}
    {k' : ζ → κ} (each : ∀ a, (f a).map k = (f' a).map k') :
    (x >>= f).map k = (x >>= f').map k' := by
  cases x with
  | error e => rfl
  | ok a => exact each a

/-- A computation that fails with the first of the faults, or succeeds for want of any. -/
def Reports (x : Except ε α) : List ε → Prop
  | [] => ∃ a, x = .ok a
  | e :: _ => x = .error e

section

variable {x : Except ε α} {faults more : List ε}

theorem Reports.ok_iff (h : x.Reports faults) : (∃ a, x = .ok a) ↔ faults = [] := by
  cases faults with
  | nil => exact iff_of_true h rfl
  | cons e rest => simp [show x = .error e from h]

theorem Reports.error_iff (h : x.Reports faults) : (∃ e, x = .error e) ↔ ∃ e, e ∈ faults := by
  cases faults with
  | nil =>
    obtain ⟨a, rfl⟩ := h
    simp
  | cons first rest => exact iff_of_true ⟨first, h⟩ ⟨first, List.mem_cons_self⟩

/-- What is refused is refused for the first fault. -/
theorem Reports.head_of_error {e : ε} (h : (error e : Except ε α).Reports faults) :
    faults.head? = some e := by
  cases faults with
  | nil =>
    obtain ⟨a, refused⟩ := h
    cases refused
  | cons first rest =>
    obtain rfl : e = first := Except.error.inj h
    rfl

theorem Reports.mem_of_error {e : ε} (h : (error e : Except ε α).Reports faults) : e ∈ faults :=
  List.mem_of_head? h.head_of_error

/-- The first of two groups of faults that is not empty is reported. -/
theorem Reports.first (h : x.Reports (faults ++ more)) (nonempty : faults ≠ []) :
    ∃ e, faults.head? = some e ∧ x = .error e := by
  obtain ⟨e, rest, rfl⟩ := List.exists_cons_of_ne_nil nonempty
  exact ⟨e, rfl, h⟩

theorem Reports.map (h : x.Reports faults) (f : α → β) : (x.map f).Reports faults := by
  cases faults with
  | nil =>
    obtain ⟨a, rfl⟩ := h
    exact ⟨f a, rfl⟩
  | cons e rest =>
    obtain rfl : x = .error e := h
    rfl

/-- The faults of a step come before those of the next, which is only taken when there are none. -/
theorem Reports.bind (h : x.Reports faults) {f : α → Except ε β}
    (next : ∀ a, x = .ok a → (f a).Reports more) : (x >>= f).Reports (faults ++ more) := by
  cases faults with
  | nil =>
    obtain ⟨a, rfl⟩ := h
    exact next a rfl
  | cons e rest =>
    obtain rfl : x = .error e := h
    rfl

/-- A step that cannot fail adds no faults. -/
theorem Reports.bind_ok (h : x.Reports faults) {f : α → Except ε β} (next : ∀ a, ∃ b, f a = .ok b) :
    (x >>= f).Reports faults := by
  rw [← List.append_nil faults]
  exact h.bind fun a _ => next a

theorem reports_mapM {f : α → Except ε β} {faults : α → List ε} {as : List α}
    (each : ∀ a ∈ as, (f a).Reports (faults a)) : (as.mapM f).Reports (as.flatMap faults) := by
  induction as with
  | nil => exact ⟨[], rfl⟩
  | cons a as ih =>
    obtain ⟨first, others⟩ := List.forall_mem_cons.mp each
    rw [List.mapM_cons, List.flatMap_cons]
    exact first.bind fun b _ => (ih others).map (b :: ·)

/-- Checks report what each of them finds, in their order. -/
theorem reports_forM {f : α → Except ε Unit} {faults : α → List ε} {as : List α}
    (each : ∀ a ∈ as, (f a).Reports (faults a)) : (as.forM f).Reports (as.flatMap faults) := by
  induction as with
  | nil => exact ⟨(), rfl⟩
  | cons a as ih =>
    obtain ⟨first, others⟩ := List.forall_mem_cons.mp each
    rw [List.forM_eq_forM, List.forM_cons, List.flatMap_cons]
    exact first.bind fun _ _ => ih others

/-- Computations with the same faults fail alike. -/
theorem Reports.map_eq {y : Except ε β} (hx : x.Reports faults) (hy : y.Reports faults) {g : α → γ}
    {g' : β → γ} (same : ∀ a b, x = .ok a → y = .ok b → g a = g' b) : x.map g = y.map g' := by
  cases faults with
  | nil =>
    obtain ⟨a, rfl⟩ := hx
    obtain ⟨b, rfl⟩ := hy
    exact congrArg ok (same a b rfl rfl)
  | cons e rest =>
    obtain rfl : x = .error e := hx
    obtain rfl : y = .error e := hy
    rfl

end

end Except
