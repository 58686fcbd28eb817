import EntityStore.Sql.Statement
import Mathlib.Data.List.Forall2

namespace EntityStore.Sql

/-- An operand and the words that its hole stands behind. -/
structure Slot (α : Type) where
  words : String
  operand : α

namespace Fragment

variable {α β : Type}

/-- The text before the first hole. -/
def lead : Fragment α → String
  | [] => ""
  | .text s :: rest => s ++ lead rest
  | .hole _ :: _ => ""

/-- The texts behind the holes, each up to the next hole. -/
def later : Fragment α → List String
  | [] => []
  | .text _ :: rest => later rest
  | .hole _ :: rest => lead rest :: later rest

/-- Texts with marks between them, counted from one. -/
def weave (mark : Nat → String) (first : String) (later : List String) : String :=
  first ++ String.join (later.mapIdx fun i t => mark (i + 1) ++ t)

theorem later_length (f : Fragment α) : f.later.length = f.operands.length := by
  induction f with
  | nil => rfl
  | cons p f ih => cases p <;> simp [later, operands, ih]

theorem lead_map (g : α → β) (f : Fragment α) : (f.map g).lead = f.lead := by
  induction f with
  | nil => rfl
  | cons p f ih => cases p <;> simp [map, lead, ih]

theorem later_map (g : α → β) (f : Fragment α) : (f.map g).later = f.later := by
  induction f with
  | nil => rfl
  | cons p f ih => cases p <;> simp [map, later, lead_map, ih]

theorem map_append (g : α → β) (f h : Fragment α) : (f ++ h).map g = f.map g ++ h.map g := by
  induction f with
  | nil => rfl
  | cons p f ih => cases p <;> simp [map, ih]

theorem map_separated (g : α → β) (separator : String) (fs : List (Fragment α)) :
    (separated separator fs).map g = separated separator (fs.map (map g)) := by
  induction fs with
  | nil => rfl
  | cons f fs ih =>
    cases fs with
    | nil => rfl
    | cons f' fs =>
      simp only [List.map_cons] at ih
      simp [separated, map_append, map, ih]

theorem render_eq (mark : Nat → String) (n : Nat) (f : Fragment α) :
    render mark n f = f.lead ++ String.join (f.later.mapIdx fun i t => mark (n + i + 1) ++ t) := by
  induction f generalizing n with
  | nil => simp [render, lead, later]
  | cons p f ih =>
    cases p with
    | text s => rw [render, ih, lead, later, String.append_assoc]
    | hole a =>
      have shift : ∀ i, n + 1 + i + 1 = n + (i + 1) + 1 := by omega
      simp [render, ih, lead, later, List.mapIdx_cons, shift, String.append_assoc]

theorem render_weave (mark : Nat → String) (f : Fragment α) :
    render mark 0 f = weave mark f.lead f.later := by
  simp [render_eq, weave]

/-- The holes of a fragment are those of the slots, in order, each right behind a text that ends
with the words of its slot. -/
inductive HasSlots : Fragment α → List (Slot α) → Prop
  | nil : HasSlots [] []
  | text {f : Fragment α} {slots : List (Slot α)} (s : String) :
      HasSlots f slots → HasSlots (.text s :: f) slots
  | hole {f : Fragment α} {slots : List (Slot α)} (before words : String) (a : α) :
      HasSlots f slots →
      HasSlots (.text (before ++ words) :: .hole a :: f) (⟨words, a⟩ :: slots)

namespace HasSlots

variable {f g : Fragment α} {slots more : List (Slot α)}

theorem append (hf : HasSlots f slots) (hg : HasSlots g more) :
    HasSlots (f ++ g) (slots ++ more) := by
  induction hf with
  | nil => exact hg
  | text s _ ih => exact ih.text s
  | hole before words a _ ih => exact ih.hole before words a

theorem operands_eq (h : HasSlots f slots) : f.operands = slots.map (·.operand) := by
  induction h with
  | nil => rfl
  | text s _ ih => exact ih
  | hole before words a _ ih => simp [operands, ih]

/-- The text before each hole ends with the words of its slot. -/
theorem ends_with (h : HasSlots f slots) :
    List.Forall₂ (fun t s => s.words.toList <:+ t.toList) (f.lead :: f.later).dropLast slots := by
  induction h with
  | nil => exact .nil
  | @text f slots s h ih =>
    simp only [lead, later]
    cases hl : f.later with
    | nil => simpa [hl] using ih
    | cons t ts =>
      rw [hl, List.dropLast_cons_cons] at ih
      rw [List.dropLast_cons_cons]
      cases ih with
      | cons first rest =>
        refine .cons ?_ rest
        simpa using first.trans (List.suffix_append s.toList f.lead.toList)
  | @hole f slots before words a h ih =>
    simp only [lead, later, List.dropLast_cons_cons]
    refine .cons ?_ ih
    simp

end HasSlots

end Fragment

end EntityStore.Sql
