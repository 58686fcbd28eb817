namespace EntityStore.Sql

/-- A piece of a statement. -/
inductive Piece (α : Type) where
  | text (s : String)
  | hole (operand : α)
  deriving DecidableEq

/-- Pieces in the order of the text. -/
abbrev Fragment (α : Type) := List (Piece α)

namespace Fragment

variable {α β : Type}

/-- The operands in the order of their holes. -/
def operands : Fragment α → List α
  | [] => []
  | .text _ :: rest => operands rest
  | .hole a :: rest => a :: operands rest

/-- The text after `n` holes, each further hole marked by its number. -/
def render (mark : Nat → String) : Nat → Fragment α → String
  | _, [] => ""
  | n, .text s :: rest => s ++ render mark n rest
  | n, .hole _ :: rest => mark (n + 1) ++ render mark (n + 1) rest

/-- Fragments with a text between them. -/
def separated (separator : String) : List (Fragment α) → Fragment α
  | [] => []
  | [f] => f
  | f :: fs => f ++ .text separator :: separated separator fs

/-- The fragment with other operands in the same places. -/
def map (g : α → β) : Fragment α → Fragment β
  | [] => []
  | .text s :: rest => .text s :: map g rest
  | .hole a :: rest => .hole (g a) :: map g rest

theorem operands_append (f g : Fragment α) : operands (f ++ g) = operands f ++ operands g := by
  induction f with
  | nil => rfl
  | cons p f ih => cases p <;> simp [operands, ih]

theorem render_append (mark : Nat → String) (n : Nat) (f g : Fragment α) :
    render mark n (f ++ g) = render mark n f ++ render mark (n + f.operands.length) g := by
  induction f generalizing n with
  | nil => simp [render, operands]
  | cons p f ih =>
    cases p with
    | text s => simp [render, operands, ih, String.append_assoc]
    | hole a =>
      have shift : n + (operands f).length + 1 = n + 1 + (operands f).length := by omega
      simp [render, operands, ih, String.append_assoc, shift, ← Nat.add_assoc]

theorem separated_cons_cons (separator : String) (f g : Fragment α) (fs : List (Fragment α)) :
    separated separator (f :: g :: fs) = f ++ .text separator :: separated separator (g :: fs) := rfl

theorem operands_separated (separator : String) (fs : List (Fragment α)) :
    (separated separator fs).operands = fs.flatMap operands := by
  induction fs with
  | nil => rfl
  | cons f fs ih =>
    cases fs with
    | nil => exact (List.flatMap_singleton ..).symm
    | cons f' fs =>
      rw [separated_cons_cons, operands_append, operands, ih]
      exact List.flatMap_cons.symm

end Fragment

end EntityStore.Sql
