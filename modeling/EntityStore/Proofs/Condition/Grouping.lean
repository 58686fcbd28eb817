import EntityStore.Query.Basic
import Mathlib.Data.List.Induction

namespace EntityStore

namespace Condition

theorem parts_composite (op : Connective) (cs : List Condition) :
    (composite op cs).parts op = cs := by
  rw [parts, if_pos rfl]

theorem parts_combine (op : Connective) (a b : Condition) :
    (combine op a b).parts op = a.parts op ++ b.parts op := parts_composite op _

theorem combine_assoc (op : Connective) (a b c : Condition) :
    combine op (combine op a b) c = combine op a (combine op b c) := by
  rw [combine, parts_combine, List.append_assoc, ← parts_combine op b c]
  rfl

/-- Conditions side by side: one alone is itself, and several are one composite of all that each of
them adds. -/
def abreast (op : Connective) : List Condition → Condition
  | [c] => c
  | cs => .composite op (cs.flatMap (parts op))

theorem parts_abreast (op : Connective) (cs : List Condition) :
    (abreast op cs).parts op = cs.flatMap (parts op) := by
  match cs with
  | [] => exact parts_composite op _
  | [c] => exact (List.flatMap_singleton ..).symm
  | _ :: _ :: _ => exact parts_composite op _

theorem combine_abreast (op : Connective) {cs ds : List Condition} (left : cs ≠ [])
    (right : ds ≠ []) : combine op (abreast op cs) (abreast op ds) = abreast op (cs ++ ds) := by
  rw [combine, parts_abreast, parts_abreast, ← List.flatMap_append]
  obtain ⟨c, cs, rfl⟩ := List.exists_cons_of_ne_nil left
  obtain ⟨d, ds, rfl⟩ := List.exists_cons_of_ne_nil right
  cases cs <;> rfl

/-- What stands side by side may stand so in a wider row. -/
theorem abreast_append (op : Connective) (cs : List Condition) {ds : List Condition}
    (some : ds ≠ []) : abreast op (cs ++ [abreast op ds]) = abreast op (cs ++ ds) := by
  by_cases none : cs = []
  · subst none
    rfl
  · calc abreast op (cs ++ [abreast op ds])
        = combine op (abreast op cs) (abreast op [abreast op ds]) :=
          (combine_abreast op none (List.cons_ne_nil _ [])).symm
      _ = abreast op (cs ++ ds) := combine_abreast op none some

/-- Conditions joined from left to right are side by side. -/
theorem foldl_combine (op : Connective) (c : Condition) (cs : List Condition) :
    cs.foldl (combine op) c = abreast op (c :: cs) := by
  induction cs using List.reverseRecOn with
  | nil => rfl
  | append_singleton cs d ih =>
    have last : combine op (abreast op (c :: cs)) (abreast op [d]) = abreast op (c :: cs ++ [d]) :=
      combine_abreast op (List.cons_ne_nil c cs) (List.cons_ne_nil d [])
    rw [List.foldl_append, ih]
    exact last

/-- Conditions joined by AND from left to right, if there are any. -/
def conjunction? : List Condition → Option Condition
  | [] => none
  | c :: cs => some (cs.foldl and c)

theorem conjunction?_eq {cs : List Condition} (some : cs ≠ []) :
    conjunction? cs = .some (abreast .and cs) := by
  obtain ⟨c, cs, rfl⟩ := List.exists_cons_of_ne_nil some
  exact congrArg Option.some (foldl_combine .and c cs)

theorem conjunction?_toList (c : Option Condition) : conjunction? c.toList = c := by
  cases c <;> rfl

/-- A conjunction goes on from what was joined before. -/
theorem conjunction?_append (cs ds : List Condition) :
    conjunction? ((conjunction? cs).toList ++ ds) = conjunction? (cs ++ ds) := by
  cases cs with
  | nil => rfl
  | cons c cs => exact congrArg some (List.foldl_append ..).symm

/-- Conditions joined in pairs, in some order of the pairs. -/
inductive Bracketing where
  | one (c : Condition)
  | pair (left right : Bracketing)

namespace Bracketing

/-- The conditions that are joined, from left to right. -/
def leaves : Bracketing → List Condition
  | .one c => [c]
  | .pair left right => left.leaves ++ right.leaves

def joined (op : Connective) : Bracketing → Condition
  | .one c => c
  | .pair left right => combine op (left.joined op) (right.joined op)

theorem leaves_ne_nil (b : Bracketing) : b.leaves ≠ [] := by
  induction b with
  | one c => exact List.cons_ne_nil c []
  | pair left right ihl ihr => exact List.append_ne_nil_of_left_ne_nil ihl _

/-- The brackets do not show in the tree. -/
theorem joined_eq (op : Connective) (b : Bracketing) : b.joined op = abreast op b.leaves := by
  induction b with
  | one c => rfl
  | pair left right ihl ihr =>
    rw [joined, ihl, ihr, combine_abreast op left.leaves_ne_nil right.leaves_ne_nil, leaves]

end Bracketing

end Condition

namespace Query

open Condition (abreast conjunction? Bracketing)

theorem restrict_eq (q : Query) (c : Condition) :
    q.restrict c = { q with predicate := conjunction? (q.predicate.toList ++ [c]) } := by
  unfold restrict
  cases q.predicate <;> rfl

/-- A restriction by joined conditions is one by all of them. -/
theorem restrict_joined (q : Query) (b : Bracketing) :
    q.restrict (b.joined .and) =
      { q with predicate := conjunction? (q.predicate.toList ++ b.leaves) } := by
  have one : q.predicate.toList ++ [b.joined .and] ≠ [] := by simp
  have each : q.predicate.toList ++ b.leaves ≠ [] :=
    List.append_ne_nil_of_right_ne_nil _ b.leaves_ne_nil
  rw [restrict_eq, Condition.conjunction?_eq one, Condition.conjunction?_eq each, b.joined_eq,
    Condition.abreast_append .and _ b.leaves_ne_nil]

/-- Only the order of conditions counts, not how they are grouped: joining is associative, conditions
joined in any brackets are one flat tree, and a query that is restricted by joined conditions, one
after another, has the conjunction of all of them from left to right. -/
theorem grouping_is_free :
    (∀ op a b c, Condition.combine op (Condition.combine op a b) c =
      Condition.combine op a (Condition.combine op b c)) ∧
    (∀ op (b : Bracketing), b.joined op = abreast op b.leaves) ∧
    ∀ (q : Query) (groups : List Bracketing),
      groups.foldl (fun q b => q.restrict (b.joined .and)) q =
        { q with predicate := conjunction? (q.predicate.toList ++ groups.flatMap (·.leaves)) } := by
  refine ⟨Condition.combine_assoc, Bracketing.joined_eq, fun q groups => ?_⟩
  induction groups generalizing q with
  | nil =>
    rw [List.flatMap_nil, List.append_nil, Condition.conjunction?_toList]
    rfl
  | cons b groups ih =>
    rw [List.foldl_cons, ih, q.restrict_joined b, Condition.conjunction?_append,
      List.flatMap_cons, List.append_assoc]

end Query

end EntityStore
