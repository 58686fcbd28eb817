import EntityStore.Proofs.Outcome
import EntityStore.Sql.Writer

namespace EntityStore

open Condition (Visit)
open Sql (Fragment)

namespace Condition.Visit

variable {σ α β : Type}

theorem result_ofExcept (r : Except Error α) (s : σ) :
    (ofExcept r).result s = r.map fun a => (a, s) := by
  cases r <;> rfl

theorem result_bind (x : Visit σ α) (f : α → Visit σ β) (s : σ) :
    (x >>= f).result s = x.result s >>= fun r => (f r.1).result r.2 := by
  have first : (x >>= f) s = (match x s with | (r, s') => ExceptT.bindCont f r s') := rfl
  unfold result
  rw [first]
  rcases x s with ⟨_ | _, s'⟩ <;> rfl

/-- Two computations side by side: the second works on what the first computes, which it grants, and
both go on. -/
theorem result_beside {γ δ : Type} {x : Visit σ α} {s : σ} {granted : Except Error γ} {g : γ → α × σ}
    (first : x.result s = granted.map g) {f : α → Visit σ β} {next : γ → Except Error δ}
    {h : δ → β × σ} (rest : ∀ c, granted = .ok c → (f (g c).1).result (g c).2 = (next c).map h) :
    (x >>= f).result s = (granted >>= next).map h := by
  rw [result_bind, first, Except.bind_map, Except.map_bind]
  cases granted with
  | error e => rfl
  | ok c => exact rest c rfl

/-- Work goes on after work that succeeds. -/
theorem result_then {x : Visit σ α} {s s' : σ} {a : α} (h : x.result s = .ok (a, s'))
    (f : α → Visit σ β) : (x >>= f).result s = (f a).result s' := by
  rw [result_bind, h]
  rfl

end Condition.Visit

namespace Writer

variable (d : Dialect)

/-- The writer once the operands of some pieces are bound. -/
def after (w : Writer) (f : Fragment Param) : Writer := ⟨w.params ++ f.operands⟩

/-- The text of some pieces behind what is bound already. -/
def text (w : Writer) (f : Fragment Param) : String := f.render d.placeholder w.params.length

theorem after_append (w : Writer) (f g : Fragment Param) :
    w.after (f ++ g) = (w.after f).after g := by
  simp only [after, Fragment.operands_append, List.append_assoc]

theorem text_append (w : Writer) (f g : Fragment Param) :
    w.text d (f ++ g) = w.text d f ++ (w.after f).text d g := by
  simp only [text, after, Fragment.render_append, List.length_append]

theorem after_text (w : Writer) (s : String) (f : Fragment Param) :
    w.after (.text s :: f) = w.after f := rfl

theorem text_text (w : Writer) (s : String) (f : Fragment Param) :
    w.text d (.text s :: f) = s ++ w.text d f := rfl

theorem after_nil (w : Writer) : w.after [] = w := by
  simp only [after, Fragment.operands, List.append_nil]

theorem text_nil (w : Writer) : w.text d [] = "" := rfl

/-- Texts of pieces one after another, each behind what those before it have bound. -/
def texts : Writer → List (Fragment Param) → List String
  | _, [] => []
  | w, f :: fs => w.text d f :: texts (w.after f) fs

theorem after_separated (separator : String) (fs : List (Fragment Param)) (w : Writer) :
    w.after (.separated separator fs) = fs.foldl after w := by
  induction fs generalizing w with
  | nil => exact w.after_nil
  | cons f fs ih =>
    cases fs with
    | nil => rfl
    | cons g fs =>
      rw [Fragment.separated_cons_cons, after_append, after_text, ih]
      rfl

/-- Joined by a separator, the texts are that of the joined pieces. -/
theorem intercalate_texts (separator : String) (fs : List (Fragment Param)) (w : Writer) :
    String.intercalate separator (w.texts d fs) = w.text d (.separated separator fs) := by
  induction fs generalizing w with
  | nil => rfl
  | cons f fs ih =>
    cases fs with
    | nil => exact String.intercalate_singleton ..
    | cons g fs =>
      have rest := ih (w.after f)
      rw [texts, texts, String.intercalate_cons_cons, ← texts, rest, Fragment.separated_cons_cons,
        text_append, text_text, String.append_assoc]

/-- Some work writes pieces down if they are granted: its text is theirs, wherever it begins, and
their operands are bound in order, nothing else. -/
def Writes (x : Visit Writer String) (granted : Except Error (Fragment Param)) : Prop :=
  ∀ w : Writer, x.result w = granted.map fun f => (w.text d f, w.after f)

variable {d}

/-- Work that goes on with pieces that are granted. -/
theorem Writes.then {α : Type} {x : Visit Writer String} {f : Fragment Param}
    (h : Writes d x (.ok f)) (next : String → Visit Writer α) (w : Writer) :
    (x >>= next).result w = (next (w.text d f)).result (w.after f) :=
  Visit.result_then (h w) next

/-- Work behind a check. -/
theorem Writes.guarded {x : Visit Writer String} {f : Fragment Param} (h : Writes d x (.ok f))
    (check : Except Error Unit) :
    Writes d (Visit.ofExcept check >>= fun _ => x) (check.map fun _ => f) := by
  intro w
  rw [Visit.result_bind, Visit.result_ofExcept, Except.bind_map]
  cases check with
  | error e => rfl
  | ok u => exact h w

/-- A text in front of what is written. -/
theorem Writes.prepend {x : Visit Writer String} {f : Fragment Param} (h : Writes d x (.ok f))
    (s : String) : Writes d (x >>= fun t => pure (s ++ t)) (.ok (.text s :: f)) := by
  intro w
  rw [h.then]
  rfl

/-- What is bound is marked by its number. -/
theorem writes_bind (type : FieldType) (v : Value) :
    Writes d (bind d type v) (.ok [.hole ⟨type, v⟩]) := by
  intro w
  have number : (w.params ++ [(⟨type, v⟩ : Param)]).length = w.params.length + 1 := by simp
  have mark : w.text d [.hole ⟨type, v⟩] = d.placeholder (w.params.length + 1) := by
    simp only [text, Fragment.render, String.append_empty]
  rw [Except.map, mark, ← number]
  rfl

/-- Work on a list writes what it writes for the items, one after another. -/
theorem Writes.all {α : Type} {x : α → Visit Writer String}
    {granted : α → Except Error (Fragment Param)} {as : List α}
    (each : ∀ a ∈ as, Writes d (x a) (granted a)) (w : Writer) :
    (as.mapM x).result w =
      (as.mapM granted).map fun fs => (w.texts d fs, fs.foldl after w) := by
  induction as generalizing w with
  | nil => rfl
  | cons a as ih =>
    obtain ⟨first, others⟩ := List.forall_mem_cons.mp each
    rw [List.mapM_cons, List.mapM_cons]
    refine Visit.result_beside (first w) fun f _ => ?_
    exact Visit.result_beside (ih others (w.after f)) fun fs _ => rfl

/-- The same where the pieces of an item are there as soon as it passes a check. -/
theorem Writes.checked {α : Type} {x : α → Visit Writer String} {check : α → Except Error Unit}
    {g : α → Fragment Param} (each : ∀ a, Writes d (x a) ((check a).map fun _ => g a))
    (as : List α) (w : Writer) :
    (as.mapM x).result w =
      (as.forM check).map fun _ => (w.texts d (as.map g), (as.map g).foldl after w) := by
  rw [Writes.all (fun a _ => each a) w, Except.mapM_checked, Except.map_map]

/-- The same where nothing is refused. -/
theorem Writes.each {α : Type} {x : α → Visit Writer String} {g : α → Fragment Param}
    (each : ∀ a, Writes d (x a) (.ok (g a))) (as : List α) (w : Writer) :
    (as.mapM x).result w = .ok (w.texts d (as.map g), (as.map g).foldl after w) := by
  rw [Writes.all (fun a _ => each a) w, Except.mapM_of_forall fun a _ => rfl]
  rfl

/-- A statement that is written from the beginning. -/
theorem Writes.finish {x : Visit Writer String} {granted : Except Error (Fragment Param)}
    (h : Writes d x granted) :
    Writer.finish x = granted.map fun f => ⟨f.render d.placeholder 0, f.operands⟩ := by
  rw [Writer.finish, h fresh, Except.map_map]
  rfl

end Writer

end EntityStore
