import EntityStore.Repository.Basic
import EntityStore.Proofs.Outcome

namespace EntityStore

/-- A statement that the journal notes as on its way. -/
def Event.executed? : Event → Option (String × Option Nat)
  | .executing sql params => some (sql, params)
  | _ => none

namespace World

variable {σ : Type}

/-- The world with more entries in its journal. -/
def noting (w : World σ) (events : List Event) : World σ :=
  { w with journal := w.journal ++ events }

@[simp] theorem noting_state (w : World σ) (events : List Event) :
    (w.noting events).state = w.state := rfl

@[simp] theorem noting_nil (w : World σ) : w.noting [] = w := by
  rw [noting, List.append_nil]

@[simp] theorem noting_noting (w : World σ) (events more : List Event) :
    (w.noting events).noting more = w.noting (events ++ more) := by
  rw [noting, noting, noting, List.append_assoc]

theorem bind_apply {α β : Type} (x : StateM (World σ) α) (f : α → StateM (World σ) β)
    (w : World σ) : (x >>= f) w = f (x w).1 (x w).2 := rfl

end World

namespace Task

variable {σ ε ε' α β γ : Type} {w w' : World σ}

/-- The result of work on a world, and the world that it leaves. -/
def on (x : Task σ ε α) (w : World σ) : Except ε α × World σ := x w

theorem on_bind (x : Task σ ε α) (f : α → Task σ ε β) (w : World σ) :
    (x >>= f).on w = match x.on w with
      | (.ok a, w') => (f a).on w'
      | (.error e, w') => (.error e, w') := by
  change (match x.on w with | (r, w') => ExceptT.bindCont f r w') = _
  rcases x.on w with ⟨_ | _, w'⟩ <;> rfl

theorem bind_eq_ok {x : Task σ ε α} {f : α → Task σ ε β} {b : β} :
    (x >>= f).on w = (.ok b, w') ↔ ∃ a w₁, x.on w = (.ok a, w₁) ∧ (f a).on w₁ = (.ok b, w') := by
  rw [on_bind]
  rcases x.on w with ⟨e | a, w₁⟩ <;> simp

theorem ok_of_toOption {x : Task σ ε α} {a : α} (h : (x.on w).1.toOption = some a) :
    x.on w = (.ok a, (x.on w).2) := by
  rcases result : x.on w with ⟨e | b, w'⟩
  · rw [result] at h
    cases h
  · rw [result] at h
    cases h
    rfl

theorem pure_eq_ok {a b : α} : (pure a : Task σ ε α).on w = (.ok b, w') ↔ a = b ∧ w = w' := by
  change (Except.ok a, w) = _ ↔ _
  simp

theorem on_log (e : Event) (w : World σ) :
    (log e : Task σ ε Unit).on w = (.ok (), w.noting [e]) := rfl

theorem on_turn (f : σ → σ) (w : World σ) :
    (turn f : Task σ ε Unit).on w = (.ok (), { w with state := f w.state }) := rfl

theorem on_get (w : World σ) : (get : Task σ ε (World σ)).on w = (.ok w, w) := rfl

theorem on_ofExcept (r : Except ε α) (w : World σ) : (ofExcept r).on w = (r, w) := by
  cases r <;> rfl

theorem ofExcept_eq_ok {r : Except ε α} {a : α} :
    (ofExcept r).on w = (.ok a, w') ↔ r = .ok a ∧ w = w' := by
  rw [on_ofExcept, Prod.mk.injEq]

theorem ofCore_eq_ok {r : Except Error α} {a : α} :
    (ofCore r).on w = (.ok a, w') ↔ r = .ok a ∧ w = w' := by
  rw [ofCore, ofExcept_eq_ok, Except.mapError_eq_ok]

theorem on_adapt (f : ε → ε') (x : Task σ ε α) (w : World σ) :
    on (x.adapt f : Task σ ε' α) w = ((x.on w).1.mapError f, (x.on w).2) := rfl

theorem adapt_eq_ok {f : ε → ε'} {x : Task σ ε α} {a : α} :
    on (x.adapt f : Task σ ε' α) w = (.ok a, w') ↔ x.on w = (.ok a, w') := by
  rw [on_adapt]
  rcases x.on w with ⟨e | b, w₁⟩ <;> simp [Except.mapError]

/-- Entries that are made one after another. -/
theorem on_logs (f : γ → Event) (items : List γ) (w : World σ) :
    on (forM items fun item => log (f item) : Task σ ε PUnit) w = (.ok ⟨⟩, w.noting (items.map f)) := by
  induction items generalizing w with
  | nil => exact congrArg (Prod.mk _) w.noting_nil.symm
  | cons item items ih =>
    rw [List.forM_cons, on_bind, on_log]
    exact (ih _).trans (by simp)

theorem run_apply (x : Task σ ε α) (w : World σ) : x.run w = x.on w := rfl

/-- Work leaves what a view shows of the state as it was. -/
def Keeps (view : σ → β) (x : Task σ ε α) : Prop := ∀ w, view (x.on w).2.state = view w.state

namespace Keeps

variable {view : σ → γ}

theorem bind {x : Task σ ε α} {f : α → Task σ ε β} (first : Keeps view x)
    (rest : ∀ a, Keeps view (f a)) : Keeps view (x >>= f) := by
  intro w
  have start := first w
  rw [on_bind]
  generalize x.on w = result at start ⊢
  rcases result with ⟨e | a, w₁⟩
  · exact start
  · exact (rest a w₁).trans start

theorem pure (a : α) : Keeps view (Pure.pure a : Task σ ε α) := fun _ => rfl

theorem log (e : Event) : Keeps view (Task.log e : Task σ ε Unit) := fun _ => rfl

theorem get : Keeps view (MonadState.get : Task σ ε (World σ)) := fun _ => rfl

theorem throw (e : ε) : Keeps view (MonadExcept.throw e : Task σ ε α) := fun _ => rfl

theorem ofExcept (r : Except ε α) : Keeps view (Task.ofExcept r : Task σ ε α) := by
  intro w
  rw [on_ofExcept]

theorem adapt {x : Task σ ε α} (h : Keeps view x) (f : ε → ε') :
    Keeps view (x.adapt f : Task σ ε' α) := h

theorem forM {f : β → Task σ ε PUnit} (each : ∀ item, Keeps view (f item)) (items : List β) :
    Keeps view (ForM.forM items f) := by
  induction items with
  | nil => exact pure _
  | cons item items ih =>
    rw [List.forM_cons]
    exact (each item).bind fun _ => ih

end Keeps

end Task

theorem Backend.on_call {σ ε α : Type} (b : Backend σ ε) (x : Task σ ε α) (w : World σ) :
    (b.call x).on w = ((x.on w).1.mapError fun e => .executor (b.message e), (x.on w).2) := rfl

namespace Repository

variable {σ : Type} (r : Repository)

/-- The statement of a command in the repository's dialect. -/
def statement (command : Sql.Command Param) : Statement := .ofCommand r.dialect command

theorem on_compile (command : Sql.Command Param) (w : World σ) :
    (r.compile (.ok command)).on w =
      (.ok (r.statement command), w.noting [.compiled r.dialect.name (r.statement command).sql]) :=
  rfl

end Repository

end EntityStore
