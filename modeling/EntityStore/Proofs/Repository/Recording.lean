import EntityStore.Repository.Collection
import EntityStore.Proofs.Repository.Insertion

namespace EntityStore

variable {σ ε ε' α β : Type}

namespace Task

/-- Work leaves a property of the state as it was, whether it succeeds or not. -/
def Preserves (P : σ → Prop) (x : Task σ ε α) : Prop := ∀ w, P w.state → P (x.on w).2.state

namespace Preserves

variable {P : σ → Prop}

theorem bind {x : Task σ ε α} {f : α → Task σ ε β} (first : Preserves P x)
    (rest : ∀ a, Preserves P (f a)) : Preserves P (x >>= f) := by
  intro w start
  have next := first w start
  rw [on_bind]
  generalize x.on w = result at next ⊢
  rcases result with ⟨e | a, w₁⟩
  · exact next
  · exact rest a w₁ next

theorem pure (a : α) : Preserves P (Pure.pure a : Task σ ε α) := fun _ start => start

theorem log (e : Event) : Preserves P (Task.log e : Task σ ε Unit) := fun _ start => start

theorem ofExcept (r : Except ε α) : Preserves P (Task.ofExcept r : Task σ ε α) := by
  intro w start
  rw [on_ofExcept]
  exact start

theorem adapt {x : Task σ ε α} (h : Preserves P x) (f : ε → ε') :
    Preserves P (x.adapt f : Task σ ε' α) := h

end Preserves

end Task

/-- An insertion that succeeded, and the rows that the database answered. -/
structure Answer where
  statement : Statement
  rows : List Row

/-- A state with the insertions since some time. -/
structure Recorded (σ : Type) where
  state : σ
  answers : List Answer

namespace World

def recorded (w : World σ) (answers : List Answer) : World (Recorded σ) :=
  ⟨⟨w.state, answers⟩, w.journal⟩

/-- The world without the record. -/
def plain (w : World (Recorded σ)) : World σ := ⟨w.state.state, w.journal⟩

end World

/-- Work that leaves the record alone. -/
def Task.unrecorded (x : Task σ ε α) : Task (Recorded σ) ε α := fun w =>
  let (r, w') := x.on w.plain
  (r, w'.recorded w.state.answers)

theorem Task.on_unrecorded (x : Task σ ε α) (w : World (Recorded σ)) :
    x.unrecorded.on w = ((x.on w.plain).1, (x.on w.plain).2.recorded w.state.answers) := rfl

/-- The database with each insertion that succeeds put on record. -/
def Backend.recording (b : Backend σ ε) : Backend (Recorded σ) ε where
  select s := (b.select s).unrecorded
  count s := (b.count s).unrecorded
  insert s := do
    let rows ← (b.insert s).unrecorded
    Task.turn fun c => { c with answers := c.answers ++ [⟨s, rows⟩] }
    pure rows
  execute s := (b.execute s).unrecorded
  introspect := b.introspect.unrecorded
  message := b.message

theorem Backend.on_recording_insert (b : Backend σ ε) (s : Statement) (w : World (Recorded σ)) :
    (b.recording.insert s).on w = match (b.insert s).on w.plain with
      | (.ok rows, w₁) => (.ok rows, w₁.recorded (w.state.answers ++ [⟨s, rows⟩]))
      | (.error e, w₁) => (.error e, w₁.recorded w.state.answers) := by
  rw [recording]
  dsimp only
  rw [Task.on_bind, Task.on_unrecorded]
  rcases (b.insert s).on w.plain with ⟨e | rows, w₁⟩ <;> rfl

namespace Task

/-- Work has the same results with a record as without. -/
def Mirrors (x : Task (Recorded σ) ε α) (y : Task σ ε α) : Prop :=
  ∀ w, (x.on w).1 = (y.on w.plain).1 ∧ (x.on w).2.plain = (y.on w.plain).2

namespace Mirrors

theorem bind {x : Task (Recorded σ) ε α} {y : Task σ ε α} {f : α → Task (Recorded σ) ε β}
    {g : α → Task σ ε β} (first : Mirrors x y) (rest : ∀ a, Mirrors (f a) (g a)) :
    Mirrors (x >>= f) (y >>= g) := by
  intro w
  obtain ⟨result, world⟩ := first w
  rw [on_bind, on_bind]
  generalize x.on w = left at result world ⊢
  generalize y.on w.plain = right at result world ⊢
  obtain ⟨r, w₁⟩ := left
  obtain ⟨r', w₂⟩ := right
  obtain rfl : r = r' := result
  obtain rfl : w₁.plain = w₂ := world
  cases r with
  | error e => exact ⟨rfl, rfl⟩
  | ok a => exact rest a w₁

theorem log (e : Event) : Mirrors (Task.log e : Task (Recorded σ) ε Unit) (Task.log e) :=
  fun _ => ⟨rfl, rfl⟩

theorem ofExcept (r : Except ε α) :
    Mirrors (Task.ofExcept r : Task (Recorded σ) ε α) (Task.ofExcept r) := by
  intro w
  rw [on_ofExcept, on_ofExcept]
  exact ⟨rfl, rfl⟩

theorem adapt {x : Task (Recorded σ) ε α} {y : Task σ ε α} (h : Mirrors x y) (f : ε → ε') :
    Mirrors (x.adapt f : Task (Recorded σ) ε' α) (y.adapt f) := by
  intro w
  obtain ⟨result, world⟩ := h w
  rw [on_adapt, on_adapt, result]
  exact ⟨rfl, world⟩

theorem insert (b : Backend σ ε) (s : Statement) : Mirrors (b.recording.insert s) (b.insert s) := by
  intro w
  rw [Backend.on_recording_insert]
  rcases (b.insert s).on w.plain with ⟨e | rows, w₁⟩ <;> exact ⟨rfl, rfl⟩

end Mirrors

end Task

open EntityStore.Task (Preserves)

namespace Repository

variable {r : Repository} {P : σ → Prop}

/-- A command that is compiled and run preserves what it preserves when it is run. -/
theorem preserves_compile {command : Except Error (Sql.Command Param)}
    {run : Statement → Task σ RepositoryError α}
    (runs : ∀ c, command = .ok c → Preserves P (run (r.statement c))) :
    Preserves P (r.compile command >>= run) := by
  intro w start
  rw [Task.on_bind]
  cases command with
  | error e => exact start
  | ok c => exact runs c rfl _ start

end Repository

namespace Storable

variable {γ : Type} {t : Storable γ} {r : Repository} {b : Backend σ ε} {P : σ → Prop}

section

variable (inserts : ∀ rows command, t.entity.insert r.dialect rows = .ok command →
  Preserves P (b.insert (r.statement command)))

include inserts

theorem preserves_addKeyed (item : γ) : Preserves P (t.addKeyed r b item) :=
  Repository.preserves_compile fun command made =>
    ((inserts _ command made).adapt _).bind fun _ => .ofExcept _

theorem preserves_addTogether (items : List γ) : Preserves P (t.addTogether r b items) :=
  Repository.preserves_compile fun command made =>
    ((inserts _ command made).adapt _).bind fun _ => .log _

theorem preserves_addEach (items : List γ) (w : World σ) (start : P w.state) :
    P ((t.addEach r b items) w).2.state := by
  induction items generalizing w with
  | nil => exact start
  | cons item rest ih =>
    have first := preserves_addKeyed inserts item w start
    rw [addEach_cons]
    generalize (t.addKeyed r b item).on w = result at first ⊢
    rcases result with ⟨e | item', w₁⟩
    · exact first
    · exact ih w₁ first

/-- Adding items preserves what every insertion of such items preserves. -/
theorem addAll_preserves (items : List γ) (w : World σ) (start : P w.state) :
    P ((t.addAll r b items) w).2.state := by
  rw [addAll_eq]
  split
  · exact start
  · split
    · have each := preserves_addEach inserts items w start
      generalize (t.addEach r b items) w = result at each ⊢
      rcases result with ⟨⟨e | u, after⟩, w₁⟩
      · exact each
      · exact each
    · exact preserves_addTogether inserts items w start

end

section

variable (t) (r) (b)

theorem mirrors_insertion (items : List γ) :
    Task.Mirrors (t.insertion r items : Task (Recorded σ) RepositoryError Statement)
      (t.insertion r items) := by
  intro w
  rw [insertion, insertion]
  cases t.entity.insert r.dialect (items.map t.values) <;> exact ⟨rfl, rfl⟩

theorem mirrors_addKeyed (item : γ) :
    Task.Mirrors (t.addKeyed r b.recording item) (t.addKeyed r b item) :=
  (mirrors_insertion t r [item]).bind fun s => ((Task.Mirrors.insert b s).adapt _).bind fun _ =>
    .ofExcept _

theorem mirrors_addTogether (items : List γ) :
    Task.Mirrors (t.addTogether r b.recording items) (t.addTogether r b items) :=
  (mirrors_insertion t r items).bind fun s => ((Task.Mirrors.insert b s).adapt _).bind fun _ =>
    .log _

theorem addEach_recording (items : List γ) (w : World (Recorded σ)) :
    ((t.addEach r b.recording items) w).1 = ((t.addEach r b items) w.plain).1 ∧
      ((t.addEach r b.recording items) w).2.plain = ((t.addEach r b items) w.plain).2 := by
  induction items generalizing w with
  | nil => exact ⟨rfl, rfl⟩
  | cons item rest ih =>
    obtain ⟨result, world⟩ := mirrors_addKeyed t r b item w
    rw [addEach_cons, addEach_cons]
    generalize (t.addKeyed r b.recording item).on w = left at result world ⊢
    generalize (t.addKeyed r b item).on w.plain = right at result world ⊢
    obtain ⟨outcome, w₁⟩ := left
    obtain ⟨outcome', w₂⟩ := right
    obtain rfl : outcome = outcome' := result
    obtain rfl : w₁.plain = w₂ := world
    cases outcome with
    | error e => exact ⟨rfl, rfl⟩
    | ok item' =>
      obtain ⟨results, worlds⟩ := ih w₁
      exact ⟨congrArg (fun x => (x.1, item' :: x.2)) results, worlds⟩

/-- Items are added with the same results where the insertions are put on record. -/
theorem addAll_recording (items : List γ) (w : World (Recorded σ)) :
    ((t.addAll r b.recording items) w).1 = ((t.addAll r b items) w.plain).1 ∧
      ((t.addAll r b.recording items) w).2.plain = ((t.addAll r b items) w.plain).2 := by
  rw [addAll_eq, addAll_eq]
  split
  · exact ⟨rfl, rfl⟩
  · split
    · obtain ⟨results, worlds⟩ := addEach_recording t r b items w
      generalize (t.addEach r b.recording items) w = left at results worlds ⊢
      generalize (t.addEach r b items) w.plain = right at results worlds ⊢
      obtain ⟨⟨outcome, after⟩, w₁⟩ := left
      obtain ⟨⟨outcome', after'⟩, w₂⟩ := right
      cases results
      obtain rfl : w₁.plain = w₂ := worlds
      cases outcome <;> exact ⟨rfl, rfl⟩
    · obtain ⟨result, world⟩ := mirrors_addTogether t r b items w
      exact ⟨congrArg (·, items) result, world⟩

end

end Storable

namespace Collection

/-- Removing records preserves what every deletion preserves. -/
theorem remove_preserves {c : Collection} {b : Backend σ ε} {P : σ → Prop}
    (deletes : ∀ (q : Query) command, q.delete = .ok command →
      Preserves P (b.execute (c.repository.statement command)))
    (records : List Record) : Preserves P (c.remove b records) := by
  rw [remove]
  split
  · exact .pure 0
  · exact (Preserves.ofExcept _).bind fun q =>
      Repository.preserves_compile fun command made => (deletes q command made).adapt _

end Collection

end EntityStore
