import EntityStore.Proofs.Engine.Upgrade

namespace EntityStore

namespace Engine.Connection

open Sql (Command)

variable (types : TypeMap) (s : Statement) (w : World Connection)

/-- A statement is refused for its parameters, for its text or by the database, in that order; it
changes the database if it is not refused. -/
theorem execute_on :
    (execute types s).on w =
      let noted := w.noting [.executing s.sql (some s.params.length)]
      match s.command.mapM (stored types) with
      | .error e => (.error e, noted)
      | .ok command =>
        match checkText s.sql with
        | .error fault => (.error (.statement fault), noted)
        | .ok () =>
          let names := w.state.names s.sql command
          match run command w.state with
          | .ok (outcome, c) =>
            (.ok (outcome, names), { noted with state := c.prepare s.sql names })
          | .error fault =>
            (.error (.statement fault),
              { noted with state := if fault.isEarly then w.state else w.state.prepare s.sql names }) := by
  rw [execute, Task.on_bind, Task.on_log]
  dsimp only
  rw [Task.on_bind, Task.on_ofExcept]
  cases s.command.mapM (stored types) with
  | error e => rfl
  | ok command =>
    dsimp only
    rw [Task.on_bind, Task.on_ofExcept]
    cases checkText s.sql with
    | error fault => rfl
    | ok u =>
      dsimp only [Except.mapError]
      rw [Task.on_bind, Task.on_get]
      dsimp only
      rw [World.noting_state]
      cases run command w.state with
      | error fault => rfl
      | ok result => rfl

/-- A statement that is refused changes no table. -/
theorem execute_error {e : EngineError} {w' : World Connection}
    (h : (execute types s).on w = (.error e, w')) : w'.state.database = w.state.database := by
  rw [execute_on] at h
  dsimp only at h
  split at h
  · cases h
    rfl
  · split at h
    · cases h
      rfl
    · split at h
      · cases h
      · cases h
        dsimp only
        split
        · rfl
        · exact (w.state.prepare_mode s.sql _).2

/-- A statement that is executed answers what the database answers. -/
theorem execute_ran {outcome : Outcome} {names : List String} {w' : World Connection}
    (h : (execute types s).on w = (.ok (outcome, names), w')) :
    ∃ command, s.command.mapM (stored types) = .ok command ∧
      w.state.database.run w.state.enforced command = .ok (w'.state.database, outcome) := by
  rw [execute_on] at h
  dsimp only at h
  split at h
  · cases h
  · rename_i command encoded
    split at h
    · cases h
    · split at h
      · rename_i answer c ran
        cases h
        refine ⟨command, encoded, ?_⟩
        dsimp only
        rw [(c.prepare_mode s.sql _).2]
        exact (run_ok ran).1
      · cases h

theorem rows_on :
    (rows types s).on w =
      (((execute types s).on w).1.map fun a => a.1.named a.2, ((execute types s).on w).2) := by
  rw [rows, Task.on_bind]
  rcases (execute types s).on w with ⟨e | a, w₁⟩ <;> rfl

theorem run_eq_ok_iff {command : Command Cell} {c : Connection} {outcome : Outcome} :
    (∃ c', run command c = .ok (outcome, c')) ↔
      (command.writes = true → c.writable = true) ∧
        ∃ db, c.database.run c.enforced command = .ok (db, outcome) := by
  unfold run
  cases c.database.run c.enforced command with
  | error fault => simp
  | ok result =>
    obtain ⟨db, answer⟩ := result
    cases command.writes <;> cases c.writable <;> simp

/-- A statement is executed exactly where its parameters have a form to be stored in, its text is
whole, and the database takes it and may be written to. -/
theorem execute_eq_ok_iff {outcome : Outcome} :
    (∃ names w', (execute types s).on w = (.ok (outcome, names), w')) ↔
      ∃ command, s.command.mapM (stored types) = .ok command ∧ checkText s.sql = .ok () ∧
        (command.writes = true → w.state.writable = true) ∧
        ∃ db, w.state.database.run w.state.enforced command = .ok (db, outcome) := by
  rw [execute_on]
  dsimp only
  cases s.command.mapM (stored types) with
  | error e => simp
  | ok command =>
    simp only [Except.ok.injEq, exists_eq_left']
    rw [← run_eq_ok_iff]
    cases checkText s.sql with
    | error fault => simp
    | ok u =>
      cases run command w.state with
      | error fault => simp
      | ok result =>
        obtain ⟨answer, c⟩ := result
        simp

end Engine.Connection

end EntityStore
