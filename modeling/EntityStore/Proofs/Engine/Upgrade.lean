import EntityStore.Engine.Store
import EntityStore.Proofs.Engine.Tables
import EntityStore.Proofs.Repository.Migration

namespace EntityStore.Engine

open Sql (Command)

namespace Database

variable {db : Database}

/-- Every reference of a row is null or finds the row that it points at. -/
def Intact (db : Database) : Prop :=
  ∀ t ∈ db.tables, ∀ i r, (i, r) ∈ t.definition.links → ∀ row ∈ t.rows,
    (cellAt row i).isNull = true ∨ ∃ parent key, db.target t.definition r = .ok (parent, key) ∧
      holds parent key (cellAt row i) = true

/-- Counts that add up to some number are not greater, each by itself. -/
theorem count_le {α : Type} {count : α → Except Fault Nat} {items : List α} {start total : Nat}
    (h : items.foldlM (fun n item => (count item).map (n + ·)) start = .ok total) :
    start ≤ total ∧ ∀ item ∈ items, ∃ k, count item = .ok k ∧ k ≤ total := by
  induction items generalizing start with
  | nil =>
    cases h
    exact ⟨le_refl _, List.forall_mem_nil _⟩
  | cons item items ih =>
    rw [List.foldlM_cons] at h
    obtain ⟨n, own, h⟩ := Except.bind_eq_ok.mp h
    obtain ⟨k, counted, rfl⟩ := Except.map_eq_ok.mp own
    obtain ⟨least, others⟩ := ih h
    exact ⟨by omega, List.forall_mem_cons.mpr ⟨⟨k, counted, by omega⟩, others⟩⟩

/-- The number of rows whose reference leads nowhere. -/
def violationsAt (db : Database) (t : StoredTable) : Nat × Sql.Reference → Except Fault Nat
  | (i, r) =>
    match db.target t.definition r with
    | .ok (parent, k) => .ok (t.rows.filter fun row => dangling parent k (cellAt row i)).length
    | .error (.noParent _) => .ok (t.rows.filter fun row => !(cellAt row i).isNull).length
    | .error e => .error e

theorem violationsOf_eq (db : Database) (t : StoredTable) :
    db.violationsOf t =
      t.definition.links.reverse.foldlM (fun n link => (db.violationsAt t link).map (n + ·)) 0 := by
  unfold violationsOf violationsAt
  congr 1
  funext n ⟨i, r⟩
  dsimp only
  cases db.target t.definition r with
  | ok found => rfl
  | error e => cases e <;> rfl

/-- A database without violations is intact. -/
theorem intact_of_violations (h : db.violations = .ok 0) : db.Intact := by
  intro t ht i r link row hrow
  obtain ⟨-, tables⟩ := count_le h
  obtain ⟨k, counted, none⟩ := tables t (List.mem_reverse.mpr ht)
  rw [violationsOf_eq] at counted
  obtain ⟨-, links⟩ := count_le counted
  obtain ⟨n, counted, few⟩ := links (i, r) (List.mem_reverse.mpr link)
  obtain rfl : n = 0 := by omega
  simp only [violationsAt] at counted
  cases found : db.target t.definition r with
  | ok target =>
    obtain ⟨parent, key⟩ := target
    rw [found] at counted
    simp only [Except.ok.injEq, List.length_eq_zero_iff, List.filter_eq_nil_iff] at counted
    have stands := counted row hrow
    simp only [dangling, Bool.and_eq_true, Bool.not_eq_true', not_and, Bool.not_eq_false] at stands
    cases null : (cellAt row i).isNull with
    | true => exact .inl rfl
    | false => exact .inr ⟨parent, key, rfl, stands null⟩
  | error e =>
    rw [found] at counted
    cases e with
    | noParent name =>
      simp only [Except.ok.injEq, List.length_eq_zero_iff, List.filter_eq_nil_iff] at counted
      exact .inl (by simpa using counted row hrow)
    | _ => cases counted

end Database

namespace Connection

/-- What statements leave alone: whether foreign keys are enforced, and what open transactions go
back to. -/
def mode (c : Connection) : Bool × List Database := (c.enforced, c.saved)

variable {α : Type} {types : TypeMap} {w w' : World Connection}

theorem run_ok {command : Command Cell} {c c' : Connection} {outcome : Outcome}
    (h : run command c = .ok (outcome, c')) :
    c.database.run c.enforced command = .ok (c'.database, outcome) ∧ c'.mode = c.mode := by
  unfold run at h
  split at h
  · rename_i db outcome' ran
    split at h
    · cases h
    · cases h
      exact ⟨ran, rfl⟩
  · cases h

@[simp] theorem enforcing_database (on : Bool) (c : Connection) :
    (c.enforcing on).database = c.database := by
  unfold enforcing
  split <;> rfl

@[simp] theorem enforcing_saved (on : Bool) (c : Connection) :
    (c.enforcing on).saved = c.saved := by
  unfold enforcing
  split <;> rfl

theorem enforcing_enforced (on : Bool) (c : Connection) :
    (c.enforcing on).enforced = if c.saved.isEmpty then on else c.enforced := by
  unfold enforcing
  split <;> rfl

theorem prepare_mode (c : Connection) (sql : String) (names : List String) :
    (c.prepare sql names).mode = c.mode ∧ (c.prepare sql names).database = c.database := by
  unfold prepare
  split <;> exact ⟨rfl, rfl⟩

/-- A statement that is executed changes the database as it says, and is noted. -/
theorem execute_ok {s : Statement} {a : Outcome × List String}
    (h : (execute types s).on w = (.ok a, w')) :
    ∃ command outcome, s.command.mapM (stored types) = .ok command ∧
      w.state.database.run w.state.enforced command = .ok (w'.state.database, outcome) ∧
      w'.state.mode = w.state.mode ∧
      w'.journal = w.journal ++ [.executing s.sql (some s.params.length)] := by
  obtain ⟨⟨⟩, w₁, noted, h⟩ := Task.bind_eq_ok.mp h
  rw [Task.on_log] at noted
  cases noted
  obtain ⟨command, w₂, encoded, h⟩ := Task.bind_eq_ok.mp h
  obtain ⟨encoded', rfl⟩ := Task.ofExcept_eq_ok.mp encoded
  obtain ⟨⟨⟩, w₃, checked, h⟩ := Task.bind_eq_ok.mp h
  obtain ⟨-, rfl⟩ := Task.ofExcept_eq_ok.mp checked
  obtain ⟨w₄, w₅, got, h⟩ := Task.bind_eq_ok.mp h
  rw [Task.on_get] at got
  cases got
  dsimp only at h
  split at h
  · rename_i outcome c ran
    obtain ⟨⟨⟩, w₆, put, h⟩ := Task.bind_eq_ok.mp h
    cases put
    obtain ⟨rfl, rfl⟩ := Task.pure_eq_ok.mp h
    obtain ⟨ran, mode⟩ := run_ok ran
    obtain ⟨mode', database⟩ := c.prepare_mode s.sql _
    exact ⟨command, outcome, encoded', database ▸ ran, mode'.trans mode, rfl⟩
  · obtain ⟨⟨⟩, w₆, -, h⟩ := Task.bind_eq_ok.mp h
    cases h

/-- A statement leaves the mode of the connection alone, whether it succeeds or not. -/
theorem keeps_execute (s : Statement) : Task.Keeps mode (execute types s) := by
  refine (Task.Keeps.log _).bind fun _ => (Task.Keeps.ofExcept _).bind fun command =>
    (Task.Keeps.ofExcept _).bind fun _ => ?_
  intro w
  rw [Task.on_bind, Task.on_get]
  dsimp only
  split
  · rename_i outcome c ran
    exact (c.prepare_mode s.sql _).1.trans (run_ok ran).2
  · change mode (if _ then w.state else w.state.prepare s.sql _) = _
    split
    · rfl
    · exact (w.state.prepare_mode s.sql _).1

theorem introspect_ok {schema : Schema} (h : introspect.on w = (.ok schema, w')) :
    w.state.database.introspect = .ok schema ∧
      w' = w.noting [.introspected schema.names.length] := by
  obtain ⟨w₁, w₂, got, h⟩ := Task.bind_eq_ok.mp h
  rw [Task.on_get] at got
  cases got
  obtain ⟨found, w₃, seen, h⟩ := Task.bind_eq_ok.mp h
  obtain ⟨seen', rfl⟩ := Task.ofExcept_eq_ok.mp seen
  obtain ⟨⟨⟩, w₄, noted, h⟩ := Task.bind_eq_ok.mp h
  rw [Task.on_log] at noted
  cases noted
  obtain ⟨rfl, rfl⟩ := Task.pure_eq_ok.mp h
  exact ⟨seen', rfl⟩

theorem keeps_introspect : Task.Keeps mode introspect := by
  refine Task.Keeps.get.bind fun w => (Task.Keeps.ofExcept _).bind fun schema =>
    (Task.Keeps.log _).bind fun _ => .pure _

theorem checkForeignKeys_ok (h : checkForeignKeys.on w = (.ok (), w')) :
    w.state.database.Intact ∧ w' = w := by
  obtain ⟨w₁, w₂, got, h⟩ := Task.bind_eq_ok.mp h
  rw [Task.on_get] at got
  cases got
  split at h
  · rename_i sound
    exact ⟨Database.intact_of_violations sound, (Task.pure_eq_ok.mp h).2.symm⟩
  · cases h
  · cases h

theorem keeps_checkForeignKeys : Task.Keeps mode checkForeignKeys := by
  refine Task.Keeps.get.bind fun w => ?_
  split
  · exact .pure _
  · exact .throw _
  · exact .throw _

/-- Statements ran one after another and nothing else did: the database is what they make of it, and
they are what the journal notes. -/
def Executed (types : TypeMap) (enforced : Bool) (statements : List Statement)
    (w w' : World Connection) : Prop :=
  ∃ cells events, statements.mapM (fun s => s.command.mapM (stored types)) = .ok cells ∧
    w.state.database.runAll enforced cells = .ok w'.state.database ∧
    w'.journal = w.journal ++ events ∧
    events.filterMap Event.executed? = statements.map fun s => (s.sql, some s.params.length)

theorem executed_of_migrate {statements : List Statement}
    (h : Task.on (forM statements (Repository.migrate (backend types))) w = (.ok ⟨⟩, w')) :
    Executed types w.state.enforced statements w w' ∧ w'.state.mode = w.state.mode := by
  induction statements generalizing w with
  | nil =>
    cases h
    exact ⟨⟨[], [], rfl, rfl, (List.append_nil _).symm, rfl⟩, rfl⟩
  | cons s statements ih =>
    rw [List.forM_cons] at h
    obtain ⟨⟨⟩, w₁, first, rest⟩ := Task.bind_eq_ok.mp h
    obtain ⟨⟨⟩, w₂, noted, first⟩ := Task.bind_eq_ok.mp first
    rw [Task.on_log] at noted
    cases noted
    obtain ⟨n, w₃, called, first⟩ := Task.bind_eq_ok.mp first
    obtain ⟨-, rfl⟩ := Task.pure_eq_ok.mp first
    obtain ⟨a, w₄, ran, done⟩ := Task.bind_eq_ok.mp (Task.adapt_eq_ok.mp called)
    obtain ⟨-, rfl⟩ := Task.pure_eq_ok.mp done
    obtain ⟨cell, outcome, encoded, database, mode, journal⟩ := execute_ok ran
    obtain ⟨⟨cells, events, others, later, journal', noted⟩, mode'⟩ := ih rest
    refine ⟨⟨cell :: cells, .migrating s.shown :: .executing s.sql (some s.params.length) :: events,
      ?_, ?_, ?_, ?_⟩, mode'.trans mode⟩
    · rw [List.mapM_cons, encoded, others]
      rfl
    · have same : w₄.state.enforced = w.state.enforced := congrArg Prod.fst mode
      rw [same] at later
      exact Except.bind_eq_ok.mpr ⟨(w₄.state.database, outcome), database, later⟩
    · rw [journal', journal]
      simp [World.noting]
    · simp only [List.filterMap_cons, Event.executed?, noted, List.map_cons]

theorem on_attempt (work : Work α) (w : World Connection) :
    Task.on (liftM work.run : Work (Except EngineError α)) w = (.ok (work.on w).1, (work.on w).2) :=
  rfl

/-- A transaction is granted, or nothing happens. -/
theorem begin_cases (w : World Connection) :
    begin.on w = (.ok (), { w with state := w.state.opened }) ∨
      ∃ e, begin.on w = (.error e, w) := by
  rw [begin, Task.on_bind, Task.on_get]
  dsimp only
  cases w.state.refusal .begin with
  | none => exact .inl rfl
  | some fault => exact .inr ⟨_, rfl⟩

/-- Changes are kept by a commit, or taken back by a commit that is refused. -/
theorem commit_cases (w : World Connection) :
    commit.on w = (.ok (), { w with state := w.state.closed }) ∨
      ∃ e, commit.on w = (.error e, { w with state := w.state.reverted }) := by
  rw [commit, Task.on_bind, Task.on_get]
  dsimp only
  cases w.state.refusal .commit with
  | none => exact .inl rfl
  | some fault => exact .inr ⟨_, rfl⟩

/-- A way to give a transaction up, which takes the changes back even if it is refused. -/
def TakesBack (giveUp : Work Unit) : Prop :=
  ∀ w, (giveUp.on w).2 = { w with state := w.state.reverted }

theorem takesBack_drop : TakesBack drop := fun _ => rfl

theorem takesBack_rollback : TakesBack rollback := by
  intro w
  rw [rollback, Task.on_bind, drop, Task.on_turn]
  dsimp only
  rw [Task.on_bind, Task.on_get]
  dsimp only
  cases w.state.reverted.refusal .rollback with
  | none => rfl
  | some fault => rfl

/-- What becomes of work in a transaction: there is no transaction, or what was done in it is kept
because all of it succeeded, or it is taken back. -/
theorem atomically_cases {giveUp : Work Unit} (back : TakesBack giveUp) (work : Work α)
    (w : World Connection) :
    (∃ e, (atomically giveUp work).on w = (.error e, w)) ∨
      ∃ r w₁, work.on { w with state := w.state.opened } = (r, w₁) ∧
        ((∃ a, r = .ok a ∧
          (atomically giveUp work).on w = (.ok a, { w₁ with state := w₁.state.closed })) ∨
        ∃ e, (atomically giveUp work).on w =
          (.error e, { w₁ with state := w₁.state.reverted })) := by
  rw [atomically, Task.on_bind]
  obtain granted | ⟨e, refused⟩ := begin_cases w
  · rw [granted]
    dsimp only
    rw [Task.on_bind, on_attempt]
    dsimp only
    rcases work.on { w with state := w.state.opened } with ⟨e | a, w₁⟩
    · refine .inr ⟨_, w₁, rfl, .inr ?_⟩
      dsimp only
      rw [Task.on_bind]
      obtain ⟨r, given⟩ : ∃ r, giveUp.on w₁ = (r, { w₁ with state := w₁.state.reverted }) :=
        ⟨_, Prod.ext rfl (back w₁)⟩
      rw [given]
      cases r with
      | error e' => exact ⟨e', rfl⟩
      | ok => exact ⟨e, rfl⟩
    · refine .inr ⟨_, w₁, rfl, ?_⟩
      dsimp only
      rw [Task.on_bind]
      obtain kept | ⟨e, refused⟩ := commit_cases w₁
      · rw [kept]
        exact .inl ⟨a, rfl, rfl⟩
      · rw [refused]
        exact .inr ⟨e, rfl⟩
  · rw [refused]
    exact .inl ⟨e, rfl⟩

variable {giveUp : Work Unit} {work : Work α}

/-- What was done goes back to where its transaction began. -/
theorem reverted_opened {w₁ : World Connection} (keeps : Task.Keeps mode work)
    {r : Except EngineError α} (ran : work.on { w with state := w.state.opened } = (r, w₁)) :
    w₁.state.reverted.database = w.state.database ∧ w₁.state.reverted.mode = w.state.mode := by
  have same := keeps { w with state := w.state.opened }
  rw [ran] at same
  obtain ⟨enforced, saved⟩ := Prod.mk.inj same
  change w₁.state.saved = w.state.database :: w.state.saved at saved
  rw [reverted, saved]
  exact ⟨rfl, congrArg (·, w.state.saved) enforced⟩

/-- Work that fails takes its changes back. -/
theorem atomically_error (back : TakesBack giveUp) (keeps : Task.Keeps mode work) {e : EngineError}
    (h : (atomically giveUp work).on w = (.error e, w')) :
    w'.state.database = w.state.database := by
  obtain ⟨_, refused⟩ | ⟨r, w₁, ran, ⟨a, -, kept⟩ | ⟨_, lost⟩⟩ := atomically_cases back work w
  · cases h.symm.trans refused
    rfl
  · cases h.symm.trans kept
  · cases h.symm.trans lost
    exact (reverted_opened keeps ran).1

/-- Work that succeeds keeps its changes. -/
theorem atomically_ok (back : TakesBack giveUp) {a : α}
    (h : (atomically giveUp work).on w = (.ok a, w')) :
    ∃ w₁, work.on { w with state := w.state.opened } = (.ok a, w₁) ∧
      w' = { w₁ with state := w₁.state.closed } := by
  obtain ⟨_, refused⟩ | ⟨r, w₁, ran, ⟨a', rfl, kept⟩ | ⟨_, lost⟩⟩ := atomically_cases back work w
  · cases h.symm.trans refused
  · cases h.symm.trans kept
    exact ⟨w₁, ran, rfl⟩
  · cases h.symm.trans lost

/-- Either way the transaction is closed again. -/
theorem keeps_atomically (back : TakesBack giveUp) (keeps : Task.Keeps mode work) :
    Task.Keeps mode (atomically giveUp work) := by
  intro w
  obtain ⟨_, refused⟩ | ⟨r, w₁, ran, ⟨a, -, kept⟩ | ⟨_, lost⟩⟩ := atomically_cases back work w
  · rw [refused]
  · have same := keeps { w with state := w.state.opened }
    rw [ran] at same
    obtain ⟨enforced, saved⟩ := Prod.mk.inj same
    rw [kept]
    exact Prod.ext enforced (congrArg List.tail saved)
  · rw [lost]
    exact (reverted_opened keeps ran).2

end Connection

namespace Store

open Connection (Executed)

variable {s : Store} {entities : List Entity} {plan : Plan} {w w' : World Connection}

/-- The statements of a plan ran, and nothing else did. -/
def Applied (s : Store) (enforced : Bool) (plan : Plan) (w w' : World Connection) : Prop :=
  ∃ statements, plan.statements s.repository.dialect = .ok statements ∧
    Executed s.repository.types enforced statements w w'

theorem applied_of_noting {enforced : Bool} {events : List Event}
    (quiet : Repository.Silent events) (h : s.Applied enforced plan (w.noting events) w') :
    s.Applied enforced plan w w' := by
  obtain ⟨statements, rendered, cells, more, encoded, ran, journal, noted⟩ := h
  refine ⟨statements, rendered, cells, events ++ more, encoded, ran, ?_, ?_⟩
  · rw [journal, World.noting, List.append_assoc]
  · rw [List.filterMap_append, quiet, List.nil_append, noted]

theorem noting_applied {enforced : Bool} {events : List Event}
    (quiet : Repository.Silent events) (h : s.Applied enforced plan w w') :
    s.Applied enforced plan w (w'.noting events) := by
  obtain ⟨statements, rendered, cells, more, encoded, ran, journal, noted⟩ := h
  refine ⟨statements, rendered, cells, more ++ events, encoded, ran, ?_, ?_⟩
  · rw [World.noting, journal, List.append_assoc]
  · rw [List.filterMap_append, quiet, List.append_nil, noted]

theorem migrate_ok (h : (s.migrate entities).on w = (.ok plan, w')) :
    ∃ actual, w.state.database.introspect = .ok actual ∧
      s.repository.plan entities actual = .ok plan ∧ s.Applied w.state.enforced plan w w' ∧
      w'.state.database.Intact := by
  obtain ⟨p, w₁, upgraded, h⟩ := Task.bind_eq_ok.mp h
  obtain ⟨⟨⟩, w₂, checked, h⟩ := Task.bind_eq_ok.mp h
  obtain ⟨rfl, rfl⟩ := Task.pure_eq_ok.mp h
  obtain ⟨intact, rfl⟩ := Connection.checkForeignKeys_ok checked
  obtain ⟨actual, w₃, statements, events, seen, planned, rendered, quiet, ran⟩ :=
    Repository.upgrade_ok (Task.adapt_eq_ok.mp upgraded)
  obtain ⟨found, rfl⟩ := Connection.introspect_ok seen
  rw [World.noting_noting] at ran
  have once : Repository.Silent [.introspected actual.names.length] := rfl
  exact ⟨actual, found, planned, applied_of_noting (Repository.silent_append once quiet)
    ⟨statements, rendered, (Connection.executed_of_migrate ran).1⟩, intact⟩

theorem keeps_migrate : Task.Keeps Connection.mode (s.migrate entities) :=
  ((Repository.keeps_upgrade Connection.keeps_introspect fun t =>
    (Connection.keeps_execute t).bind fun _ => .pure _).adapt _).bind fun _ =>
      Connection.keeps_checkForeignKeys.bind fun _ => .pure _

/-- A creation that succeeds ran the statements of its plan. -/
theorem create_ok (h : (s.create entities).on w = (.ok plan, w')) :
    s.repository.plan entities .empty = .ok plan ∧ s.Applied w.state.enforced plan w w' := by
  obtain ⟨w₁, ran, rfl⟩ := Connection.atomically_ok Connection.takesBack_drop h
  obtain ⟨statements, events, planned, rendered, quiet, ran⟩ :=
    Repository.create_ok (Task.adapt_eq_ok.mp ran)
  exact ⟨planned, applied_of_noting quiet
    ⟨statements, rendered, (Connection.executed_of_migrate ran).1⟩⟩

theorem keeps_create : Task.Keeps Connection.mode
    ((s.repository.create s.backend entities).adapt .repository : Work Plan) :=
  (Repository.keeps_create fun t => (Connection.keeps_execute t).bind fun _ => .pure _).adapt _

/-- An upgrade is a transaction between two switches of the enforcement. -/
theorem on_upgrade (s : Store) (entities : List Entity) (w : World Connection) :
    (s.upgrade entities).on w =
      let (r, w₁) := (Connection.atomically Connection.rollback (s.migrate entities)).on
        { w with state := w.state.enforcing false }
      (r, World.noting { w₁ with state := w₁.state.enforcing s.foreignKeys } [match r with
        | .ok plan => .committed plan.length
        | .error e => .rolledBack e.message]) := by
  rw [upgrade, Connection.enforce, Connection.enforce, Task.on_bind, Task.on_turn]
  dsimp only
  rw [Task.on_bind, Connection.on_attempt]
  dsimp only
  rw [Task.on_bind, Task.on_turn]
  dsimp only
  generalize (Connection.atomically _ (s.migrate entities)).on _ = result
  rcases result with ⟨e | plan, w₁⟩ <;> rfl

/-- An upgrade that succeeds ran the statements of the plan for what it found, and left no reference
that leads nowhere. -/
theorem upgrade_ok (h : (s.upgrade entities).on w = (.ok plan, w')) :
    ∃ actual, w.state.database.introspect = .ok actual ∧
      s.repository.plan entities actual = .ok plan ∧
      s.Applied (w.state.enforcing false).enforced plan w w' ∧ w'.state.database.Intact := by
  rw [on_upgrade] at h
  cases result : (Connection.atomically Connection.rollback (s.migrate entities)).on
      { w with state := w.state.enforcing false } with
  | mk outcome w₁ =>
    simp only [result, Prod.mk.injEq] at h
    obtain ⟨rfl, rfl⟩ := h
    obtain ⟨w₂, ran, rfl⟩ := Connection.atomically_ok Connection.takesBack_rollback result
    obtain ⟨actual, found, planned, ⟨statements, rendered, cells, events, encoded, ran, journal,
      noted⟩, intact⟩ := migrate_ok ran
    have once : Repository.Silent [.committed plan.length] := rfl
    rw [Connection.opened, Connection.enforcing_database] at found ran
    refine ⟨actual, found, planned, noting_applied once
      ⟨statements, rendered, cells, events, encoded, ?_, journal, noted⟩, ?_⟩
    · rw [Connection.enforcing_database]
      exact ran
    · rw [World.noting_state, Connection.enforcing_database]
      exact intact

/-- An upgrade that fails leaves the tables and rows as they were. -/
theorem upgrade_error {e : EngineError} (h : (s.upgrade entities).on w = (.error e, w')) :
    w'.state.database = w.state.database := by
  rw [on_upgrade] at h
  cases result : (Connection.atomically Connection.rollback (s.migrate entities)).on
      { w with state := w.state.enforcing false } with
  | mk outcome w₁ =>
    simp only [result, Prod.mk.injEq] at h
    obtain ⟨rfl, rfl⟩ := h
    have back := Connection.atomically_error Connection.takesBack_rollback keeps_migrate result
    rw [Connection.enforcing_database] at back
    rw [World.noting_state, Connection.enforcing_database, back]

/-- Whatever becomes of an upgrade, the store's choice is restored. -/
theorem upgrade_enforced (s : Store) (entities : List Entity) (w : World Connection) :
    ((s.upgrade entities).on w).2.state.enforced =
      if w.state.saved.isEmpty then s.foreignKeys else w.state.enforced := by
  have keeps : Task.Keeps Connection.mode (s.migrate entities) := keeps_migrate
  have same := Connection.keeps_atomically Connection.takesBack_rollback keeps
    { w with state := w.state.enforcing false }
  rw [on_upgrade]
  generalize (Connection.atomically _ (s.migrate entities)).on _ = result at same ⊢
  obtain ⟨outcome, w₁⟩ := result
  simp only [Connection.mode, Connection.enforcing_saved, Prod.mk.injEq] at same
  obtain ⟨enforced, saved⟩ := same
  rw [World.noting_state, Connection.enforcing_enforced, saved, enforced,
    Connection.enforcing_enforced]
  split <;> rfl

/-- What is left of the tables and rows after a change of the schema: what they were, or what the
statements of the plan make of them. -/
def Whole (s : Store) (enforced : Bool) (w w' : World Connection) : Except EngineError Plan → Prop
  | .error _ => w'.state.database = w.state.database
  | .ok plan => s.Applied enforced plan w w'

/-- A change of the schema happens as a whole or not at all. An upgrade that succeeds leaves no
reference that leads nowhere, and the enforcement of foreign keys is as the store has it afterwards;
within an open transaction, where it cannot be switched, it is as it was. -/
theorem schema_changes_are_whole (s : Store) (entities : List Entity) (w : World Connection) :
    (∃ outcome w', (s.upgrade entities).on w = (outcome, w') ∧
      s.Whole (w.state.enforcing false).enforced w w' outcome ∧
      (∀ plan, outcome = .ok plan → w'.state.database.Intact) ∧
      w'.state.enforced =
        if w.state.saved.isEmpty then s.foreignKeys else w.state.enforced) ∧
    ∃ outcome w', (s.create entities).on w = (outcome, w') ∧
      s.Whole w.state.enforced w w' outcome := by
  constructor
  · cases result : (s.upgrade entities).on w with
    | mk outcome w' =>
      refine ⟨outcome, w', rfl, ?_, ?_, ?_⟩
      · cases outcome with
        | error e => exact upgrade_error result
        | ok plan =>
          obtain ⟨_, -, -, applied, -⟩ := upgrade_ok result
          exact applied
      · rintro plan rfl
        obtain ⟨_, -, -, -, intact⟩ := upgrade_ok result
        exact intact
      · rw [← upgrade_enforced s entities w, result]
  · cases result : (s.create entities).on w with
    | mk outcome w' =>
      refine ⟨outcome, w', rfl, ?_⟩
      cases outcome with
      | error e => exact Connection.atomically_error Connection.takesBack_drop keeps_create result
      | ok plan => exact (create_ok result).2

end Store

end EntityStore.Engine
