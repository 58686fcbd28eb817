import EntityStore.Repository.Migration
import EntityStore.Repository.Scripted
import EntityStore.Proofs.Migration.Steps
import EntityStore.Proofs.Repository.Task

namespace EntityStore.Repository

variable {σ ε β : Type} {r : Repository} {b : Backend σ ε} {entities : List Entity} {plan : Plan}
  {w w' : World σ}

/-- What is noted before the statements of a plan run: no statement. -/
def Silent (events : List Event) : Prop := events.filterMap Event.executed? = []

theorem silent_append {events more : List Event} (h : Silent events) (h' : Silent more) :
    Silent (events ++ more) := by
  rw [Silent, List.filterMap_append, h, h', List.append_nil]

theorem silent_map {γ : Type} {f : γ → Event} (each : ∀ item, (f item).executed? = none)
    (items : List γ) : Silent (items.map f) := by
  rw [Silent, List.filterMap_map, List.filterMap_eq_nil_iff]
  exact fun item _ => each item

/-- What is noted of the steps of a plan. -/
def plannedNotes (plan : Plan) : List Event :=
  plan.map fun step => .planned step.table step.isDestructive

/-- What is noted of the steps of a plan that is written down. -/
def stepNotes (plan : Plan) : List Event :=
  plan.map fun step => .step step.table step.isDestructive

/-- What a creation is noted as. -/
def creationNote (d : Dialect) (plan : Plan) : Event := .creating plan.length d.name

/-- What an upgrade is noted as. -/
def upgradeNote (d : Dialect) (plan : Plan) : Event :=
  if plan.isEmpty then .upToDate d.name else .upgrading plan.length d.name

theorem on_planUpgrade (r : Repository) (entities : List Entity) (actual : Schema) (w : World σ) :
    (r.planUpgrade entities actual).on w = match r.plan entities actual with
      | .error e => (.error (.core e), w)
      | .ok plan => (.ok plan, w.noting (plannedNotes plan)) := by
  rw [planUpgrade, Task.on_bind, Task.ofCore, Task.on_ofExcept]
  cases r.plan entities actual with
  | error e => rfl
  | ok plan =>
    dsimp only [Except.mapError]
    rw [Task.on_bind, List.forM_eq_forM, Task.on_logs]
    rfl

/-- A plan carried out: it is written down as a whole, then its statements run. -/
def carried (r : Repository) (b : Backend σ ε) (plan : Plan) (w : World σ) :
    Except RepositoryError Plan × World σ :=
  match plan.statements r.dialect with
  | .error e => (.error (.core e), w)
  | .ok statements =>
    let (outcome, w') := (statements.forM (migrate b)).on (w.noting (stepNotes plan))
    (outcome.map fun _ => plan, w')

/-- A migration to a schema from an actual one. -/
def migrated (r : Repository) (b : Backend σ ε) (entities : List Entity) (actual : Schema)
    (note : Plan → Event) (w : World σ) : Except RepositoryError Plan × World σ :=
  match r.plan entities actual with
  | .error e => (.error (.core e), w)
  | .ok plan => r.carried b plan (w.noting (plannedNotes plan ++ [note plan]))

theorem on_apply (r : Repository) (b : Backend σ ε) (plan : Plan) (w : World σ) :
    (r.apply b plan >>= fun _ => pure plan).on w = r.carried b plan w := by
  rw [apply, carried, stepNotes, bind_assoc, Task.on_bind, Task.ofCore, Task.on_ofExcept]
  cases plan.statements r.dialect with
  | error e => rfl
  | ok statements =>
    dsimp only [Except.mapError]
    rw [bind_assoc, Task.on_bind, List.forM_eq_forM, Task.on_logs]
    dsimp only
    rw [Task.on_bind]
    rcases (statements.forM (migrate b)).on _ with ⟨_ | _, w'⟩ <;> rfl

theorem migrated_of_plan {actual : Schema} (planned : r.plan entities actual = .ok plan)
    (b : Backend σ ε) (note : Plan → Event) (w : World σ) :
    r.migrated b entities actual note w =
      r.carried b plan (w.noting (plannedNotes plan ++ [note plan])) := by
  rw [migrated, planned]

theorem carried_nil (r : Repository) (b : Backend σ ε) (w : World σ) :
    r.carried b [] w = (.ok [], w) := by
  change (Except.ok [], w.noting []) = _
  rw [World.noting_nil]

/-- A creation is a migration from nothing. -/
theorem on_create (r : Repository) (b : Backend σ ε) (entities : List Entity) (w : World σ) :
    (r.create b entities).on w =
      r.migrated b entities .empty (creationNote r.dialect) w := by
  rw [create, migrated, Task.on_bind, on_planUpgrade]
  cases r.plan entities .empty with
  | error e => rfl
  | ok plan =>
    dsimp only
    rw [Task.on_bind, Task.on_log]
    dsimp only
    rw [on_apply, World.noting_noting]
    rfl

/-- An upgrade is a migration from what is there. -/
theorem on_upgrade (r : Repository) (b : Backend σ ε) (entities : List Entity) (w : World σ) :
    (r.upgrade b entities).on w = match b.introspect.on w with
      | (.error e, w₁) => (.error (.executor (b.message e)), w₁)
      | (.ok actual, w₁) =>
        r.migrated b entities actual (upgradeNote r.dialect) w₁ := by
  rw [upgrade, Task.on_bind, Backend.on_call]
  rcases b.introspect.on w with ⟨e | actual, w₁⟩
  · rfl
  · dsimp only [Except.mapError]
    rw [migrated, Task.on_bind, on_planUpgrade]
    cases r.plan entities actual with
    | error e => rfl
    | ok plan =>
      dsimp only
      cases plan with
      | nil =>
        rw [List.isEmpty_nil, if_pos rfl, Task.on_bind, Task.on_log, carried_nil]
        dsimp only
        rw [World.noting_noting]
        rfl
      | cons step rest =>
        rw [List.isEmpty_cons, if_neg Bool.false_ne_true, Task.on_bind, Task.on_log]
        dsimp only
        rw [on_apply, World.noting_noting]
        rfl

theorem migrated_ok {actual : Schema} {note : Plan → Event} (quiet : ∀ plan, Silent [note plan])
    (h : r.migrated b entities actual note w = (.ok plan, w')) :
    ∃ statements events, r.plan entities actual = .ok plan ∧
      plan.statements r.dialect = .ok statements ∧ Silent events ∧
      (statements.forM (migrate b)).on (w.noting events) = (.ok (), w') := by
  unfold migrated at h
  split at h
  · cases h
  · rename_i p planned
    unfold carried at h
    split at h
    · cases h
    · rename_i statements rendered
      rcases ran : (statements.forM (migrate b)).on ((w.noting (plannedNotes p ++ [note p])).noting
        (stepNotes p)) with ⟨outcome, w₁⟩
      simp only [ran, Prod.mk.injEq] at h
      obtain ⟨done, rfl⟩ := h
      obtain ⟨⟨⟩, rfl, rfl⟩ := Except.map_eq_ok.mp done
      rw [World.noting_noting] at ran
      have silent : Silent ((plannedNotes p ++ [note p]) ++ stepNotes p) :=
        silent_append (silent_append (silent_map (fun _ => rfl) p) (quiet p))
          (silent_map (fun _ => rfl) p)
      exact ⟨statements, _, planned, rendered, silent, ran⟩

/-- An upgrade that succeeds ran the statements of its plan, and nothing else. -/
theorem upgrade_ok (h : (r.upgrade b entities).on w = (.ok plan, w')) :
    ∃ actual w₁ statements events, b.introspect.on w = (.ok actual, w₁) ∧
      r.plan entities actual = .ok plan ∧ plan.statements r.dialect = .ok statements ∧
      Silent events ∧ (statements.forM (migrate b)).on (w₁.noting events) = (.ok (), w') := by
  rw [on_upgrade] at h
  split at h
  · cases h
  · rename_i actual w₁ seen
    have quiet (plan : Plan) : Silent [upgradeNote r.dialect plan] := by
      unfold upgradeNote
      split <;> rfl
    obtain ⟨statements, events, ran⟩ := migrated_ok quiet h
    exact ⟨actual, w₁, statements, events, seen, ran⟩

theorem create_ok (h : (r.create b entities).on w = (.ok plan, w')) :
    ∃ statements events, r.plan entities .empty = .ok plan ∧
      plan.statements r.dialect = .ok statements ∧ Silent events ∧
      (statements.forM (migrate b)).on (w.noting events) = (.ok (), w') :=
  have quiet (plan : Plan) : Silent [creationNote r.dialect plan] := rfl
  migrated_ok quiet (r.on_create b entities w ▸ h)

section

variable {γ : Type} {view : σ → γ}

theorem keeps_planUpgrade (actual : Schema) :
    Task.Keeps view (r.planUpgrade (σ := σ) entities actual) :=
  (Task.Keeps.ofExcept _).bind fun p =>
    (Task.Keeps.forM (fun _ => .log _) p).bind fun _ => .pure _

theorem keeps_apply (execute : ∀ s, Task.Keeps view (b.execute s)) :
    Task.Keeps view (r.apply b plan) := by
  have migrate (s : Statement) : Task.Keeps view (migrate b s) :=
    (Task.Keeps.log _).bind fun _ => ((execute s).adapt _).bind fun _ => .pure _
  exact (Task.Keeps.ofExcept _).bind fun statements =>
    (Task.Keeps.forM (fun _ => .log _) plan).bind fun _ => .forM migrate statements

/-- What every statement keeps, the creation of a schema keeps. -/
theorem keeps_create (execute : ∀ s, Task.Keeps view (b.execute s)) :
    Task.Keeps view (r.create b entities) :=
  (keeps_planUpgrade _).bind fun _ => (Task.Keeps.log _).bind fun _ =>
    (keeps_apply execute).bind fun _ => .pure _

/-- What the introspection and every statement keep, an upgrade keeps. -/
theorem keeps_upgrade (introspect : Task.Keeps view b.introspect)
    (execute : ∀ s, Task.Keeps view (b.execute s)) :
    Task.Keeps view (r.upgrade b entities) := by
  refine (introspect.adapt _).bind fun actual => (keeps_planUpgrade actual).bind fun p => ?_
  split
  · exact (Task.Keeps.log _).bind fun _ => .pure _
  · exact (Task.Keeps.log _).bind fun _ => (keeps_apply execute).bind fun _ => .pure _

end

/-- A statement that a database is given to run, and what it answers. -/
structure Execution (ε : Type) where
  statement : Statement
  answer : Except ε Nat

/-- From one world to another a database runs statements and nothing else happens. Each of them is
noted first. -/
inductive Executions (b : Backend σ ε) : World σ → List (Execution ε) → World σ → Prop
  | nil (w : World σ) : Executions b w [] w
  | cons {w w₁ w₂ : World σ} {x : Execution ε} {rest : List (Execution ε)} :
      (b.execute x.statement).on (w.noting [.migrating x.statement.shown]) = (x.answer, w₁) →
      Executions b w₁ rest w₂ → Executions b w (x :: rest) w₂

/-- Statements run in order: all of them, where none is refused, or those up to the first that is,
whose error is the database's. -/
inductive RunInOrder (b : Backend σ ε) (statements : List Statement) :
    List (Execution ε) → Except RepositoryError Unit → Prop
  | all {executions : List (Execution ε)} : executions.map (·.statement) = statements →
      (∀ x ∈ executions, ∃ n, x.answer = .ok n) → RunInOrder b statements executions (.ok ())
  | stopped (before : List (Execution ε)) {s : Statement} {e : ε} {rest : List Statement} :
      statements = before.map (·.statement) ++ s :: rest →
      (∀ x ∈ before, ∃ n, x.answer = .ok n) →
      RunInOrder b statements (before ++ [⟨s, .error e⟩]) (.error (.executor (b.message e)))

theorem RunInOrder.cons {s : Statement} {n : Nat} {statements : List Statement}
    {executions : List (Execution ε)} {outcome : Except RepositoryError Unit}
    (rest : RunInOrder b statements executions outcome) :
    RunInOrder b (s :: statements) (⟨s, .ok n⟩ :: executions) outcome := by
  cases rest with
  | all same accepted =>
    exact .all (congrArg (s :: ·) same) (List.forall_mem_cons.mpr ⟨⟨n, rfl⟩, accepted⟩)
  | stopped before split accepted =>
    exact .stopped (⟨s, .ok n⟩ :: before) (congrArg (s :: ·) split)
      (List.forall_mem_cons.mpr ⟨⟨n, rfl⟩, accepted⟩)

theorem run_in_order (b : Backend σ ε) (statements : List Statement) (w : World σ) :
    ∃ executions, Executions b w executions ((statements.forM (migrate b)).on w).2 ∧
      RunInOrder b statements executions ((statements.forM (migrate b)).on w).1 := by
  induction statements generalizing w with
  | nil => exact ⟨[], .nil w, .all rfl (List.forall_mem_nil _)⟩
  | cons s rest ih =>
    rw [List.forM_eq_forM, List.forM_cons, Task.on_bind, migrate, Task.on_bind, Task.on_log]
    dsimp only
    rw [Task.on_bind, Backend.on_call]
    rcases ran : (b.execute s).on (w.noting [.migrating s.shown]) with ⟨e | n, w₁⟩
    · exact ⟨[⟨s, .error e⟩], .cons ran (.nil w₁), .stopped [] rfl (List.forall_mem_nil _)⟩
    · obtain ⟨executions, executed, inOrder⟩ := ih w₁
      exact ⟨⟨s, .ok n⟩ :: executions, .cons ran executed, inOrder.cons⟩

/-- How a migration ends, by how far it comes. Without a plan nothing has happened; a plan that cannot
be written down, or has no steps, has been noted and no more; otherwise the statements of the plan have
run in order. -/
structure Migrates (r : Repository) (b : Backend σ ε) (entities : List Entity) (actual : Schema)
    (note : Plan → Event) (w : World σ) (outcome : Except RepositoryError Plan) (w' : World σ) :
    Prop where
  unplanned : ∀ e, r.plan entities actual = .error e → outcome = .error (.core e) ∧ w' = w
  unwritten : ∀ plan e, r.plan entities actual = .ok plan →
    plan.statements r.dialect = .error e →
    outcome = .error (.core e) ∧ w' = w.noting (plannedNotes plan ++ [note plan])
  idle : r.plan entities actual = .ok [] → outcome = .ok [] ∧ w' = w.noting [note []]
  run : ∀ plan statements, r.plan entities actual = .ok plan →
    plan.statements r.dialect = .ok statements → ∃ executions done,
      Executions b (w.noting (plannedNotes plan ++ [note plan] ++ stepNotes plan)) executions w' ∧
      RunInOrder b statements executions done ∧ outcome = done.map fun _ => plan

theorem migrated_migrates (r : Repository) (b : Backend σ ε) (entities : List Entity)
    (actual : Schema) (note : Plan → Event) (w : World σ) :
    r.Migrates b entities actual note w (r.migrated b entities actual note w).1
      (r.migrated b entities actual note w).2 where
  unplanned e refused := by
    rw [migrated, refused]
    exact ⟨rfl, rfl⟩
  unwritten plan e planned refused := by
    rw [migrated_of_plan planned, carried, refused]
    exact ⟨rfl, rfl⟩
  idle planned := by
    rw [migrated_of_plan planned, carried_nil]
    exact ⟨rfl, rfl⟩
  run plan statements planned written := by
    obtain ⟨executions, executed, inOrder⟩ := run_in_order b statements
      (w.noting (plannedNotes plan ++ [note plan] ++ stepNotes plan))
    rw [migrated_of_plan planned, carried, written, World.noting_noting]
    exact ⟨executions, _, executed, inOrder, rfl⟩

/-- Nothing runs before the whole plan is written down. A database that cannot be read, a schema that
cannot be planned and a step that cannot be written down stop a migration at once; otherwise the
statements of the plan run in order up to the first that is refused. -/
theorem plan_written_before_run (r : Repository) (b : Backend σ ε) (entities : List Entity)
    (w : World σ) :
    (∀ e w₁, b.introspect.on w = (.error e, w₁) →
      (r.upgrade b entities).on w = (.error (.executor (b.message e)), w₁)) ∧
    (∀ actual w₁, b.introspect.on w = (.ok actual, w₁) →
      r.Migrates b entities actual (upgradeNote r.dialect) w₁ ((r.upgrade b entities).on w).1
        ((r.upgrade b entities).on w).2) ∧
    r.Migrates b entities .empty (creationNote r.dialect) w ((r.create b entities).on w).1
      ((r.create b entities).on w).2 := by
  refine ⟨fun e w₁ unread => ?_, fun actual w₁ read => ?_, ?_⟩
  · rw [on_upgrade, unread]
  · rw [on_upgrade, read]
    exact migrated_migrates r b entities actual _ w₁
  · rw [on_create]
    exact migrated_migrates r b entities .empty _ w

/-- Notes by number, and tags by name. -/
def tagged : List Entity :=
  [⟨⟨"Note", "notes"⟩, [(Field.named "id" .integer).asPrimaryKey]⟩,
    ⟨⟨"Tag", "tags"⟩, [(Field.named "name" .text).asPrimaryKey]⟩]

def taggedTables : List Table :=
  [⟨"notes", [((Column.named "id" "INTEGER").typed .integer).asPrimaryKey]⟩,
    ⟨"tags", [((Column.named "name" "TEXT").typed .text).asPrimaryKey]⟩]

theorem plan_tagged :
    (Repository.of .sqlite).plan tagged .empty = .ok (taggedTables.map .createTable) := by
  have expected : (Repository.of .sqlite).expected tagged =
      .ok (taggedTables.foldl Schema.add .empty) := rfl
  have order : TableOrder.all (taggedTables.foldl Schema.add .empty) .empty = ["notes", "tags"] := by
    decide +kernel
  rw [plan, expected]
  exact (Planner.plan_of_order order).trans rfl

def taggedStatements : List Statement :=
  taggedTables.map fun t => .ofCommand .sqlite (.createTable (t.definition .sqlite t.name))

/-- A database that refuses all that is about tags. -/
def untaggable : World Script := ⟨{ Script.silent with refused := some "tags" }, []⟩

theorem plan_written_before_run_tagged : ∃ executions w' e,
    Executions Script.backend (untaggable.noting
      [.planned "notes" false, .planned "tags" false, .creating 2 "sqlite", .step "notes" false,
        .step "tags" false]) executions w' ∧
    RunInOrder Script.backend taggedStatements executions (.error e) ∧
    ((Repository.of .sqlite).create Script.backend tagged).on untaggable = (.error e, w') := by
  obtain ⟨executions, done, executed, inOrder, outcome⟩ :=
    (plan_written_before_run (.of .sqlite) Script.backend tagged untaggable).2.2.run _
      taggedStatements plan_tagged rfl
  have refused : ∃ e,
      (((Repository.of .sqlite).create Script.backend tagged).on untaggable).1 = .error e := by
    rw [on_create, migrated_of_plan plan_tagged]
    exact ⟨_, rfl⟩
  obtain ⟨e, refused⟩ := refused
  rw [refused] at outcome
  obtain rfl := Except.map_eq_error.mp outcome.symm
  exact ⟨executions, _, e, executed, inOrder, Prod.ext refused rfl⟩

end EntityStore.Repository
