import EntityStore.Proofs.Query.Acceptance
import EntityStore.Proofs.Repository.Building

namespace EntityStore

/-- A call on an update under construction. -/
inductive UpdateCall where
  | filter (c : Condition)
  | set (f : FieldRef) (v : Value)
  | clear (f : FieldRef)

namespace UpdateCall

def apply (d : Draft) : UpdateCall → Draft
  | .filter c => d.filter c
  | .set f v => d.set f v
  | .clear f => d.clear f

/-- The update after calls. -/
def run (e : Entity) (calls : List UpdateCall) : Draft := calls.foldl apply (.all e)

def condition? : UpdateCall → Option Condition
  | .filter c => some c
  | _ => none

/-- What a call assigns. -/
def assignment? : UpdateCall → Option (FieldRef × Value)
  | .filter _ => none
  | .set f v => some (f, v)
  | .clear f => if f.field.nullable then some (f, .null) else none

/-- What is wrong with a call: it clears a field that must not be null. -/
def refusal? : UpdateCall → Option Error
  | .clear f =>
    if f.field.nullable then none else some (.invalidArgument (.notNullable f.field.name))
  | _ => none

def conditions (calls : List UpdateCall) : List Condition := calls.filterMap condition?

def assignments (calls : List UpdateCall) : List (FieldRef × Value) := calls.filterMap assignment?

/-- The query that calls ask for. -/
def asked (e : Entity) (calls : List UpdateCall) : Query where
  entity := e
  predicate := Condition.conjunction? (conditions calls)
  page := none
  ordering := []
  assignments := assignments calls

/-- A call adds its condition and its assignment, and is remembered if it is the first one that is
refused. -/
theorem apply_eq (d : Draft) (c : UpdateCall) :
    c.apply d =
      ⟨{ d.query with
          predicate := Condition.conjunction? (d.query.predicate.toList ++ c.condition?.toList)
          assignments := d.query.assignments ++ c.assignment?.toList },
        d.refused.or c.refusal?⟩ := by
  cases c with
  | filter c =>
    rw [apply, Draft.filter, Query.restrict_eq]
    simp [condition?, assignment?, refusal?]
  | set f v =>
    simp [apply, Draft.set, Query.assign, condition?, assignment?, refusal?,
      Condition.conjunction?_toList]
  | clear f =>
    cases nullable : f.field.nullable with
    | true =>
      simp [apply, Draft.clear, Draft.set, Query.assign, condition?, assignment?, refusal?,
        nullable, Condition.conjunction?_toList]
    | false =>
      cases refused : d.refused <;>
        simp [apply, Draft.clear, Draft.refuse, condition?, assignment?, refusal?, nullable,
          refused, Condition.conjunction?_toList]

/-- What calls make of an update is read off the calls. -/
theorem run_eq (e : Entity) (calls : List UpdateCall) :
    run e calls = ⟨asked e calls, calls.findSome? refusal?⟩ := by
  induction calls using List.reverseRecOn with
  | nil => rfl
  | append_singleton calls c ih =>
    rw [run, List.foldl_append, List.foldl_cons, List.foldl_nil, ← run, ih, apply_eq]
    simp only [asked, conditions, assignments, List.filterMap_append, filterMap_one,
      Condition.conjunction?_append, List.findSome?_append, List.findSome?_singleton]

theorem granted {e : Entity} {calls : List UpdateCall} (none : calls.findSome? refusal? = none) :
    run e calls = .ofQuery (asked e calls) := by
  rw [run_eq, none, Draft.ofQuery]

theorem refusal?_eq_none {c : UpdateCall} :
    c.refusal? = none ↔ ∀ f, c = .clear f → f.field.nullable = true := by
  cases c <;> simp [refusal?]

/-- No call is refused where only fields are cleared that may be null. -/
theorem granted_iff {calls : List UpdateCall} :
    calls.findSome? refusal? = none ↔ ∀ f, .clear f ∈ calls → f.field.nullable = true := by
  simp only [List.findSome?_eq_none_iff, refusal?_eq_none]
  exact ⟨fun each f there => each _ there f rfl, fun each c there f same => each f (same ▸ there)⟩

/-- A null is assigned like any other value, or by clearing a field that may be null. -/
theorem null_assigned_iff {calls : List UpdateCall} {f : FieldRef} :
    (f, Value.null) ∈ assignments calls ↔
      .set f .null ∈ calls ∨ .clear f ∈ calls ∧ f.field.nullable = true := by
  rw [assignments, List.mem_filterMap]
  constructor
  · rintro ⟨c, there, assigned⟩
    cases c with
    | filter c => cases assigned
    | set g v =>
      cases assigned
      exact .inl there
    | clear g =>
      obtain ⟨nullable, same⟩ := Option.ite_none_right_eq_some.mp assigned
      cases same
      exact .inr ⟨there, nullable⟩
  · rintro (there | ⟨there, nullable⟩)
    · exact ⟨_, there, rfl⟩
    · exact ⟨_, there, if_pos nullable⟩

end UpdateCall

namespace Query

/-- All that is wrong with an update: it assigns nothing, or fields of other entities, or its
condition is at fault. The values that it assigns are not looked at. -/
def updateFaults (q : Query) : List Error :=
  if q.assignments.isEmpty then [.invalidArgument .emptyUpdate]
  else (q.assignments.flatMap fun a => q.entity.shape.memberFaults a.1) ++ q.faults

theorem update_reports_faults (q : Query) : q.update.Reports q.updateFaults := by
  rw [update_eq, updateFaults]
  split
  · rfl
  · refine (Except.reports_forM fun a _ => q.entity.shape.check_reports a.1).bind fun _ _ => ?_
    exact (q.filter_reports false).bind_ok fun f => ⟨_, rfl⟩

theorem updateFaults_eq_nil {q : Query} :
    q.updateFaults = [] ↔ q.assignments ≠ [] ∧ (∀ a ∈ q.assignments, q.entity.shape.Member a.1) ∧
      ∀ c, q.predicate = some c → c.Scoped q.entity.id.table q.entity.shape ∧ c.Fitting := by
  rw [updateFaults]
  cases hq : q.assignments with
  | nil => simp
  | cons a as =>
    rw [List.isEmpty_cons, if_neg Bool.false_ne_true, List.append_eq_nil_iff,
      List.flatMap_eq_nil_iff, faults_eq_nil]
    simp only [Shape.memberFaults_eq_nil]
    exact (and_iff_right (List.cons_ne_nil a as)).symm

end Query

namespace Draft

variable {σ : Type} (r : Repository) (w : World σ)

theorem on_prepareUpdate_refused (d : Draft) {error : Error} (refused : d.refused = some error) :
    (d.prepareUpdate r).on w = (.error (.core error), w) := by
  have checked : d.checked = .error error := by rw [checked, refused]
  rw [prepareUpdate, checked]
  rfl

theorem outcome_prepareUpdate (q : Query) :
    (((ofQuery q).prepareUpdate r).on w).1 = (q.update.map r.statement).mapError .core := by
  have same : q.update.map r.statement = (do .ok (r.statement (← q.update))) := by
    cases q.update <;> rfl
  rw [same]
  exact Repository.outcome_bind (fun command w => rfl) w

theorem prepareUpdate_ok {q : Query} {s : Statement} :
    (∃ w', ((ofQuery q).prepareUpdate r).on w = (.ok s, w')) ↔
      ∃ command, q.update = .ok command ∧ r.statement command = s := by
  have outcome := outcome_prepareUpdate r w q
  rw [← Except.map_eq_ok, ← Except.mapError_eq_ok (f := RepositoryError.core), ← outcome]
  exact ⟨fun ⟨_, prepared⟩ => prepared ▸ rfl, fun same => ⟨_, Prod.ext same rfl⟩⟩

end Draft

namespace UpdateCall

section

variable {σ : Type} (e : Entity) {calls : List UpdateCall} (r : Repository) (w : World σ)

theorem on_refused_run {error : Error} (refusal : calls.findSome? refusal? = some error) :
    ((run e calls).prepareUpdate r).on w = (.error (.core error), w) := by
  have refused : (run e calls).refused = some error := by rw [run_eq, refusal]
  exact Draft.on_prepareUpdate_refused r w _ refused

/-- What an update needs to be prepared. The values that it assigns are not among it. -/
theorem prepares_iff :
    (∃ s w', ((run e calls).prepareUpdate r).on w = (.ok s, w')) ↔
      calls.findSome? refusal? = none ∧ assignments calls ≠ [] ∧
      (∀ a ∈ assignments calls, e.shape.Member a.1) ∧
      ∀ c, Condition.conjunction? (conditions calls) = some c →
        c.Scoped e.id.table e.shape ∧ c.Fitting := by
  cases refusal : calls.findSome? refusal? with
  | some error =>
    rw [on_refused_run e r w refusal]
    simp
  | none =>
    have reported := (asked e calls).update_reports_faults
    rw [granted refusal, exists_congr fun s => Draft.prepareUpdate_ok r w, exists_comm]
    simp only [exists_eq_right', true_and]
    rw [reported.ok_iff, Query.updateFaults_eq_nil]
    rfl

/-- A prepared update writes what was assigned, call by call. -/
theorem command_of_prepared {s : Statement} {w' : World σ}
    (prepared : ((run e calls).prepareUpdate r).on w = (.ok s, w')) :
    ∃ filter, s.command = .update e.id.table
      ((assignments calls).map fun a => (a.1.field.column, ⟨a.1.field.type, a.2⟩)) filter := by
  obtain ⟨none, -⟩ := (prepares_iff e r w).mp ⟨s, w', prepared⟩
  rw [granted none] at prepared
  obtain ⟨command, updated, rfl⟩ := (Draft.prepareUpdate_ok r w).mp ⟨w', prepared⟩
  obtain ⟨filter, -, rfl⟩ := Query.update_ok updated
  exact ⟨filter.clause, rfl⟩

end

/-- The first refused call is what preparing the update reports, whatever calls come later. Apart
from that an update is prepared where it assigns something, to fields of its entity, and its
condition is sound; which values it assigns makes no difference. So the nulls of a prepared update
are those of cleared fields, which may be null, and those that were assigned, wherever that was. -/
theorem only_clearing_looks_for_nulls {σ : Type} (e : Entity) (calls : List UpdateCall)
    (r : Repository) (w : World σ) :
    (∀ error, calls.findSome? refusal? = some error → ∀ more,
      ((run e (calls ++ more)).prepareUpdate r).on w = (.error (.core error), w)) ∧
    ((∃ s w', ((run e calls).prepareUpdate r).on w = (.ok s, w')) ↔
      (∀ f, .clear f ∈ calls → f.field.nullable = true) ∧ assignments calls ≠ [] ∧
      (∀ a ∈ assignments calls, e.shape.Member a.1) ∧
      ∀ c, Condition.conjunction? (conditions calls) = some c →
        c.Scoped e.id.table e.shape ∧ c.Fitting) ∧
    (∀ s w', ((run e calls).prepareUpdate r).on w = (.ok s, w') →
      ∃ filter, s.command = .update e.id.table
        ((assignments calls).map fun a => (a.1.field.column, ⟨a.1.field.type, a.2⟩)) filter) ∧
    ∀ f, (f, Value.null) ∈ assignments calls ↔
      .set f .null ∈ calls ∨ .clear f ∈ calls ∧ f.field.nullable = true := by
  refine ⟨fun error refusal more => ?_, ?_, fun s w' prepared => command_of_prepared e r w prepared,
    fun f => null_assigned_iff⟩
  · refine on_refused_run e r w ?_
    rw [List.findSome?_append, refusal, Option.some_or]
  · rw [prepares_iff, granted_iff]

def guests : Entity :=
  ⟨⟨"Guest", "guests"⟩, [(Field.named "id" .integer).asPrimaryKey, .named "name" .text,
    (Field.named "seat" .text).asNullable]⟩

def nameOfGuest : FieldRef := guests.ref (.named "name" .text)

def seatOfGuest : FieldRef := guests.ref (Field.named "seat" .text).asNullable

/-- Clearing the name is refused, also where a name is assigned behind it; clearing the seat is
not. -/
theorem only_clearing_looks_for_nulls_guests :
    ((run guests ([.set seatOfGuest (.text "3"), .clear nameOfGuest] ++
        [.set nameOfGuest (.text "ann")])).prepareUpdate (.of .sqlite)).on (⟨(), []⟩ : World Unit) =
      (.error (.core (.invalidArgument (.notNullable "name"))), ⟨(), []⟩) ∧
    ∃ s w' filter, ((run guests [.set nameOfGuest (.text "ann"), .clear seatOfGuest]).prepareUpdate
        (.of .sqlite)).on (⟨(), []⟩ : World Unit) = (.ok s, w') ∧
      s.command = .update "guests"
        [("name", ⟨.text, .text "ann"⟩), ("seat", ⟨.text, .null⟩)] filter := by
  obtain ⟨refused, -⟩ := only_clearing_looks_for_nulls guests
    [.set seatOfGuest (.text "3"), .clear nameOfGuest] (.of .sqlite) (⟨(), []⟩ : World Unit)
  obtain ⟨-, accepted, written, -⟩ := only_clearing_looks_for_nulls guests
    [.set nameOfGuest (.text "ann"), .clear seatOfGuest] (.of .sqlite) (⟨(), []⟩ : World Unit)
  have cleared : ∀ f, UpdateCall.clear f ∈
      [.set nameOfGuest (.text "ann"), .clear seatOfGuest] → f.field.nullable = true := by
    intro f there
    simp only [List.mem_cons, List.not_mem_nil, reduceCtorEq, UpdateCall.clear.injEq, false_or,
      or_false] at there
    exact there ▸ rfl
  have members : ∀ a ∈ assignments [.set nameOfGuest (.text "ann"), .clear seatOfGuest],
      guests.shape.Member a.1 := by decide
  obtain ⟨s, w', prepared⟩ := accepted.mpr ⟨cleared, by decide, members, nofun⟩
  obtain ⟨filter, command⟩ := written s w' prepared
  exact ⟨refused _ rfl _, s, w', filter, prepared, command⟩

/-- A name that must not be null is assigned a null, and the update is prepared. -/
theorem null_assigned_to_name :
    nameOfGuest.field.nullable = false ∧
    ∃ s w', ((run guests [.set nameOfGuest .null]).prepareUpdate (.of .sqlite)).on
        (⟨(), []⟩ : World Unit) = (.ok s, w') ∧
      s.sql = "UPDATE \"guests\" SET \"name\" = ?" ∧ s.params = [⟨.text, .null⟩] := by
  refine ⟨rfl, _, _, rfl, ?_, rfl⟩
  decide +kernel

end UpdateCall

end EntityStore
