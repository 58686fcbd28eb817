import EntityStore.Repository.Collection
import EntityStore.Proofs.Engine.Execution
import EntityStore.Proofs.Query.Acceptance

namespace EntityStore

namespace Engine

open Sql (Command ColumnRef TableDef)
open EntityStore.Text (sameIgnoringCase)

theorem compareCells_eq_true {a b : Cell} : compareCells .eq a b = some true ↔ a.same b = true := by
  cases ha : a.isNull <;> cases hb : b.isNull <;>
    simp [compareCells, Truth.ofCells, Cell.same, ha, hb]

/-- A value is among others if one of them is the same; null is among none. -/
theorem among_eq_true {v : Cell} {others : List Cell} :
    among v others = some true ↔ ∃ other ∈ others, v.same other = true := by
  rw [among, Truth.join_or_eq_true, List.mem_map]
  exact exists_congr fun other => and_congr_right fun _ => compareCells_eq_true

namespace Database

variable {db db' : Database} {t : StoredTable} {table column : String}

/-- Membership is tested in the form in which the column keeps its values. -/
theorem satisfies_among {i : Nat} (there : t.definition.index? column = some i)
    (keys : List Cell) (row : List Cell) :
    satisfies db [⟨table, t.definition, row⟩] (some (.among ⟨none, column⟩ false keys)) =
      keys.any fun key => (cellAt row i).same ((t.definition.affinity i).keep key) := by
  have affinity : Scope.affinity [⟨table, t.definition, row⟩] ⟨none, column⟩ =
      t.definition.affinity i := by
    simp [Scope.affinity, Frame.affinity?, there]
  have operands : keys.map (Scope.operand [⟨table, t.definition, row⟩] ⟨none, column⟩ .eq) =
      keys.map (t.definition.affinity i).keep := by
    exact List.map_congr_left fun key _ => congrArg (Affinity.keep · key) affinity
  rw [Bool.eq_iff_iff, satisfies, beq_iff_eq, evaluate, Scope.cell_of_index there, operands,
    if_neg Bool.false_ne_true, among_eq_true, List.any_eq_true]
  simp only [List.mem_map, exists_exists_and_eq_and]

/-- Rows may go if nothing refers to them any more, as far as that is enforced. -/
def Releases (db : Database) (enforced : Bool) (t : StoredTable) (gone : List (List Cell)) : Prop :=
  enforced = true → db.checkLinks t.definition .rows false = .ok () ∧
    db.deleteBalance t t.rows (gone.mergeSort (inKeyOrder t.definition.keyIndexes)) 0 ≤ 0

theorem settle_eq_ok {balance : Int} : settle balance = .ok () ↔ balance ≤ 0 := by
  unfold settle
  split <;> simp <;> omega

theorem deleteRows_eq (enforced : Bool) (table : String) (filter : Option (Sql.Expr Cell)) :
    db.deleteRows enforced table filter = (do
      let t ← db.table table
      checkFilter db filter
      let _ ← (if enforced then db.checkLinks t.definition .rows false else .ok ())
      let hit (row : List Cell) : Bool := satisfies db [⟨table, t.definition, row⟩] filter
      let gone := t.rows.filter hit
      let inOrder :=
        if filter.isSome then gone.mergeSort (inKeyOrder t.definition.keyIndexes) else gone
      let _ ← (if enforced then settle (db.deleteBalance t t.rows inOrder 0) else .ok ())
      .ok (db.withRows t (t.rows.filter fun row => !hit row), gone.length)) := by
  cases enforced <;> rfl

/-- A deletion by a condition on the table alone takes the rows that satisfy it. -/
theorem run_delete {enforced : Bool} {filter : Sql.Expr Cell} (alone : tablesOf filter = [])
    (there : db.table? table = some t) {hit : List Cell → Bool}
    (means : (fun row => satisfies db [⟨table, t.definition, row⟩] (some filter)) = hit)
    {outcome : Outcome} :
    db.run enforced (.delete table (some filter)) = .ok (db', outcome) ↔
      db.Releases enforced t (t.rows.filter hit) ∧
        db.withRows t (t.rows.filter fun row => !hit row) = db' ∧
        ⟨[], (t.rows.filter hit).length⟩ = outcome := by
  have found : db.table table = .ok t := by
    rw [Database.table, there]
  have checked : checkFilter db (some filter) = .ok () := by
    rw [checkFilter, Option.map_some, Option.getD_some, alone]
    rfl
  have deleted (n : Nat) : db.deleteRows enforced table (some filter) = .ok (db', n) ↔
      db.Releases enforced t (t.rows.filter hit) ∧
        db.withRows t (t.rows.filter fun row => !hit row) = db' ∧ (t.rows.filter hit).length = n := by
    subst means
    rw [deleteRows_eq, found, checked]
    have passed {α β : Type} (a : α) (f : α → Except Fault β) : (Except.ok a >>= f) = f a := rfl
    rw [passed, passed, Except.checked_eq_ok, Except.checked_eq_ok, settle_eq_ok,
      Option.isSome_some, if_pos rfl, Except.ok.injEq, Prod.mk.injEq, ← and_assoc, ← forall_and]
    rfl
  rw [run, Except.bind_eq_ok]
  constructor
  · rintro ⟨⟨db'', n⟩, done, answer⟩
    cases answer
    obtain ⟨releases, rest, rfl⟩ := (deleted n).mp done
    exact ⟨releases, rest, rfl⟩
  · rintro ⟨releases, rest, rfl⟩
    exact ⟨(db', _), (deleted _).mpr ⟨releases, rest, rfl⟩, rfl⟩

end Database

namespace Connection

variable {types : TypeMap} {s : Statement} {w w' : World Connection}

theorem backend_execute_eq_ok {n : Nat} :
    ((backend types).call ((backend types).execute s)).on w = (.ok n, w') ↔
      ∃ outcome names, outcome.affected = n ∧
        (execute types s).on w = (.ok (outcome, names), w') := by
  rw [Backend.call, Task.adapt_eq_ok]
  change ((execute types s >>= fun a => pure a.1.affected).on w = (.ok n, w')) ↔ _
  simp only [Task.bind_eq_ok, Task.pure_eq_ok]
  constructor
  · rintro ⟨⟨outcome, names⟩, w₁, done, count, rfl⟩
    exact ⟨outcome, names, count, done⟩
  · rintro ⟨outcome, names, count, done⟩
    exact ⟨(outcome, names), w', done, count, rfl⟩

theorem backend_execute_error {e : RepositoryError}
    (h : ((backend types).call ((backend types).execute s)).on w = (.error e, w')) :
    w'.state.database = w.state.database := by
  have executed : (backend types).execute s = execute types s >>= fun a => pure a.1.affected := rfl
  rw [Backend.on_call, executed, Task.on_bind] at h
  generalize result : (execute types s).on w = done at h
  obtain ⟨e' | a, w₁⟩ := done
  · cases h
    exact execute_error types s w result
  · cases h

end Connection

end Engine

namespace Entity

/-- The positions of the fields that make up the key. -/
def keyPositions (e : Entity) : List Nat :=
  (List.range e.fields.length).filter fun j => e.fields[j]?.any (·.primaryKey)

end Entity

namespace Record

open Engine Sql

/-- Whether a row of a table has the value of a record in the field at a position, in the form in
which the column keeps it. Null is no value that could be had. -/
def agrees (types : TypeMap) (e : Entity) (d : TableDef) (r : Record) (row : List Cell) (j : Nat) :
    Bool :=
  e.fields[j]?.any fun f => r[j]?.any fun v => (d.index? f.column).any fun i =>
    match Connection.stored types ⟨f.type, v⟩ with
    | .ok cell => (cellAt row i).same ((d.affinity i).keep cell)
    | .error _ => false

/-- Whether a row has the whole key of a record. -/
def hasKey (types : TypeMap) (e : Entity) (d : TableDef) (r : Record) (row : List Cell) : Bool :=
  e.keyPositions.all (r.agrees types e d row)

end Record

namespace Collection

open Engine Sql
open EntityStore.Text (sameIgnoringCase)

variable (c : Collection)

/-- The deletion of rows by values of one column. -/
def deletion (key : Field) (keys : List Value) : Command Param :=
  .delete c.type.entity.id.table
    (some (.among ⟨none, key.column⟩ false (keys.map fun v => ⟨key.type, v⟩)))

theorem key?_of_keyIndex? {t : RecordType} {k : Nat} (first : t.keyIndex? = some k) :
    ∃ f, t.entity.key? = some f ∧ t.entity.fields[k]? = some f ∧ f.primaryKey = true := by
  obtain ⟨inside, holds, before⟩ := List.findIdx?_eq_some_iff_getElem.mp first
  refine ⟨t.entity.fields[k], ?_, List.getElem?_eq_getElem inside, holds⟩
  rw [Entity.key?, List.find?_eq_some_iff_getElem]
  exact ⟨holds, k, inside, rfl, fun j hj => by simpa using before j hj⟩

theorem removal_eq {f : Field} {records : List Record} (key : c.type.entity.key? = some f) :
    c.removal records = (records.mapM c.type.key).map fun keys =>
      (Query.all c.type.entity).restrict (.collection (c.type.entity.ref f) .isIn keys) := by
  rw [removal, key]
  cases records.mapM c.type.key <;> rfl

theorem delete_removal {f : Field} {keys : List Value} (key : c.type.entity.key? = some f)
    (given : keys ≠ []) :
    ((Query.all c.type.entity).restrict
      (.collection (c.type.entity.ref f) .isIn keys)).delete = .ok (c.deletion f keys) := by
  have declared : f ∈ c.type.entity.fields := List.mem_of_find?_eq_some key
  have member := c.type.entity.member_refs (c.type.entity.ref f) (List.mem_map_of_mem declared)
  have checked : c.type.entity.shape.check (c.type.entity.ref f) = .ok () :=
    (Shape.check_eq _ _).trans (if_pos member)
  rw [Query.delete, Query.filter]
  simp only [Query.restrict, Query.all, Condition.joins, Condition.hops, checked]
  cases keys with
  | nil => exact absurd rfl given
  | cons v vs => rfl

variable {c} {types : TypeMap} {w w' : World Connection}

/-- The column of the first key field tells the rows that a removal takes. -/
theorem any_cells {k i : Nat} {f : Field} {d : TableDef} {records : List Record}
    {keys : List Value} {cells : List Cell} (first : c.type.keyIndex? = some k)
    (field : c.type.entity.fields[k]? = some f) (there : d.index? f.column = some i)
    (read : records.mapM c.type.key = .ok keys)
    (encoded : (keys.map fun v => (⟨f.type, v⟩ : Param)).mapM (Connection.stored types) = .ok cells)
    (row : List Cell) :
    (cells.any fun cell => (cellAt row i).same ((d.affinity i).keep cell)) =
      records.any fun r => r.agrees types c.type.entity d row k := by
  induction records generalizing keys cells with
  | nil =>
    cases read
    cases encoded
    rfl
  | cons r records ih =>
    rw [List.mapM_cons] at read
    obtain ⟨v, value, read⟩ := Except.bind_eq_ok.mp read
    obtain ⟨values, others, read⟩ := Except.bind_eq_ok.mp read
    cases read
    rw [List.map_cons, List.mapM_cons] at encoded
    obtain ⟨cell, stored, encoded⟩ := Except.bind_eq_ok.mp encoded
    obtain ⟨rest, more, encoded⟩ := Except.bind_eq_ok.mp encoded
    cases encoded
    have given : r[k]? = some v := by
      rw [RecordType.key, first] at value
      dsimp only at value
      split at value
      · rename_i given
        exact given.trans (congrArg some (Except.ok.inj value))
      · cases value
    have here : r.agrees types c.type.entity d row k = (cellAt row i).same ((d.affinity i).keep cell) := by
      simp [Record.agrees, field, given, there, stored]
    rw [List.any_cons, List.any_cons, ih others more, here]

/-- Where nothing is given nothing is done. -/
theorem remove_nil {σ ε : Type} (b : Backend σ ε) (w : World σ) :
    (c.remove b []).on w = (.ok 0, w) := rfl

theorem remove_eq {σ ε : Type} (b : Backend σ ε) {records : List Record} (given : records ≠ []) :
    c.remove b records = (do
      let q ← Task.ofExcept (c.removal records)
      let statement ← c.repository.compile q.delete
      b.call (b.execute statement)) := by
  cases records with
  | nil => exact absurd rfl given
  | cons r records => rfl

theorem remove_eq_ok_iff {f : Field} {records : List Record} (key : c.type.entity.key? = some f)
    (given : records ≠ []) {n : Nat} :
    (c.remove (Connection.backend types) records).on w = (.ok n, w') ↔
      ∃ keys outcome names, records.mapM c.type.key = .ok keys ∧ outcome.affected = n ∧
        (Connection.execute types (c.repository.statement (c.deletion f keys))).on
          (w.noting [.compiled c.repository.dialect.name
            (c.repository.statement (c.deletion f keys)).sql]) = (.ok (outcome, names), w') := by
  have compiled (keys : List Value) (some_keys : keys ≠ []) :
      (c.repository.compile ((Query.all c.type.entity).restrict
          (.collection (c.type.entity.ref f) .isIn keys)).delete >>= fun statement =>
        (Connection.backend types).call ((Connection.backend types).execute statement)).on w =
          (.ok n, w') ↔
        ∃ outcome names, outcome.affected = n ∧
          (Connection.execute types (c.repository.statement (c.deletion f keys))).on
            (w.noting [.compiled c.repository.dialect.name
              (c.repository.statement (c.deletion f keys)).sql]) = (.ok (outcome, names), w') := by
    rw [delete_removal c key some_keys, Task.on_bind, Repository.on_compile]
    exact Connection.backend_execute_eq_ok
  have nonempty {keys : List Value} (read : records.mapM c.type.key = .ok keys) : keys ≠ [] := by
    rintro rfl
    exact given (List.length_eq_zero_iff.mp (Except.mapM_forall₂ read).length_eq)
  rw [remove_eq _ given, Task.bind_eq_ok, removal_eq c key]
  simp only [Task.ofExcept_eq_ok, Except.map_eq_ok]
  constructor
  · rintro ⟨q, w₁, ⟨⟨keys, read, rfl⟩, rfl⟩, h⟩
    obtain ⟨outcome, names, count, done⟩ := (compiled keys (nonempty read)).mp h
    exact ⟨keys, outcome, names, read, count, done⟩
  · rintro ⟨keys, outcome, names, read, count, done⟩
    exact ⟨_, w, ⟨⟨keys, read, rfl⟩, rfl⟩,
      (compiled keys (nonempty read)).mpr ⟨outcome, names, count, done⟩⟩

/-- A removal that is refused, before or by the database, changes no table. -/
theorem remove_error {records : List Record} {e : RepositoryError}
    (h : (c.remove (Connection.backend types) records).on w = (.error e, w')) :
    w'.state.database = w.state.database := by
  by_cases none : records = []
  · rw [none, remove_nil] at h
    cases h
  · rw [remove_eq _ none, Task.on_bind, Task.on_ofExcept] at h
    generalize c.removal records = removal at h
    cases removal with
    | error fault =>
      cases h
      rfl
    | ok q =>
      dsimp only at h
      rw [Task.on_bind] at h
      generalize q.delete = deletion at h
      cases deletion with
      | error fault =>
        cases h
        rfl
      | ok command =>
        rw [Repository.on_compile] at h
        dsimp only at h
        have kept := Connection.backend_execute_error h
        exact kept

/-- The table after a removal, and the rows that went. -/
def remaining (types : TypeMap) (e : Entity) (records : List Record) (k : Nat) (t : StoredTable) :
    StoredTable :=
  { t with rows := t.rows.filter fun row => !records.any fun r => r.agrees types e t.definition row k }

def removed (types : TypeMap) (e : Entity) (records : List Record) (k : Nat) (t : StoredTable) :
    List (List Cell) :=
  t.rows.filter fun row => records.any fun r => r.agrees types e t.definition row k

/-- What a removal does once its command is known. -/
theorem run_deletion {k i : Nat} {f : Field} {t : StoredTable} {records : List Record}
    {keys : List Value} {cells : List Cell} (first : c.type.keyIndex? = some k)
    (field : c.type.entity.fields[k]? = some f) (there : t.definition.index? f.column = some i)
    (read : records.mapM c.type.key = .ok keys)
    (encoded : (keys.map fun v => (⟨f.type, v⟩ : Param)).mapM (Connection.stored types) = .ok cells)
    {db db' : Database} {enforced : Bool} (found : db.table? c.type.entity.id.table = some t)
    {outcome : Outcome} :
    db.run enforced (.delete c.type.entity.id.table (some (.among ⟨none, f.column⟩ false cells))) =
        .ok (db', outcome) ↔
      db.Releases enforced t (removed types c.type.entity records k t) ∧
        db.put (remaining types c.type.entity records k t) = db' ∧
        ⟨[], (removed types c.type.entity records k t).length⟩ = outcome := by
  refine Database.run_delete rfl found (funext fun row => ?_)
  rw [Database.satisfies_among there, any_cells first field there read encoded]

theorem mapM_deletion {f : Field} {keys : List Value} {command : Command Cell} :
    (c.deletion f keys).mapM (Connection.stored types) = .ok command ↔
      ∃ cells, (keys.map fun v => (⟨f.type, v⟩ : Param)).mapM (Connection.stored types) = .ok cells ∧
        command = .delete c.type.entity.id.table (some (.among ⟨none, f.column⟩ false cells)) := by
  rw [deletion, Command.mapM, Command.mapFilterM, Expr.mapM]
  cases (keys.map fun v => (⟨f.type, v⟩ : Param)).mapM (Connection.stored types) with
  | error e => simp [bind, Except.bind]
  | ok cells => simp [bind, Except.bind, pure, Except.pure, eq_comm]

/-- What a removal from a table needs: the first key of every record in a form that can be stored,
a text that is read as a whole, and a database that may be written to and lets the rows go. -/
structure Removable (c : Collection) (types : TypeMap) (records : List Record) (k : Nat)
    (t : StoredTable) (w : World Connection) : Prop where
  stored : ∀ r ∈ records, ∃ f v cell, c.type.entity.fields[k]? = some f ∧ r[k]? = some v ∧
    Connection.stored types ⟨f.type, v⟩ = .ok cell
  text : ∀ f keys, c.type.entity.fields[k]? = some f → records.mapM c.type.key = .ok keys →
    checkText (c.repository.statement (c.deletion f keys)).sql = .ok ()
  writable : w.state.writable = true
  releases : w.state.database.Releases w.state.enforced t (removed types c.type.entity records k t)

section

variable {k i : Nat} {f : Field} {t : StoredTable} {records : List Record}
  (first : c.type.keyIndex? = some k) (field : c.type.entity.fields[k]? = some f)
  (there : t.definition.index? f.column = some i)
  (found : w.state.database.table? c.type.entity.id.table = some t)

include first field

/-- The keys of records can be stored exactly where the values at the first key position can. -/
theorem keys_stored :
    (∃ keys cells, records.mapM c.type.key = .ok keys ∧
        (keys.map fun v => (⟨f.type, v⟩ : Param)).mapM (Connection.stored types) = .ok cells) ↔
      ∀ r ∈ records, ∃ f v cell, c.type.entity.fields[k]? = some f ∧ r[k]? = some v ∧
        Connection.stored types ⟨f.type, v⟩ = .ok cell := by
  have value (r : Record) (v : Value) : c.type.key r = .ok v ↔ r[k]? = some v := by
    rw [RecordType.key, first]
    dsimp only
    split
    · rename_i given
      rw [given, Except.ok.injEq, Option.some.injEq]
    · rename_i none
      simp [none]
  constructor
  · rintro ⟨keys, cells, read, encoded⟩ r hr
    obtain ⟨v, hv, key⟩ := Except.mapM_mem_left read hr
    obtain ⟨cell, -, stored⟩ := Except.mapM_mem_left encoded (List.mem_map_of_mem hv)
    exact ⟨f, v, cell, field, (value r v).mp key, stored⟩
  · intro each
    have readable : ∀ r ∈ records, ∃ v, c.type.key r = .ok v := by
      intro r hr
      obtain ⟨_, v, _, _, given, _⟩ := each r hr
      exact ⟨v, (value r v).mpr given⟩
    obtain ⟨keys, read⟩ := Except.mapM_succeeds.mpr readable
    have storable : ∀ p ∈ keys.map fun v => (⟨f.type, v⟩ : Param),
        ∃ cell, Connection.stored types p = .ok cell := by
      rw [List.forall_mem_map]
      intro v hv
      obtain ⟨r, hr, key⟩ := Except.mapM_mem read hv
      obtain ⟨f', v', cell, field', given, stored⟩ := each r hr
      obtain rfl : f = f' := Option.some.inj (field.symm.trans field')
      obtain rfl : v = v' := Option.some.inj (((value r v).mp key).symm.trans given)
      exact ⟨cell, stored⟩
    obtain ⟨cells, encoded⟩ := Except.mapM_succeeds.mpr storable
    exact ⟨keys, cells, read, encoded⟩

include there found

theorem remove_succeeds (given : records ≠ []) :
    (∃ n w', (c.remove (Connection.backend types) records).on w = (.ok n, w')) ↔
      c.Removable types records k t w := by
  obtain ⟨f', key, field', -⟩ := key?_of_keyIndex? first
  obtain rfl : f = f' := Option.some.inj (field.symm.trans field')
  constructor
  · rintro ⟨n, w', h⟩
    obtain ⟨keys, outcome, names, read, -, done⟩ := (remove_eq_ok_iff key given).mp h
    obtain ⟨command, encoded, text, writable, db, ran⟩ :=
      (Connection.execute_eq_ok_iff types _ _).mp ⟨names, w', done⟩
    obtain ⟨cells, stored, rfl⟩ := mapM_deletion.mp encoded
    obtain ⟨releases, -, -⟩ := (run_deletion first field there read stored found).mp ran
    refine ⟨(keys_stored first field).mp ⟨keys, cells, read, stored⟩, ?_, writable rfl, releases⟩
    intro f'' keys' field'' read'
    obtain rfl : f = f'' := Option.some.inj (field.symm.trans field'')
    obtain rfl : keys = keys' := Except.ok.inj (read.symm.trans read')
    exact text
  · intro removable
    obtain ⟨keys, cells, read, stored⟩ := (keys_stored first field).mpr removable.stored
    have ran := (run_deletion first field there read stored found).mpr
      ⟨removable.releases, rfl, rfl⟩
    obtain ⟨names, w', done⟩ := (Connection.execute_eq_ok_iff types
        (c.repository.statement (c.deletion f keys))
        (w.noting [.compiled c.repository.dialect.name
          (c.repository.statement (c.deletion f keys)).sql])).mpr
      ⟨_, mapM_deletion.mpr ⟨cells, stored, rfl⟩, removable.text f keys field read,
        fun _ => removable.writable, _, ran⟩
    exact ⟨_, w', (remove_eq_ok_iff key given).mpr ⟨keys, _, names, read, rfl, done⟩⟩

theorem remove_takes (given : records ≠ []) {n : Nat}
    (h : (c.remove (Connection.backend types) records).on w = (.ok n, w')) :
    n = (removed types c.type.entity records k t).length ∧
      w'.state.database = w.state.database.put (remaining types c.type.entity records k t) := by
  obtain ⟨f', key, field', -⟩ := key?_of_keyIndex? first
  obtain rfl : f = f' := Option.some.inj (field.symm.trans field')
  obtain ⟨keys, outcome, names, read, rfl, done⟩ := (remove_eq_ok_iff key given).mp h
  obtain ⟨command, encoded, ran⟩ := Connection.execute_ran types _ _ done
  obtain ⟨cells, stored, rfl⟩ := mapM_deletion.mp encoded
  obtain ⟨-, rest, rfl⟩ := (run_deletion first field there read stored found).mp ran
  exact ⟨rfl, rest.symm⟩

end

theorem mem_removed {e : Entity} {records : List Record} {k : Nat} {t : StoredTable}
    {row : List Cell} : row ∈ removed types e records k t ↔
      row ∈ t.rows ∧ ∃ r ∈ records, r.agrees types e t.definition row k = true := by
  rw [removed, List.mem_filter, List.any_eq_true]

theorem mem_keyPositions {k : Nat} (first : c.type.keyIndex? = some k) :
    k ∈ c.type.entity.keyPositions := by
  obtain ⟨f, -, field, primary⟩ := key?_of_keyIndex? first
  obtain ⟨inside, -⟩ := List.getElem?_eq_some_iff.mp field
  rw [Entity.keyPositions, List.mem_filter, List.mem_range, field]
  exact ⟨inside, primary⟩

/-- Which rows a removal of records takes. The empty list touches nothing, and a removal that is
refused changes no table. One that succeeds takes the rows with the first key of a given record and
no others, and leaves the other tables; it succeeds exactly where keys, text, database and
references allow. Every row with the whole key of a record goes, and where the key is one field no
other row does. -/
theorem removal_by_first_key (c : Collection) (types : TypeMap) (records : List Record)
    (w : World Connection)
    (declared : ∀ t, w.state.database.table? c.type.entity.id.table = some t →
      ∀ f ∈ c.type.entity.fields, f.primaryKey = true → (t.definition.index? f.column).isSome) :
    (records = [] → (c.remove (Connection.backend types) records).on w = (.ok 0, w)) ∧
    (∀ e w', (c.remove (Connection.backend types) records).on w = (.error e, w') →
      w'.state.database = w.state.database) ∧
    ∀ k t, records ≠ [] → c.type.keyIndex? = some k →
      w.state.database.table? c.type.entity.id.table = some t →
      ((∃ n w', (c.remove (Connection.backend types) records).on w = (.ok n, w')) ↔
        c.Removable types records k t w) ∧
      (∀ n w', (c.remove (Connection.backend types) records).on w = (.ok n, w') →
        n = (removed types c.type.entity records k t).length ∧
        w'.state.database.table? c.type.entity.id.table =
          some (remaining types c.type.entity records k t) ∧
        ∀ name, sameIgnoringCase c.type.entity.id.table name = false →
          w'.state.database.table? name = w.state.database.table? name) ∧
      (∀ r ∈ records, ∀ row ∈ t.rows, r.hasKey types c.type.entity t.definition row = true →
        row ∈ removed types c.type.entity records k t) ∧
      (c.type.entity.keyPositions = [k] → ∀ row ∈ t.rows,
        (row ∈ removed types c.type.entity records k t ↔
          ∃ r ∈ records, r.hasKey types c.type.entity t.definition row = true)) := by
  refine ⟨fun none => none ▸ remove_nil _ w, fun e w' h => remove_error h,
    fun k t given first found => ?_⟩
  obtain ⟨f, -, field, primary⟩ := key?_of_keyIndex? first
  have inside : f ∈ c.type.entity.fields := List.mem_of_getElem? field
  obtain ⟨i, there⟩ := Option.isSome_iff_exists.mp (declared t found f inside primary)
  have named := Database.table?_name found
  refine ⟨remove_succeeds first field there found given, fun n w' h => ?_,
    fun r hr row hrow whole => ?_, fun single row hrow => ?_⟩
  · obtain ⟨count, after⟩ := remove_takes first field there found given h
    rw [after]
    refine ⟨count, Database.table?_put named found, fun name different => ?_⟩
    exact Database.table?_put_of_ne ((Text.sameIgnoringCase_congr named name).trans different)
  · have here := List.all_eq_true.mp whole k (mem_keyPositions first)
    exact mem_removed.mpr ⟨hrow, r, hr, here⟩
  · rw [mem_removed, and_iff_right hrow]
    refine exists_congr fun r => and_congr_right fun _ => ?_
    rw [Record.hasKey, single, List.all_cons, List.all_nil, Bool.and_true]

def members : RecordType :=
  ⟨⟨⟨"Membership", "memberships"⟩, [(Field.named "user_name" .text).asPrimaryKey,
    (Field.named "team_id" .integer).asPrimaryKey]⟩, [.text, .int64], none⟩

def memberships : Collection := ⟨.of .sqlite, members⟩

/-- A new database in which some memberships are stored. -/
def enrolled (records : List Record) : World Connection :=
  let created := ((Store.wrap.create [members.entity]).on ⟨.fresh false true, []⟩).2
  (memberships.addAll Store.wrap.backend records created).2

/-- The declaration and the rows of the stored memberships. -/
def stored (w : World Connection) : Option (TableDef × List (List Cell)) :=
  (w.state.database.table? "memberships").map fun t => (t.definition, t.rows)

def declaration : TableDef :=
  ⟨"memberships", [⟨"user_name", "TEXT", false, none, true, []⟩,
    ⟨"team_id", "INTEGER", false, none, true, []⟩], ["user_name", "team_id"]⟩

theorem removal_by_first_key_members :
    ∃ w', (memberships.remove Store.wrap.backend [[.text "ann", .int 1]]).on
        (enrolled [[.text "ann", .int 1], [.text "bob", .int 1]]) = (.ok 1, w') ∧
      (w'.state.database.table? "memberships").map (·.rows) = some [[.text "bob", .int 1]] := by
  have before : stored (enrolled [[.text "ann", .int 1], [.text "bob", .int 1]]) =
      some (declaration, [[.text "ann", .int 1], [.text "bob", .int 1]]) := by
    decide +kernel
  obtain ⟨t, found, same⟩ := Option.map_eq_some_iff.mp before
  obtain ⟨declared, rows⟩ := Prod.mk.inj same
  obtain ⟨-, -, takes⟩ := removal_by_first_key memberships _ [[.text "ann", .int 1]] _
    fun t' found' f inside primary => by
      obtain rfl := Option.some.inj (found.symm.trans found')
      rw [declared]
      exact (by decide : ∀ f ∈ members.entity.fields, f.primaryKey = true →
        (declaration.index? f.column).isSome) f inside primary
  obtain ⟨-, removes, -, -⟩ := takes 0 t (List.cons_ne_nil _ _) rfl found
  have ran : (memberships.remove Store.wrap.backend [[.text "ann", .int 1]]).on
      (enrolled [[.text "ann", .int 1], [.text "bob", .int 1]]) = (.ok 1, _) :=
    Task.ok_of_toOption (by decide +kernel)
  obtain ⟨-, after, -⟩ := removes 1 _ ran
  refine ⟨_, ran, (congrArg _ after).trans ?_⟩
  rw [Option.map_some, remaining, rows, declared]
  dsimp only
  decide +kernel

/-- A removal of one membership takes the other memberships of the same user along. -/
theorem removal_takes_shared_first_key :
    stored (enrolled [[.text "ann", .int 1], [.text "ann", .int 2]]) =
        some (declaration, [[.text "ann", .int 1], [.text "ann", .int 2]]) ∧
      Record.hasKey Store.wrap.repository.types members.entity declaration [.text "ann", .int 1]
        [.text "ann", .int 2] = false ∧
      let w := ((memberships.remove Store.wrap.backend [[.text "ann", .int 1]]).on
        (enrolled [[.text "ann", .int 1], [.text "ann", .int 2]])).2
      stored w = some (declaration, []) := by
  decide +kernel

end Collection

end EntityStore
