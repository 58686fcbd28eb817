import EntityStore.Proofs.Engine.Execution
import EntityStore.Proofs.Engine.Guarding
import EntityStore.Proofs.Repository.Recording

namespace EntityStore

open Schema (ofEntities_ok ofEntities_there)
open Sql (Command)
open Text (sameIgnoringCase)

/-- The first key of a type is an integer that the database generates, and goes by its column alone:
nothing is written into it. -/
structure Entity.Generates (e : Entity) (column : String) : Prop where
  key : ∃ f, e.key? = some f ∧ f.column = column ∧ f.type = .integer ∧ f.generated = true
  apart : ∀ f ∈ e.insertedFields, sameIgnoringCase f.column column = false

namespace Engine

/-- What becomes of the keys of a table: one is given out, or the table is rebuilt with those that
its rows have. -/
inductive Entry
  | generated (key : Value)
  | rebuilt (keys : List Int)
  deriving DecidableEq

namespace Entry

/-- The keys to be told apart from later ones. A rebuilt table knows those of its rows alone. -/
def note (known : List Value) : Entry → List Value
  | .generated key => known ++ [key]
  | .rebuilt keys => keys.map .int

/-- The keys since the last rebuild, with those at it. -/
def known (log : List Entry) : List Value := log.foldl note []

variable {log : List Entry} {k n : Int}

theorem known_append (log : List Entry) (e : Entry) : known (log ++ [e]) = note (known log) e := by
  rw [known, List.foldl_append]
  rfl

/-- A key is known until the next rebuild. -/
theorem mem_known_or_rebuilt (before middle : List Entry) (v : Value) :
    v ∈ known (before ++ .generated v :: middle) ∨
      ∃ keys, .rebuilt keys ∈ middle ∧
        ∀ n ∈ keys, .int n ∈ known (before ++ .generated v :: middle) := by
  induction middle using List.reverseRecOn with
  | nil =>
    rw [known_append]
    exact .inl (List.mem_append_right _ (List.mem_singleton_self v))
  | append_singleton middle e ih =>
    rw [← List.cons_append, ← List.append_assoc, known_append]
    cases e with
    | generated u =>
      refine ih.imp (List.mem_append_left _) fun ⟨keys, there, all⟩ => ?_
      exact ⟨keys, List.mem_append_left _ there, fun n hn => List.mem_append_left _ (all n hn)⟩
    | rebuilt keys =>
      exact .inr ⟨keys, by simp, fun n hn => List.mem_map_of_mem hn⟩

/-- All known keys are integers up to a bound. -/
def UpTo (n : Int) (log : List Entry) : Prop := ∀ v ∈ known log, ∃ k, v = .int k ∧ k ≤ n

/-- Every key that is given out is greater than those that are known. -/
def Rising (log : List Entry) : Prop :=
  ∀ before v after, log = before ++ .generated v :: after →
    ∃ k, v = .int k ∧ ∀ v' ∈ known before, ∃ n, v' = .int n ∧ n < k

theorem upTo_nil : UpTo n [] := List.forall_mem_nil _

theorem rising_nil : Rising [] := by
  intro before v after split
  cases before <;> cases split

theorem UpTo.mono {m : Int} (h : UpTo n log) (le : n ≤ m) : UpTo m log := by
  intro v hv
  obtain ⟨k, same, below⟩ := h v hv
  exact ⟨k, same, below.trans le⟩

theorem Rising.append {e : Entry} (rising : Rising log)
    (last : ∀ v, e = .generated v → ∃ k, v = .int k ∧ ∀ v' ∈ known log, ∃ n, v' = .int n ∧ n < k) :
    Rising (log ++ [e]) := by
  intro before v after split
  rcases List.eq_nil_or_concat after with rfl | ⟨init, e', rfl⟩
  · obtain ⟨rfl, same⟩ := List.append_inj' split rfl
    exact last v (List.singleton_inj.mp same)
  · rw [List.concat_eq_append, ← List.cons_append, ← List.append_assoc] at split
    exact rising before v init (List.append_inj' split rfl).1

/-- A key above the bound goes on a rising log, and is the new bound. -/
theorem rising_generated (rising : Rising log) (upTo : UpTo n log) (less : n < k) :
    Rising (log ++ [.generated (.int k)]) ∧ UpTo k (log ++ [.generated (.int k)]) := by
  refine ⟨rising.append fun v same => ?_, ?_⟩
  · cases same
    refine ⟨k, rfl, fun v' hv' => ?_⟩
    obtain ⟨m, same, below⟩ := upTo v' hv'
    exact ⟨m, same, below.trans_lt less⟩
  · rw [UpTo, known_append]
    refine List.forall_mem_append.mpr ⟨upTo.mono less.le, ?_⟩
    exact List.forall_mem_singleton.mpr ⟨k, rfl, le_refl k⟩

/-- So do several keys that rise above the bound. -/
theorem rising_generated_all {keys : List Int} (rising : Rising log) (upTo : UpTo n log)
    (chain : (n :: keys).IsChain (· < ·)) {m : Int} (le : n ≤ m) (least : ∀ k ∈ keys, k ≤ m) :
    Rising (log ++ keys.map fun k => .generated (.int k)) ∧
      UpTo m (log ++ keys.map fun k => .generated (.int k)) := by
  induction keys generalizing log n with
  | nil =>
    rw [List.map_nil, List.append_nil]
    exact ⟨rising, upTo.mono le⟩
  | cons k keys ih =>
    obtain ⟨less, chain⟩ := List.isChain_cons_cons.mp chain
    obtain ⟨own, others⟩ := List.forall_mem_cons.mp least
    obtain ⟨rising, upTo⟩ := rising_generated rising upTo less
    rw [List.map_cons, List.append_cons]
    exact ih rising upTo chain own others

theorem rising_rebuilt {keys : List Int} (rising : Rising log) :
    Rising (log ++ [.rebuilt keys]) :=
  rising.append fun v same => by cases same

theorem upTo_rebuilt {keys : List Int} (least : ∀ k ∈ keys, k ≤ n) :
    UpTo n (log ++ [.rebuilt keys]) := by
  rw [UpTo, known_append]
  refine List.forall_mem_map.mpr fun k hk => ⟨k, rfl, least k hk⟩

end Entry

open Entry (Rising UpTo known rising_generated_all rising_rebuilt upTo_rebuilt)

/-- The integers that the rows of a table have in a column, none if there is no table. -/
def Database.keysIn (db : Database) (table column : String) : List Int :=
  match db.table? table with
  | some t => t.keysIn column
  | none => []

/-- The keys that an insertion into a table answered. -/
def generatedIn (table : String) (a : Answer) : List Entry :=
  if a.statement.command.targets.any (sameIgnoringCase · table) then
    a.rows.filterMap fun row => (row.valueAt? 0).map .generated
  else []

/-- The keys that the insertions of records into a table answer. -/
def addedIn (table : String) (s : Store) (type : RecordType) (records : List Record)
    (w : World Connection) : List Entry :=
  let done := (Collection.addAll ⟨s.repository, type⟩ s.backend.recording records) (w.recorded [])
  done.2.state.answers.flatMap (generatedIn table)

/-- The keys of the rows that a plan finds if it rebuilds a table. -/
def rebuiltIn (table column : String) (db : Database) (plan : Plan) : List Entry :=
  if plan.any (Step.rebuilds table) then [.rebuilt (db.keysIn table column)] else []

/-- Some use of a database whose entities keep a generated key column in a table: records are added
and removed, and the schema is changed, while the log of the table's keys grows. -/
inductive Used (s : Store) (table column : String) (w : World Connection) :
    List Entry → World Connection → Prop
  | start : Used s table column w [] w
  | added {log : List Entry} {w' : World Connection} (type : RecordType) (records : List Record) :
      (sameIgnoringCase type.entity.id.table table = true → type.entity.hasGeneratedKey = true →
        type.entity.Generates column) →
      Used s table column w log w' →
      Used s table column w
        (log ++ addedIn table s type records w')
        ((Collection.addAll ⟨s.repository, type⟩ s.backend records) w').2
  | removed {log : List Entry} {w' : World Connection} (type : RecordType) (records : List Record) :
      Used s table column w log w' →
      Used s table column w log
        ((Collection.remove ⟨s.repository, type⟩ s.backend records).on w').2
  | changed {log : List Entry} {w' w'' : World Connection} {entities : List Entity} {plan : Plan} :
      (∃ e ∈ entities, e.id.table = table) →
      (∀ e ∈ entities, e.id.table = table → e.Generates column) →
      (s.create entities).on w' = (.ok plan, w'') ∨ (s.upgrade entities).on w' = (.ok plan, w'') →
      Used s table column w log w' →
      Used s table column w (log ++ rebuiltIn table column w'.state.database plan) w''

/-- What the use of a database keeps: the table guards its key column, and its sequence is a bound of
the known keys where it gives out keys. -/
structure Kept (table column : String) (log : List Entry) (db : Database) : Prop where
  tidy : Tidy db.definitions
  rising : Rising log
  guarded : Guarded db table column
  absent : db.table? table = none → log = []
  upTo : ∀ t i, db.table? table = some t → t.definition.Guards column i →
    t.definition.rowKey? = some i → UpTo t.sequence log

section

variable {table column : String} {log : List Entry} {db db' : Database} {enforced : Bool}
  {outcome : Outcome}

theorem Kept.of_unlinked (kept : Kept table column log db) (tidy : Tidy db'.definitions)
    (same : (db'.table? table).map (·.unlinked) = (db.table? table).map (·.unlinked)) :
    Kept table column log db' := by
  have before {t' : StoredTable} (there : db'.table? table = some t') :
      ∃ t, db.table? table = some t ∧ t'.unlinked = t.unlinked := by
    rw [there] at same
    obtain ⟨t, found, equal⟩ := Option.map_eq_some_iff.mp same.symm
    exact ⟨t, found, equal.symm⟩
  refine ⟨tidy, kept.rising, fun t' there => ?_, fun none => ?_, fun t' i there guards key => ?_⟩
  · obtain ⟨t, found, equal⟩ := before there
    obtain ⟨name, i, guards⟩ := kept.guarded t found
    exact ⟨(StoredTable.name_of_unlinked equal).trans name, i,
      (StoredTable.guards_of_unlinked equal).mpr guards⟩
  · rw [none, Option.map_none, eq_comm, Option.map_eq_none_iff] at same
    exact kept.absent same
  · obtain ⟨t, found, equal⟩ := before there
    rw [StoredTable.sequence_of_unlinked equal]
    exact kept.upTo t i found ((StoredTable.guards_of_unlinked equal).mp guards)
      ((StoredTable.rowKey?_of_unlinked equal).symm.trans key)

/-- Only rows of the table have changed, and its sequence has not fallen. -/
theorem Kept.of_rows {t t' : StoredTable} {entries : List Entry} (kept : Kept table column log db)
    (tidy : Tidy db'.definitions) (there : db.table? table = some t)
    (there' : db'.table? table = some t') (same : t'.definition = t.definition)
    (rising : ∀ i, t.definition.Guards column i → Rising (log ++ entries) ∧
      (t.definition.rowKey? = some i → UpTo t'.sequence (log ++ entries))) :
    Kept table column (log ++ entries) db' := by
  obtain ⟨name, i, guards⟩ := kept.guarded t there
  have name' : t'.name = table := (congrArg Sql.TableDef.name same).trans name
  refine ⟨tidy, (rising i guards).1, fun t'' found => ?_, fun none => ?_,
    fun t'' j found guards' key => ?_⟩
  · obtain rfl := Option.some.inj (there'.symm.trans found)
    exact ⟨name', i, same ▸ guards⟩
  · rw [there'] at none
    cases none
  · obtain rfl := Option.some.inj (there'.symm.trans found)
    exact (rising j (same ▸ guards')).2 (same ▸ key)

/-- A deletion from whatever table forgets no key. -/
theorem Kept.delete {name : String} {filter : Option (Sql.Expr Cell)}
    (kept : Kept table column log db)
    (h : db.run enforced (.delete name filter) = .ok (db', outcome)) :
    Kept table column log db' := by
  have plain : (Command.delete name filter : Command Cell).Plain := trivial
  have tidy := Database.tidy_run kept.tidy plain h
  cases own : sameIgnoringCase name table with
  | false =>
    exact kept.of_unlinked tidy (Database.run_elsewhere h (List.forall_mem_singleton.mpr own))
  | true =>
    obtain ⟨⟨_, n⟩, deleted, h⟩ := Except.bind_eq_ok.mp h
    cases h
    obtain ⟨t, rows, found, rfl⟩ := Database.deleteRows_ok deleted
    rw [Database.table?_congr own] at found
    have there : (db.put { t with rows := rows }).table? table = some { t with rows := rows } :=
      Database.table?_put (Database.table?_name found :) found
    have none : log ++ [] = log := List.append_nil log
    rw [← none]
    refine kept.of_rows tidy found there rfl fun i guards => ?_
    rw [none]
    exact ⟨kept.rising, kept.upTo t i found guards⟩

/-- What an insertion needs to know of a type that generates a key: it asks for the column of the
key, and writes nothing into it. -/
theorem lacking_of_generates {e : Entity} {t : StoredTable} {i : Nat}
    (generates : e.hasGeneratedKey = true → e.Generates column) (tidy : t.definition.Tidy)
    (guards : t.definition.Guards column i) :
    ∀ key ∈ e.returning .sqlite, t.definition.index? key = some i ∧
      ∀ c ∈ e.insertedFields.map (·.column), t.definition.index? c ≠ some i := by
  intro key asked
  obtain ⟨f, first, generated, named⟩ : ∃ f, e.key? = some f ∧ f.generated = true ∧
      f.column = key := by
    have asked : (e.key?.filter (·.generated)).map (·.column) = some key := asked
    obtain ⟨f, chosen, named⟩ := Option.map_eq_some_iff.mp asked
    obtain ⟨first, generated⟩ := Option.filter_eq_some_iff.mp chosen
    exact ⟨f, first, generated, named⟩
  have keyed : e.Generates column := by
    refine generates ?_
    rw [Entity.hasGeneratedKey, first]
    exact generated
  obtain ⟨f', first', column', -, -⟩ := keyed.key
  obtain rfl := Option.some.inj (first.symm.trans first')
  obtain rfl : column = key := column'.symm.trans named
  refine ⟨guards.place, List.forall_mem_map.mpr fun f' inserted place => ?_⟩
  obtain ⟨c, there, named, -⟩ := guards.named
  have same := (index?_eq_some tidy there f'.column).mp place
  rw [named, Text.sameIgnoringCase_comm, keyed.apart f' inserted] at same
  cases same

/-- The rows that an insertion answers carry the keys that were given out, unless the statement was
prepared without a name for them. -/
theorem answered_keys {keys : List Int} (h : outcome.rows = keys.map fun k => [.int k])
    (names : List String) :
    ((outcome.named names).filterMap fun row => (row.valueAt? 0).map Entry.generated) =
      if names.isEmpty then [] else keys.map fun k => .generated (.int k) := by
  rw [Outcome.named, h, List.map_map, List.filterMap_map]
  cases names with
  | nil => exact List.filterMap_eq_nil_iff.mpr fun _ _ => rfl
  | cons name names =>
    rw [List.isEmpty_cons, if_neg Bool.false_ne_true, ← List.filterMap_eq_map]
    rfl

/-- Keys that an insertion gives out go on the log. -/
theorem Kept.insert {e : Entity} {rows : List (List Cell)} {names : List String}
    {statement : Statement} (kept : Kept table column log db)
    (generates : sameIgnoringCase e.id.table table = true → e.hasGeneratedKey = true →
      e.Generates column)
    (targets : statement.command.targets = [e.id.table])
    (h : db.run enforced (.insert e.id.table (e.insertedFields.map (·.column)) rows
      (e.returning .sqlite)) = .ok (db', outcome)) :
    Kept table column (log ++ generatedIn table ⟨statement, outcome.named names⟩) db' := by
  have plain : (Command.insert e.id.table (e.insertedFields.map (·.column)) rows
    (e.returning .sqlite) : Command Cell).Plain := trivial
  have tidy := Database.tidy_run kept.tidy plain h
  rw [generatedIn, targets, List.any_cons, List.any_nil, Bool.or_false]
  cases own : sameIgnoringCase e.id.table table with
  | false =>
    rw [if_neg Bool.false_ne_true, List.append_nil]
    exact kept.of_unlinked tidy (Database.run_elsewhere h (List.forall_mem_singleton.mpr own))
  | true =>
    rw [if_pos rfl]
    obtain ⟨⟨_, _, written⟩, inserted, -⟩ := Except.bind_eq_ok.mp h
    obtain ⟨t, found, -⟩ := Database.insertRows_ok inserted
    have there : db.table? table = some t := (Database.table?_congr own).symm.trans found
    obtain ⟨-, i, guards⟩ := kept.guarded t there
    have known := kept.tidy.each _ (Database.definition_of_found there)
    obtain ⟨t', keys, found', same, answers, gives, grows, chain, least⟩ :=
      Database.run_insert found guards (lacking_of_generates (generates own) known guards) h
    have there' : db'.table? table = some t' := (Database.table?_congr own).symm.trans found'
    rw [answered_keys answers]
    refine kept.of_rows tidy there there' same fun j guards' => ?_
    obtain rfl : i = j := Option.some.inj (guards.place.symm.trans guards'.place)
    have quiet : Rising (log ++ []) ∧
        (t.definition.rowKey? = some i → UpTo t'.sequence (log ++ [])) := by
      rw [List.append_nil]
      exact ⟨kept.rising, fun key => (kept.upTo t i there guards key).mono grows⟩
    split
    · exact quiet
    · cases keys with
      | nil => exact quiet
      | cons k keys =>
        have key := gives (List.cons_ne_nil k keys)
        obtain ⟨rising, upTo⟩ :=
          rising_generated_all kept.rising (kept.upTo t i there guards key) chain grows least
        exact ⟨rising, fun _ => upTo⟩

end

section

variable {table column : String} {log : List Entry} {types : TypeMap}

/-- Deletions preserve what is kept. -/
theorem preserves_deletion {d : Dialect} {q : Query} {command : Command Param}
    (made : q.delete = .ok command) :
    Task.Preserves (fun c : Connection => Kept table column log c.database)
      ((Connection.backend types).execute (.ofCommand d command)) := by
  obtain ⟨f, -, made⟩ := Except.bind_eq_ok.mp made
  cases made
  refine Task.Preserves.bind (fun w start => ?_) fun a => .pure _
  generalize result : (Connection.execute types _).on w = done
  obtain ⟨e | ⟨outcome, names⟩, w₁⟩ := done
  · change Kept table column log w₁.state.database
    rw [Connection.execute_error types _ w result]
    exact start
  · obtain ⟨cells, encoded, ran⟩ := Connection.execute_ran types _ _ result
    obtain ⟨filter, -, encoded⟩ := Except.bind_eq_ok.mp encoded
    cases encoded
    exact Kept.delete start ran

/-- So do insertions, once the keys that they answered are on the log. -/
theorem preserves_insertion {e : Entity} {records : List Record} {command : Command Param}
    (generates : sameIgnoringCase e.id.table table = true → e.hasGeneratedKey = true →
      e.Generates column) (made : e.insert .sqlite records = .ok command) :
    Task.Preserves (fun c : Recorded Connection =>
        Kept table column (log ++ c.answers.flatMap (generatedIn table)) c.state.database)
      ((Connection.backend types).recording.insert (.ofCommand .sqlite command)) := by
  obtain rfl := Entity.insert_ok made
  intro w start
  rw [Backend.on_recording_insert]
  have insert : (Connection.backend types).insert = Connection.rows types := rfl
  rw [insert, Connection.rows_on]
  generalize result : (Connection.execute types _).on w.plain = done
  obtain ⟨e' | ⟨outcome, names⟩, w₁⟩ := done
  · change Kept table column _ w₁.state.database
    rw [Connection.execute_error types _ _ result]
    exact start
  · obtain ⟨cells, encoded, ran⟩ := Connection.execute_ran types _ _ result
    obtain ⟨rows, -, encoded⟩ := Except.bind_eq_ok.mp encoded
    cases encoded
    change Kept table column (log ++ (_ ++ [_]).flatMap _) w₁.state.database
    rw [List.flatMap_append, List.flatMap_singleton, ← List.append_assoc]
    exact Kept.insert start generates rfl ran

/-- The key that a type generates has a column of its own. -/
theorem generated_of_entity {e : Entity} {t : Table} (generates : e.Generates column)
    (made : Table.ofEntity e .sqlite = .ok t) : ∃ c ∈ t.columns, c.name = column ∧ c.Generated := by
  obtain ⟨f, first, rfl, type, generated⟩ := generates.key
  have key : f.primaryKey = true := List.find?_some (p := fun f : Field => f.primaryKey) first
  obtain ⟨c, hc, known, own⟩ := Table.field_has_column made (List.mem_of_find?_eq_some first)
  rw [type] at known
  have declared : c.sqlType = "INTEGER" := (Except.ok.inj known).symm
  rw [own, declared] at hc
  refine ⟨_, hc, rfl, rfl, key, ?_, ?_⟩
  · simp [Column.ofField, key, generated]
  · simp [Column.ofField, key]

/-- A change of the schema that asks for the table leaves one that guards its key. -/
theorem Kept.changed {s : Store} (plain : s.repository = .of .sqlite) {entities : List Entity}
    {plan : Plan} {w w' : World Connection} (kept : Kept table column log w.state.database)
    (asked : ∃ e ∈ entities, e.id.table = table)
    (each : ∀ e ∈ entities, e.id.table = table → e.Generates column)
    (h : (s.create entities).on w = (.ok plan, w') ∨ (s.upgrade entities).on w = (.ok plan, w')) :
    Kept table column (log ++ rebuiltIn table column w.state.database plan) w'.state.database := by
  obtain ⟨expected, actual, enforced, wanted, planned, read, ran⟩ :=
    Store.ran_of_change plain kept.tidy h
  obtain ⟨e, he, rfl⟩ := asked
  obtain ⟨u, some⟩ := ofEntities_there wanted he
  obtain ⟨named, e', he', made⟩ := ofEntities_ok wanted some
  have generates := each e' he' (named ▸ (Table.ofEntity_name made).symm)
  obtain ⟨c, hc, rfl, generated⟩ := generated_of_entity generates made
  rw [← named] at some kept ⊢
  obtain ⟨t', there', name, ⟨i, guards⟩, resumes⟩ :=
    ran_plan_keys (fun name t some => (ofEntities_ok wanted some).1) rfl planned kept.tidy read some
      (expected_of_entity made) hc generated kept.guarded ran
  have only {t : StoredTable} (found : w'.state.database.table? u.name = Option.some t) : t = t' :=
    Option.some.inj (found.symm.trans there')
  refine ⟨Store.tidy_of_change plain kept.tidy h, ?_, fun t found => only found ▸ ⟨name, i, guards⟩,
    fun none => ?_, fun t j found guards' key => ?_⟩
  · unfold rebuiltIn
    split
    · exact rising_rebuilt kept.rising
    · rw [List.append_nil]
      exact kept.rising
  · rw [there'] at none
    cases none
  · obtain rfl := only found
    unfold rebuiltIn Database.keysIn
    cases there : w.state.database.table? u.name with
    | none =>
      rw [kept.absent there]
      split
      · exact upTo_rebuilt (List.forall_mem_nil _)
      · exact Entry.upTo_nil
    | some t₀ =>
      cases resumes t₀ there with
      | kept k quiet continues =>
        obtain rfl : j = k := Option.some.inj (guards'.place.symm.trans continues.after.place)
        rw [quiet, if_neg Bool.false_ne_true, List.append_nil, continues.sequence]
        exact kept.upTo t₀ j there continues.before (continues.rowKey.symm.trans key)
      | anew k made _ guards₁ above =>
        obtain rfl : j = k := Option.some.inj (guards'.place.symm.trans guards₁.place)
        rw [made, if_pos rfl]
        exact upTo_rebuilt (above key)

/-- Whatever is done with the database, its keys are kept. -/
theorem Used.kept {s : Store} (plain : s.repository = .of .sqlite) {w w' : World Connection}
    (reached : s.Reached w) (guarded : Guarded w.state.database table column)
    (used : Used s table column w log w') : Kept table column log w'.state.database := by
  induction used with
  | start =>
    exact ⟨reached.tidy plain, Entry.rising_nil, guarded, fun _ => rfl,
      fun _ _ _ _ _ => Entry.upTo_nil⟩
  | @added log w' type records generates _ ih =>
    have inserts : ∀ records command, type.entity.insert s.repository.dialect records = .ok command →
        Task.Preserves (fun c : Recorded Connection =>
            Kept table column (log ++ c.answers.flatMap (generatedIn table)) c.state.database)
          (s.backend.recording.insert (s.repository.statement command)) := by
      rw [plain]
      exact fun _ _ made => preserves_insertion generates made
    have start : Kept table column (log ++ [].flatMap (generatedIn table)) w'.state.database := by
      rwa [List.flatMap_nil, List.append_nil]
    have after := Storable.addAll_preserves (t := type.storable) inserts records
      (w'.recorded []) start
    have plainly := (Storable.addAll_recording type.storable s.repository s.backend records
      (w'.recorded [])).2
    change Kept table column _
      ((type.storable.addAll s.repository s.backend records) (w'.recorded []).plain).2.state.database
    rw [← plainly]
    exact after
  | @removed log w' type records _ ih =>
    have deletes : ∀ (q : Query) command, q.delete = .ok command →
        Task.Preserves (fun c : Connection => Kept table column log c.database)
          (s.backend.execute (s.repository.statement command)) :=
      fun _ _ made => preserves_deletion made
    exact Collection.remove_preserves (c := ⟨s.repository, type⟩) deletes records w' ih
  | changed asked each changed _ ih => exact ih.changed plain asked each changed

/-- Generated keys rise between rebuilds of their table. A key that is given out is greater than all
that were given out since the last rebuild, and than all that the rows had then; one that was given
out before is given out again only after a rebuild that found no row with it. -/
theorem generated_keys_rise {s : Store} (plain : s.repository = .of .sqlite)
    {w w' : World Connection} (reached : s.Reached w)
    (guarded : Guarded w.state.database table column) (used : Used s table column w log w')
    {before after : List Entry} {v : Value} (given : log = before ++ .generated v :: after) :
    (∃ k, v = .int k ∧ ∀ v' ∈ known before, ∃ n, v' = .int n ∧ n < k) ∧
      ∀ earlier middle, before = earlier ++ .generated v :: middle →
        ∃ keys, .rebuilt keys ∈ middle ∧ ∀ n ∈ keys, v ≠ .int n := by
  obtain ⟨k, rfl, greater⟩ := (used.kept plain reached guarded).rising before v after given
  have fresh : Value.int k ∉ known before := by
    intro again
    obtain ⟨n, same, less⟩ := greater _ again
    cases same
    exact less.false
  refine ⟨⟨k, rfl, greater⟩, fun earlier middle split => ?_⟩
  subst split
  obtain ⟨keys, there, all⟩ :=
    (Entry.mem_known_or_rebuilt earlier middle (.int k)).resolve_left fresh
  exact ⟨keys, there, fun n hn same => fresh (same ▸ all n hn)⟩

end

section

open Store (wrap opened)

def role : RecordType :=
  ⟨⟨⟨"Role", "roles"⟩, [((Field.named "id" .integer).asPrimaryKey).asGenerated,
    .named "description" .text]⟩, [.int64, .text], some .int64⟩

/-- Roles once had a colour. -/
def colouredRole : RecordType :=
  ⟨⟨⟨"Role", "roles"⟩, [((Field.named "id" .integer).asPrimaryKey).asGenerated,
    .named "description" .text, (Field.named "colour" .text).asNullable]⟩,
    [.int64, .text, .nullable .text], some .int64⟩

/-- The table of coloured roles, and what becomes of it. -/
def colourPlan : Plan :=
  [.createTable ⟨"roles",
    [((Column.named "id" "INTEGER").typed .integer).asPrimaryKey.asAutoIncrement,
      ((Column.named "description" "TEXT").typed .text).notNull,
      (Column.named "colour" "TEXT").typed .text]⟩]

def plainPlan : Plan :=
  [.rebuildTable ⟨"roles",
      [((Column.named "id" "INTEGER").typed .integer).asPrimaryKey.asAutoIncrement,
        ((Column.named "description" "TEXT").typed .text).notNull]⟩
    [⟨"id", some .integer, .existing⟩, ⟨"description", some .text, .existing⟩]]

def twoRoles : List Record :=
  [[.int 0, .text "author", .null], [.int 0, .text "editor", .null]]

def lastRole : List Record := [[.int 2, .text "editor", .null]]

def thirdRole : List Record := [[.int 0, .text "reviewer"]]

section

variable (s : Store)

/-- Two roles go into a new database, the last one is removed, roles lose their colour, and a third
one goes in. -/
def begun : World Connection := ((s.upgrade [colouredRole.entity]).on opened).2

def staffed : World Connection :=
  (Collection.addAll ⟨s.repository, colouredRole⟩ s.backend twoRoles (begun s)).2

def reduced : World Connection :=
  ((Collection.remove ⟨s.repository, colouredRole⟩ s.backend lastRole).on (staffed s)).2

def repainted : World Connection := ((s.upgrade [role.entity]).on (reduced s)).2

def restaffed : World Connection :=
  (Collection.addAll ⟨s.repository, role⟩ s.backend thirdRole (repainted s)).2

variable {s}

theorem restaffed_used (begins : ((s.upgrade [colouredRole.entity]).on opened).1.toOption =
      some colourPlan)
    (repaints : ((s.upgrade [role.entity]).on (reduced s)).1.toOption = some plainPlan) :
    Used s "roles" "id" opened
      (addedIn "roles" s colouredRole twoRoles (begun s) ++
        .rebuilt ((reduced s).state.database.keysIn "roles" "id") ::
          addedIn "roles" s role thirdRole (repainted s)) (restaffed s) := by
  have generates : colouredRole.entity.Generates "id" := ⟨⟨_, rfl, rfl, rfl, rfl⟩, by decide⟩
  have generates' : role.entity.Generates "id" := ⟨⟨_, rfl, rfl, rfl, rfl⟩, by decide⟩
  have begins : Used s "roles" "id" opened [] (begun s) :=
    .changed ⟨_, List.mem_singleton_self _, rfl⟩
      (List.forall_mem_singleton.mpr fun _ => generates) (.inr (Task.ok_of_toOption begins)) .start
  have reduces : Used s "roles" "id" opened (addedIn "roles" s colouredRole twoRoles (begun s))
      (reduced s) :=
    (begins.added colouredRole twoRoles fun _ _ => generates).removed colouredRole lastRole
  have repaints := (reduces.changed ⟨_, List.mem_singleton_self _, rfl⟩
    (List.forall_mem_singleton.mpr fun _ => generates') (.inr (Task.ok_of_toOption repaints))).added
      role thirdRole fun _ _ => generates'
  rw [List.append_assoc] at repaints
  exact repaints

end

theorem restaffed_wrapped :
    Used wrap "roles" "id" opened
      [.generated (.int 1), .generated (.int 2), .rebuilt [1], .generated (.int 2)]
      (restaffed wrap) := by
  obtain ⟨begins, repaints, two, one, again⟩ :
      ((wrap.upgrade [colouredRole.entity]).on opened).1.toOption = some colourPlan ∧
      ((wrap.upgrade [role.entity]).on (reduced wrap)).1.toOption = some plainPlan ∧
      addedIn "roles" wrap colouredRole twoRoles (begun wrap) =
        [.generated (.int 1), .generated (.int 2)] ∧
      (reduced wrap).state.database.keysIn "roles" "id" = [1] ∧
      addedIn "roles" wrap role thirdRole (repainted wrap) = [.generated (.int 2)] := by
    decide +kernel
  have used := restaffed_used begins repaints
  rw [two, one, again] at used
  exact used

theorem generated_keys_rise_restaffed :
    (∃ k, Value.int 2 = .int k ∧
        ∀ v' ∈ known [.generated (.int 1), .generated (.int 2), .rebuilt [1]],
          ∃ n, v' = .int n ∧ n < k) ∧
      ∀ earlier middle, [.generated (.int 1), .generated (.int 2), .rebuilt [1]] =
          earlier ++ Entry.generated (.int 2) :: middle →
        ∃ keys, .rebuilt keys ∈ middle ∧ ∀ n ∈ keys, Value.int 2 ≠ .int n := by
  have guarded : Guarded opened.state.database "roles" "id" := by
    intro t none
    cases none
  have given : [.generated (.int 1), .generated (.int 2), .rebuilt [1], .generated (.int 2)] =
      [.generated (.int 1), .generated (.int 2), .rebuilt [1]] ++ [Entry.generated (.int 2)] := rfl
  exact generated_keys_rise rfl (.opened true true []) guarded restaffed_wrapped given

/-- A key comes again if its row was removed before a rebuild. -/
theorem removed_key_comes_again :
    ∃ log w' before middle after v, Used wrap "roles" "id" opened log w' ∧
      log = before ++ .generated v :: (middle ++ .generated v :: after) :=
  ⟨_, restaffed wrap, [.generated (.int 1)], [.rebuilt [1]], [], .int 2, restaffed_wrapped, rfl⟩

end

end Engine

end EntityStore
