import EntityStore.Repository.Collection
import EntityStore.Repository.Scripted
import EntityStore.Proofs.Repository.Task
import EntityStore.Proofs.Query.Binding

namespace EntityStore

theorem Sql.listSlots_operands {α : Type} (words : String) (operands : List α) :
    (listSlots words operands).map (·.operand) = operands := by
  cases operands with
  | nil => rfl
  | cons a as => simp [listSlots, Function.comp_def]

/-- An insertion binds the values of its rows, in order. -/
theorem Entity.params_insert {e : Entity} {d : Dialect} {rows : List (List Value)}
    {c : Sql.Command Param} (h : e.insert d rows = .ok c) :
    (Statement.ofCommand d c).params = rows.flatMap (boundValues e.fields) := by
  have bound : (Statement.ofCommand d c).params = _ := (Request.hasSlots_insert h).operands_eq
  rw [bound, Request.slots, List.map_flatMap]
  simp only [Sql.listSlots_operands]

/-- An insertion that a database is asked for, and what it answers. -/
structure Exchange (ε : Type) where
  statement : Statement
  answer : Except ε (List Row)

/-- From one world to another a database is asked for insertions and for nothing else. Each of them
is noted first. -/
inductive Exchanges {σ ε : Type} (r : Repository) (b : Backend σ ε) :
    World σ → List (Exchange ε) → World σ → Prop
  | nil (w : World σ) : Exchanges r b w [] w
  | cons {w w₁ w₂ : World σ} {x : Exchange ε} {rest : List (Exchange ε)} :
      (b.insert x.statement).on (w.noting [.compiled r.dialect.name x.statement.sql]) =
        (x.answer, w₁) →
      Exchanges r b w₁ rest w₂ → Exchanges r b w (x :: rest) w₂

namespace Storable

variable {σ ε α : Type}

/-- A statement inserts some items: it binds the values of all of them, in order. -/
def Inserts (t : Storable α) (r : Repository) (items : List α) (s : Statement) : Prop :=
  (∃ command, t.entity.insert r.dialect (items.map t.values) = .ok command ∧
    s = r.statement command) ∧
  s.params = items.flatMap fun item => Entity.boundValues t.entity.fields (t.values item)

/-- An item has taken the key in the answer to its insertion. -/
def Keyed (t : Storable α) (item : α) (answer : Except ε (List Row)) (item' : α) : Prop :=
  ∃ row key, answer = .ok [row] ∧ row.valueAt? 0 = some key ∧ t.setKey item key = .ok item'

/-- How the insertion of one item fails: it cannot be written, the database refuses it, the answer is
not one key, or the item does not take the key. -/
inductive Fails (t : Storable α) (r : Repository) (b : Backend σ ε) (item : α) :
    List (Exchange ε) → RepositoryError → Prop
  | unwritten {e : Error} : t.entity.insert r.dialect [t.values item] = .error e →
      Fails t r b item [] (.core e)
  | refused {s : Statement} {e : ε} : t.Inserts r [item] s →
      Fails t r b item [⟨s, .error e⟩] (.executor (b.message e))
  | unkeyed {s : Statement} {rows : List Row} : t.Inserts r [item] s →
      (∀ row, rows = [row] → row.valueAt? 0 = none) →
      Fails t r b item [⟨s, .ok rows⟩] (.generatedKey t.entity.id.name rows.length)
  | untaken {s : Statement} {row : Row} {key : Value} {e : RepositoryError} :
      t.Inserts r [item] s → row.valueAt? 0 = some key → t.setKey item key = .error e →
      Fails t r b item [⟨s, .ok [row]⟩] e

/-- The first `k` items have taken the keys answered to their own insertions, and the others are as
they were. -/
structure KeyedUpTo (t : Storable α) (r : Repository) (k : Nat) (items : List α)
    (exchanges : List (Exchange ε)) (after : List α) : Prop where
  reached : k ≤ items.length
  keyed : ∀ i < k, ∃ item x item', items[i]? = some item ∧ exchanges[i]? = some x ∧
    after[i]? = some item' ∧ t.Inserts r [item] x.statement ∧ t.Keyed item x.answer item'
  others : after.drop k = items.drop k

section

variable {t : Storable α} {r : Repository} {b : Backend σ ε} {item item' : α} {items after : List α}
  {w w₁ : World σ} {x : Exchange ε} {exchanges : List (Exchange ε)}

theorem KeyedUpTo.start (t : Storable α) (r : Repository) (items : List α)
    (exchanges : List (Exchange ε)) : t.KeyedUpTo r 0 items exchanges items :=
  ⟨Nat.zero_le _, fun _ h => absurd h (Nat.not_lt_zero _), rfl⟩

theorem KeyedUpTo.cons {k : Nat} (inserts : t.Inserts r [item] x.statement)
    (keyed : t.Keyed item x.answer item') (rest : t.KeyedUpTo r k items exchanges after) :
    t.KeyedUpTo r (k + 1) (item :: items) (x :: exchanges) (item' :: after) := by
  refine ⟨Nat.succ_le_succ rest.reached, fun i h => ?_, rest.others⟩
  cases i with
  | zero => exact ⟨item, x, item', rfl, rfl, rfl, inserts, keyed⟩
  | succ i => exact rest.keyed i (Nat.lt_of_succ_lt_succ h)

theorem insertion_on (t : Storable α) (r : Repository) (items : List α) (w : World σ) :
    (∃ e, t.entity.insert r.dialect (items.map t.values) = .error e ∧
      (t.insertion r items).on w = (.error (.core e), w)) ∨
    ∃ s, t.Inserts r items s ∧
      (t.insertion r items).on w = (.ok s, w.noting [.compiled r.dialect.name s.sql]) := by
  rw [insertion]
  cases made : t.entity.insert r.dialect (items.map t.values) with
  | error e => exact .inl ⟨e, rfl, rfl⟩
  | ok command =>
    have params := Entity.params_insert made
    rw [List.flatMap_map] at params
    exact .inr ⟨r.statement command, ⟨⟨command, made, rfl⟩, params⟩, r.on_compile command w⟩

theorem keyOf_eq_ok {rows : List Row} {key : Value} :
    t.keyOf rows = .ok key ↔ ∃ row, rows = [row] ∧ row.valueAt? 0 = some key := by
  unfold keyOf
  split
  · rename_i row
    cases first : row.valueAt? 0 <;> simp [first]
  · rename_i several
    simp only [reduceCtorEq, false_iff]
    rintro ⟨row, rfl, -⟩
    exact several row rfl

theorem keyOf_eq_error {rows : List Row} {e : RepositoryError} :
    t.keyOf rows = .error e ↔ (∀ row, rows = [row] → row.valueAt? 0 = none) ∧
      e = .generatedKey t.entity.id.name rows.length := by
  unfold keyOf
  split
  · rename_i row
    cases first : row.valueAt? 0 <;> simp [first, eq_comm]
  · rename_i several
    simp only [Except.error.injEq, eq_comm (a := e), iff_and_self]
    rintro - row rfl
    exact absurd rfl (several row)

/-- One item is asked for at most once, and takes its key or fails. -/
theorem addKeyed_on (t : Storable α) (r : Repository) (b : Backend σ ε) (item : α) (w : World σ) :
    (∃ x item' w₁, t.Inserts r [item] x.statement ∧ t.Keyed item x.answer item' ∧
      Exchanges r b w [x] w₁ ∧ (t.addKeyed r b item).on w = (.ok item', w₁)) ∨
    ∃ exchanges e w₁, t.Fails r b item exchanges e ∧ Exchanges r b w exchanges w₁ ∧
      (t.addKeyed r b item).on w = (.error e, w₁) := by
  rw [addKeyed, Task.on_bind]
  obtain ⟨e, refused, same⟩ | ⟨s, inserts, same⟩ := t.insertion_on r [item] w
  · rw [same]
    exact .inr ⟨[], _, w, .unwritten refused, .nil w, rfl⟩
  · rw [same]
    dsimp only
    rw [Task.on_bind, Backend.on_call]
    rcases asked : (b.insert s).on (w.noting [.compiled r.dialect.name s.sql]) with ⟨answer, w₁⟩
    have exchange : Exchanges r b w [⟨s, answer⟩] w₁ := .cons asked (.nil w₁)
    cases answer with
    | error e => exact .inr ⟨_, _, w₁, .refused inserts, exchange, rfl⟩
    | ok rows =>
      dsimp only [Except.mapError]
      rw [Task.on_ofExcept]
      cases returned : t.keyOf rows with
      | error e =>
        obtain ⟨none, rfl⟩ := keyOf_eq_error.mp returned
        exact .inr ⟨_, _, w₁, .unkeyed inserts none, exchange, rfl⟩
      | ok key =>
        obtain ⟨row, rfl, first⟩ := keyOf_eq_ok.mp returned
        cases taken : t.setKey item key with
        | error e => exact .inr ⟨_, e, w₁, .untaken inserts first taken, exchange,
            congrArg (·, w₁) taken⟩
        | ok item' => exact .inl ⟨_, item', w₁, inserts, ⟨row, key, rfl, first, taken⟩, exchange,
            congrArg (·, w₁) taken⟩

theorem addEach_cons (t : Storable α) (r : Repository) (b : Backend σ ε) (item : α)
    (rest : List α) (w : World σ) :
    (t.addEach r b (item :: rest)) w = match (t.addKeyed r b item).on w with
      | (.ok item', w₁) =>
        let ((outcome, after), w₂) := (t.addEach r b rest) w₁
        ((outcome, item' :: after), w₂)
      | (.error e, w₁) => ((.error e, item :: rest), w₁) := by
  rw [addEach, World.bind_apply, Task.run_apply]
  rcases (t.addKeyed r b item).on w with ⟨e | item', w₁⟩ <;> rfl

/-- Items whose key the database generates go in one by one, others together. -/
theorem addAll_eq (t : Storable α) (r : Repository) (b : Backend σ ε) (items : List α)
    (w : World σ) :
    (t.addAll r b items) w =
      if items.isEmpty then ((.ok (), items), w)
      else if t.entity.hasGeneratedKey then
        let ((outcome, after), w₁) := (t.addEach r b items) w
        match outcome with
        | .ok () => ((.ok (), after), w₁.noting [.inserted t.entity.id.name items.length true])
        | .error e => ((.error e, after), w₁)
      else
        let (outcome, w₁) := (t.addTogether r b items).on w
        ((outcome, items), w₁) := by
  rw [addAll]
  split
  · rfl
  · split
    · rw [World.bind_apply]
      rcases (t.addEach r b items) w with ⟨⟨e | u, after⟩, w₁⟩ <;> rfl
    · rfl

/-- Items go in one by one until one of them fails. -/
theorem addEach_on (t : Storable α) (r : Repository) (b : Backend σ ε) (items : List α)
    (w : World σ) :
    ∃ k exchanges after w₁, Exchanges r b w exchanges w₁ ∧ t.KeyedUpTo r k items exchanges after ∧
      ((k = items.length ∧ exchanges.length = items.length ∧
          (t.addEach r b items) w = ((.ok (), after), w₁)) ∨
        ∃ item e, items[k]? = some item ∧ t.Fails r b item (exchanges.drop k) e ∧
          (t.addEach r b items) w = ((.error e, after), w₁)) := by
  induction items generalizing w with
  | nil => exact ⟨0, [], [], w, .nil w, .start t r [] [], .inl ⟨rfl, rfl, rfl⟩⟩
  | cons item rest ih =>
    rw [addEach_cons]
    obtain ⟨x, item', w₁, inserts, keyed, exchange, same⟩ | ⟨exchanges, e, w₁, fails, asked, same⟩ :=
      t.addKeyed_on r b item w
    · obtain ⟨k, exchanges, after, w₂, asked, upTo, done⟩ := ih w₁
      rw [same]
      dsimp only
      cases exchange with
      | cons first last =>
        cases last
        refine ⟨k + 1, x :: exchanges, item' :: after, w₂, .cons first asked,
          upTo.cons inserts keyed, ?_⟩
        obtain ⟨rfl, length, whole⟩ | ⟨failing, e, there, fails, stopped⟩ := done
        · rw [whole]
          exact .inl ⟨rfl, congrArg (· + 1) length, rfl⟩
        · rw [stopped]
          exact .inr ⟨failing, e, there, fails, rfl⟩
    · rw [same]
      exact ⟨0, exchanges, item :: rest, w₁, asked, .start t r _ _, .inr ⟨item, e, rfl, fails, rfl⟩⟩

theorem addTogether_on (t : Storable α) (r : Repository) (b : Backend σ ε) (items : List α)
    (w : World σ) :
    (∃ e, t.entity.insert r.dialect (items.map t.values) = .error e ∧
      (t.addTogether r b items).on w = (.error (.core e), w)) ∨
    ∃ x w₁, t.Inserts r items x.statement ∧ Exchanges r b w [x] w₁ ∧
      (t.addTogether r b items).on w = match x.answer with
        | .ok _ => (.ok (), w₁.noting [.inserted t.entity.id.name items.length false])
        | .error e => (.error (.executor (b.message e)), w₁) := by
  rw [addTogether, Task.on_bind]
  obtain ⟨e, refused, same⟩ | ⟨s, inserts, same⟩ := t.insertion_on r items w
  · rw [same]
    exact .inl ⟨e, refused, rfl⟩
  · rw [same]
    dsimp only
    rw [Task.on_bind, Backend.on_call]
    rcases asked : (b.insert s).on (w.noting [.compiled r.dialect.name s.sql]) with ⟨answer, w₁⟩
    refine .inr ⟨⟨s, answer⟩, w₁, inserts, .cons asked (.nil w₁), ?_⟩
    cases answer <;> rfl

end

/-- Whatever a database answers, the key that it answers to an item's own statement lands on that
item. Items go in one by one up to the first failure, which is the result; nothing is asked for after
it, and the items from it on are as they were. Where no key is generated, one statement inserts all
items and none changes. -/
theorem keys_on_own_items (t : Storable α) (r : Repository) (b : Backend σ ε) (items : List α)
    (w : World σ) :
    (items = [] → (t.addAll r b items) w = ((.ok (), []), w)) ∧
    (items ≠ [] → t.entity.hasGeneratedKey = true →
      ∃ k exchanges after w₁, Exchanges r b w exchanges w₁ ∧
        t.KeyedUpTo r k items exchanges after ∧
        ((k = items.length ∧ exchanges.length = items.length ∧ (t.addAll r b items) w =
            ((.ok (), after), w₁.noting [.inserted t.entity.id.name items.length true])) ∨
          ∃ item e, items[k]? = some item ∧ t.Fails r b item (exchanges.drop k) e ∧
            (t.addAll r b items) w = ((.error e, after), w₁))) ∧
    (items ≠ [] → t.entity.hasGeneratedKey = false →
      (∃ e, t.entity.insert r.dialect (items.map t.values) = .error e ∧
        (t.addAll r b items) w = ((.error (.core e), items), w)) ∨
      ∃ x w₁, t.Inserts r items x.statement ∧ Exchanges r b w [x] w₁ ∧
        (t.addAll r b items) w = match x.answer with
          | .ok _ => ((.ok (), items), w₁.noting [.inserted t.entity.id.name items.length false])
          | .error e => ((.error (.executor (b.message e)), items), w₁)) := by
  refine ⟨?_, fun some generated => ?_, fun some plain => ?_⟩
  · rintro rfl
    rfl
  · rw [addAll_eq, if_neg (by simpa using some), if_pos generated]
    obtain ⟨k, exchanges, after, w₁, asked, upTo, done⟩ := t.addEach_on r b items w
    refine ⟨k, exchanges, after, w₁, asked, upTo, ?_⟩
    obtain ⟨all, length, whole⟩ | ⟨item, e, there, fails, stopped⟩ := done
    · rw [whole]
      exact .inl ⟨all, length, rfl⟩
    · rw [stopped]
      exact .inr ⟨item, e, there, fails, rfl⟩
  · rw [addAll_eq, if_neg (by simpa using some), plain, if_neg Bool.false_ne_true]
    obtain ⟨e, refused, same⟩ | ⟨x, w₁, inserts, asked, same⟩ := t.addTogether_on r b items w
    · rw [same]
      exact .inl ⟨e, refused, rfl⟩
    · rw [same]
      refine .inr ⟨x, w₁, inserts, asked, ?_⟩
      cases x.answer <;> rfl

/-- Roles by their numbers. -/
def roles : Storable (Int × String) where
  entity := ⟨⟨"Role", "roles"⟩,
    [(Field.named "id" .integer).asPrimaryKey.asGenerated, .named "description" .text]⟩
  values role := [.int role.1, .text role.2]
  setKey
    | role, .int n => .ok (n, role.2)
    | _, _ => .error (.decode "id" (.custom "not a number"))

/-- A database that answers with one key, then with two at once. -/
def answering : World Script :=
  ⟨{ Script.silent with keys := [[⟨[("id", .int 7)]⟩], [⟨[("id", .int 8)]⟩, ⟨[("id", .int 9)]⟩]] }, []⟩

theorem keys_on_own_items_roles :
    [((0 : Int), "admin"), (0, "guest"), (0, "editor")] ≠ [] ∧ roles.entity.hasGeneratedKey = true ∧
      ∃ k exchanges w₁, Exchanges (.of .sqlite) Script.backend answering exchanges w₁ ∧
        roles.KeyedUpTo (.of .sqlite) k [(0, "admin"), (0, "guest"), (0, "editor")] exchanges
          [(7, "admin"), (0, "guest"), (0, "editor")] ∧
        (roles.addAll (.of .sqlite) Script.backend [(0, "admin"), (0, "guest"), (0, "editor")])
            answering =
          ((.error (.generatedKey "Role" 2), [(7, "admin"), (0, "guest"), (0, "editor")]), w₁) := by
  have some : [((0 : Int), "admin"), (0, "guest"), (0, "editor")] ≠ [] := List.cons_ne_nil _ _
  have result : ((roles.addAll (.of .sqlite) Script.backend
      [(0, "admin"), (0, "guest"), (0, "editor")]) answering).1 =
        (.error (.generatedKey "Role" 2), [(7, "admin"), (0, "guest"), (0, "editor")]) := rfl
  obtain ⟨k, exchanges, after, w₁, asked, upTo, ⟨-, -, whole⟩ | ⟨_, _, -, -, stopped⟩⟩ :=
    (keys_on_own_items roles (.of .sqlite) Script.backend _ answering).2.1 some rfl
  · rw [whole] at result
    cases result
  · rw [stopped] at result
    cases result
    exact ⟨some, rfl, k, exchanges, w₁, asked, upTo, stopped⟩

end Storable

end EntityStore
