import EntityStore.Repository.Listing
import EntityStore.Proofs.Condition.Grouping
import EntityStore.Proofs.Repository.Task

namespace EntityStore

theorem filterMap_one {α β : Type} (f : α → Option β) (a : α) :
    [a].filterMap f = (f a).toList := by
  cases found : f a <;> simp [found]

/-- A call on a query under construction. -/
inductive Call where
  | filter (c : Condition)
  | skip (n : Int)
  | limit (n : Int)
  | orderBy (fields : List FieldRef) (direction : Direction)

namespace Call

def apply (d : Draft) : Call → Draft
  | .filter c => d.filter c
  | .skip n => d.skip n
  | .limit n => d.limit n
  | .orderBy fields direction => d.orderBy fields direction

def condition? : Call → Option Condition
  | .filter c => some c
  | _ => none

def skipped? : Call → Option Int
  | .skip n => some n
  | _ => none

def limited? : Call → Option Int
  | .limit n => some n
  | _ => none

/-- What a call adds to the order. -/
def terms : Call → List (FieldRef × Direction)
  | .orderBy fields direction => fields.map fun f => (f, direction)
  | _ => []

/-- What is wrong with a call: its count is negative. -/
def refusal? : Call → Option Error
  | .skip n => if n < 0 then some (.invalidArgument (.negative "skip" n)) else none
  | .limit n => if n < 0 then some (.invalidArgument (.negative "limit" n)) else none
  | _ => none

/-- Calls of each kind in the same order, however the kinds are mixed. -/
structure SameKinds (calls calls' : List Call) : Prop where
  conditions : calls.filterMap condition? = calls'.filterMap condition?
  skipped : calls.filterMap skipped? = calls'.filterMap skipped?
  limited : calls.filterMap limited? = calls'.filterMap limited?
  terms : calls.flatMap terms = calls'.flatMap terms

theorem refusal?_eq_none {c : Call} :
    c.refusal? = none ↔ (∀ n ∈ c.skipped?, 0 ≤ n) ∧ ∀ n ∈ c.limited?, 0 ≤ n := by
  cases c <;> simp [refusal?, skipped?, limited?]

/-- Whether some call is refused depends on the counts alone. -/
theorem granted_iff {calls : List Call} :
    calls.findSome? refusal? = none ↔
      (∀ n ∈ calls.filterMap skipped?, 0 ≤ n) ∧ ∀ n ∈ calls.filterMap limited?, 0 ≤ n := by
  simp only [List.findSome?_eq_none_iff, refusal?_eq_none, List.mem_filterMap, Option.mem_def]
  grind

theorem SameKinds.granted {calls calls' : List Call} (same : SameKinds calls calls') :
    calls.findSome? refusal? = none ↔ calls'.findSome? refusal? = none := by
  rw [granted_iff, granted_iff, same.skipped, same.limited]

end Call

namespace Query

/-- The window between two counts, if there is one. -/
def pageOf : Option Int → Option Int → Option Page
  | none, none => none
  | offset, limit => some ⟨offset.map Int.toNat, limit.map Int.toNat⟩

/-- The query that calls ask for, one kind of call after the other. -/
def asked (e : Entity) (calls : List Call) : Query where
  entity := e
  predicate := Condition.conjunction? (calls.filterMap Call.condition?)
  page := pageOf (calls.filterMap Call.skipped?).getLast? (calls.filterMap Call.limited?).getLast?
  ordering := calls.flatMap Call.terms
  assignments := []

theorem pageOf_offset (offset limit : Option Int) (n : Int) :
    pageOf (some n) limit =
      some { (pageOf offset limit).getD ⟨none, none⟩ with offset := some n.toNat } := by
  cases offset <;> cases limit <;> rfl

theorem pageOf_limit (offset limit : Option Int) (n : Int) :
    pageOf offset (some n) =
      some { (pageOf offset limit).getD ⟨none, none⟩ with limit := some n.toNat } := by
  cases offset <;> cases limit <;> rfl

/-- One more call counts for its own kind alone. -/
theorem asked_snoc (e : Entity) (calls : List Call) (c : Call) :
    asked e (calls ++ [c]) =
      ⟨e, Condition.conjunction? (calls.filterMap Call.condition? ++ c.condition?.toList),
        pageOf (c.skipped?.or (calls.filterMap Call.skipped?).getLast?)
          (c.limited?.or (calls.filterMap Call.limited?).getLast?),
        calls.flatMap Call.terms ++ c.terms, []⟩ := by
  have last {α : Type} (o : Option α) : o.toList.getLast? = o := by
    cases o <;> rfl
  simp only [asked, List.filterMap_append, List.flatMap_append, List.flatMap_singleton,
    filterMap_one, List.getLast?_append, last]

theorem restrict_asked (e : Entity) (calls : List Call) (c : Condition) :
    (asked e calls).restrict c = asked e (calls ++ [.filter c]) := by
  rw [asked_snoc, restrict_eq]
  simp only [asked, Condition.conjunction?_append, Call.terms, List.append_nil]
  rfl

theorem skip_asked (e : Entity) (calls : List Call) {n : Int} (count : ¬ n < 0) :
    (asked e calls).skip n = .ok (asked e (calls ++ [.skip n])) := by
  rw [skip, rowCount, if_neg count, asked_snoc]
  simp only [Call.condition?, Call.skipped?, Call.limited?, Call.terms, Option.toList_none,
    List.append_nil, Option.some_or, Option.none_or,
    pageOf_offset (calls.filterMap Call.skipped?).getLast?]
  rfl

theorem limit_asked (e : Entity) (calls : List Call) {n : Int} (count : ¬ n < 0) :
    (asked e calls).limit n = .ok (asked e (calls ++ [.limit n])) := by
  rw [limit, rowCount, if_neg count, asked_snoc]
  simp only [Call.condition?, Call.skipped?, Call.limited?, Call.terms, Option.toList_none,
    List.append_nil, Option.some_or, Option.none_or,
    pageOf_limit _ (calls.filterMap Call.limited?).getLast?]
  rfl

theorem orderBy_asked (e : Entity) (calls : List Call) (fields : List FieldRef) (d : Direction) :
    (asked e calls).orderBy fields d = asked e (calls ++ [.orderBy fields d]) := by
  simp only [asked_snoc, Call.condition?, Option.toList_none, List.append_nil]
  rfl

theorem skip_refused (q : Query) {n : Int} (negative : n < 0) :
    q.skip n = .error (.invalidArgument (.negative "skip" n)) := by
  rw [skip, rowCount, if_pos negative]
  rfl

theorem limit_refused (q : Query) {n : Int} (negative : n < 0) :
    q.limit n = .error (.invalidArgument (.negative "limit" n)) := by
  rw [limit, rowCount, if_pos negative]
  rfl

/-- Calls of the same kinds ask for the same query. -/
theorem asked_congr (e : Entity) {calls calls' : List Call} (same : Call.SameKinds calls calls') :
    asked e calls = asked e calls' := by
  rw [asked, asked, same.conditions, same.skipped, same.limited, same.terms]

end Query

namespace Draft

/-- A call that is not refused changes its own part of the query. -/
theorem apply_asked {e : Entity} {calls : List Call} {c : Call} (refused : Option Error)
    (granted : c.refusal? = none) :
    c.apply ⟨.asked e calls, refused⟩ = ⟨.asked e (calls ++ [c]), refused⟩ := by
  cases c with
  | filter condition => rw [Call.apply, filter, Query.restrict_asked]
  | skip n =>
    have count : ¬ n < 0 := fun negative => by simp [Call.refusal?, negative] at granted
    rw [Call.apply, skip, Query.skip_asked e calls count, take]
  | limit n =>
    have count : ¬ n < 0 := fun negative => by simp [Call.refusal?, negative] at granted
    rw [Call.apply, limit, Query.limit_asked e calls count, take]
  | orderBy fields direction => rw [Call.apply, orderBy, Query.orderBy_asked]

/-- A call that is refused leaves the query as it is. -/
theorem apply_refused {d : Draft} {c : Call} {error : Error} (refused : c.refusal? = some error) :
    c.apply d = d.refuse error := by
  cases c with
  | skip n =>
    obtain ⟨negative, ⟨⟩⟩ := Option.ite_none_right_eq_some.mp refused
    rw [Call.apply, skip, d.query.skip_refused negative, take]
  | limit n =>
    obtain ⟨negative, ⟨⟩⟩ := Option.ite_none_right_eq_some.mp refused
    rw [Call.apply, limit, d.query.limit_refused negative, take]
  | _ => cases refused

/-- What drafts are like after calls, be they granted or refused. -/
structure Follows (d : Draft) (e : Entity) (calls : List Call) : Prop where
  /-- Refused calls leave no trace in the query. -/
  query : d.query = .asked e (calls.filter fun c => c.refusal?.isNone)
  refused : d.refused = calls.findSome? Call.refusal?

theorem Follows.snoc {d : Draft} {e : Entity} {calls : List Call} (follows : d.Follows e calls)
    (c : Call) : (c.apply d).Follows e (calls ++ [c]) := by
  obtain ⟨query, refused⟩ := d
  obtain ⟨rfl, rfl⟩ : query = _ ∧ refused = _ := ⟨follows.query, follows.refused⟩
  cases refusal : c.refusal? with
  | none =>
    rw [apply_asked _ refusal]
    constructor <;> simp [List.filter_append, List.findSome?_append, refusal]
  | some error =>
    rw [apply_refused refusal]
    constructor <;> simp [refuse, List.filter_append, List.findSome?_append, refusal]

/-- Nothing is refused, so the query is what the calls ask for. -/
theorem Follows.eq_of_granted {d : Draft} {e : Entity} {calls : List Call}
    (follows : d.Follows e calls) (granted : calls.findSome? Call.refusal? = none) :
    d = ofQuery (.asked e calls) := by
  obtain ⟨query, refused⟩ := d
  have all : calls.filter (fun c => c.refusal?.isNone) = calls := by
    rw [List.filter_eq_self]
    intro c there
    rw [List.findSome?_eq_none_iff.mp granted c there]
    rfl
  have asked := follows.query
  rw [all] at asked
  rw [ofQuery, ← asked, ← granted, ← follows.refused]

/-- A draft with a refused call is not prepared at all. -/
theorem on_refused {σ : Type} (d : Draft) (r : Repository) {error : Error}
    (refused : d.refused = some error) (w : World σ) :
    (d.prepare r).on w = (.error (.core error), w) ∧
      ∀ fields, (d.project r fields).on w = (.error (.core error), w) := by
  have checked : d.checked = .error error := by rw [checked, refused]
  constructor
  · rw [prepare, checked]
    rfl
  · intro fields
    rw [project, checked]
    rfl

end Draft

namespace Repository

variable (r : Repository)

/-- The four statements of a query, compiled one after another. -/
def prepared (q : Query) : Except Error PreparedQuery := do
  let listing ← q.select
  let counting ← q.count
  let first ← (q.capped 1).select
  let single ← (q.capped 2).select
  .ok ⟨q, r.statement listing, r.statement counting, r.statement first, r.statement single⟩

def projected (q : Query) (fields : List FieldRef) : Except Error Projection :=
  (q.selectFields fields).map fun command => ⟨fields, r.statement command⟩

theorem query_of_prepared {r : Repository} {q : Query} {p : PreparedQuery}
    (prepared : r.prepared q = .ok p) : p.query = q := by
  obtain ⟨listing, -, prepared⟩ := Except.bind_eq_ok.mp prepared
  obtain ⟨counting, -, prepared⟩ := Except.bind_eq_ok.mp prepared
  obtain ⟨first, -, prepared⟩ := Except.bind_eq_ok.mp prepared
  obtain ⟨single, -, prepared⟩ := Except.bind_eq_ok.mp prepared
  cases prepared
  rfl

variable {r} in
/-- Work that goes on with a compiled statement has the outcome of compiling alone. -/
theorem outcome_bind {σ α : Type} {x : Except Error (Sql.Command Param)}
    {f : Statement → Task σ RepositoryError α} {g : Sql.Command Param → Except Error α}
    (next : ∀ command w, ((f (r.statement command)).on w).1 = (g command).mapError .core)
    (w : World σ) : ((r.compile x >>= f).on w).1 = (x >>= g).mapError .core := by
  cases x with
  | error e => rfl
  | ok command =>
    rw [Task.on_bind, on_compile]
    exact next command _

end Repository

namespace Draft

variable {σ : Type} (r : Repository) (q : Query) (w : World σ)

theorem outcome_prepare : (((ofQuery q).prepare r).on w).1 = (r.prepared q).mapError .core := by
  refine Repository.outcome_bind (fun listing w => ?_) w
  refine Repository.outcome_bind (fun counting w => ?_) w
  refine Repository.outcome_bind (fun first w => ?_) w
  exact Repository.outcome_bind (fun single w => rfl) w

theorem outcome_project (fields : List FieldRef) :
    (((ofQuery q).project r fields).on w).1 = (r.projected q fields).mapError .core := by
  have same : r.projected q fields = (do
      let command ← q.selectFields fields
      .ok ⟨fields, r.statement command⟩) := rfl
  rw [same]
  exact Repository.outcome_bind (fun command w => rfl) w

/-- Drafts of an entity that calls lead to. A copy of a draft is the draft itself, which calls may
take further in several ways; the draft of a prepared query goes on from there. -/
inductive Built (e : Entity) : List Call → Draft → Prop
  | start : Built e [] (.all e)
  | call {calls : List Call} {d : Draft} (c : Call) :
      Built e calls d → Built e (calls ++ [c]) (c.apply d)
  | fork {calls : List Call} {d : Draft} {σ : Type} {r : Repository} {w w' : World σ}
      {p : PreparedQuery} :
      Built e calls d → (d.prepare r).on w = (.ok p, w') → Built e calls p.fork

/-- A prepared query goes on as the draft that it was prepared from. -/
theorem fork_prepared {d : Draft} {r : Repository} {p : PreparedQuery} {w w' : World σ}
    (prepared : (d.prepare r).on w = (.ok p, w')) : p.fork = d := by
  obtain ⟨query, _ | error⟩ := d
  · have outcome := outcome_prepare r query w
    rw [ofQuery, prepared] at outcome
    rw [PreparedQuery.fork, Repository.query_of_prepared (Except.mapError_eq_ok.mp outcome.symm)]
    rfl
  · rw [(on_refused _ r rfl w).1] at prepared
    cases prepared

theorem Built.follows {e : Entity} {calls : List Call} {d : Draft} (built : Built e calls d) :
    d.Follows e calls := by
  induction built with
  | start => exact ⟨rfl, rfl⟩
  | call c _ ih => exact ih.snoc c
  | fork _ prepared ih => exact fork_prepared prepared ▸ ih

/-- A run of calls is read kind by kind, with copies of drafts and of prepared queries in between or
not. The first negative count is what every preparation reports, and no call that is refused shows in
the query. Where none is, the statements are those of the query with the conjunction of all
conditions, the last counts and all terms of the order; how the kinds are mixed makes no difference. -/
theorem run_read_by_kind {e : Entity} {calls : List Call} {d : Draft} (built : Built e calls d)
    (r : Repository) (w : World σ) :
    d.query = .asked e (calls.filter fun c => c.refusal?.isNone) ∧
    (∀ error, calls.findSome? Call.refusal? = some error →
      (d.prepare r).on w = (.error (.core error), w) ∧
      ∀ fields, (d.project r fields).on w = (.error (.core error), w)) ∧
    (calls.findSome? Call.refusal? = none →
      ((d.prepare r).on w).1 = (r.prepared (.asked e calls)).mapError .core ∧
      ∀ fields, ((d.project r fields).on w).1 =
        (r.projected (.asked e calls) fields).mapError .core) ∧
    ∀ calls' d', Built e calls' d' → Call.SameKinds calls calls' →
      (∀ p w', (d.prepare r).on w = (.ok p, w') ↔ (d'.prepare r).on w = (.ok p, w')) ∧
      ∀ fields p w', (d.project r fields).on w = (.ok p, w') ↔
        (d'.project r fields).on w = (.ok p, w') := by
  have follows := built.follows
  refine ⟨follows.query, fun error refusal => ?_, fun granted => ?_, fun calls' d' built' same => ?_⟩
  · exact d.on_refused r (follows.refused.trans refusal) w
  · rw [follows.eq_of_granted granted]
    exact ⟨outcome_prepare r _ w, outcome_project r _ w⟩
  · have follows' := built'.follows
    cases refusal : calls.findSome? Call.refusal? with
    | none =>
      have one : d = d' := by
        rw [follows.eq_of_granted refusal, follows'.eq_of_granted (same.granted.mp refusal),
          Query.asked_congr e same]
      rw [one]
      exact ⟨fun _ _ => Iff.rfl, fun _ _ _ => Iff.rfl⟩
    | some error =>
      have refused' : calls'.findSome? Call.refusal? ≠ none := by
        rw [Ne, ← same.granted, refusal]
        exact Option.some_ne_none error
      obtain ⟨error', refusal'⟩ := Option.ne_none_iff_exists'.mp refused'
      have stopped := d.on_refused r (follows.refused.trans refusal) w
      have stopped' := d'.on_refused r (follows'.refused.trans refusal') w
      constructor
      · intro p w'
        rw [stopped.1, stopped'.1]
        simp
      · intro fields p w'
        rw [stopped.2, stopped'.2]
        simp

def letters : Entity :=
  ⟨⟨"Letter", "letters"⟩, [(Field.named "id" .integer).asPrimaryKey, .named "sender" .text]⟩

def fromAnn : Call := .filter (.binary (letters.ref (.named "sender" .text)) .eq (.text "ann"))

def bySender : Call := .orderBy [letters.ref (.named "sender" .text)] .asc

/-- Calls on a query that is prepared in between, the same calls in another mixture, and calls with
two counts that are refused. -/
theorem run_read_by_kind_letters :
    ∃ d d' d₁, Built letters [.skip 4, fromAnn, .limit 2, .skip 1, bySender] d ∧
      Built letters [bySender, .skip 4, .skip 1, .limit 2, fromAnn] d' ∧
      Built letters [.skip 1, .limit (-2), .skip (-3), .limit 5] d₁ ∧
      (∃ p w', (d.prepare (.of .sqlite)).on (⟨(), []⟩ : World Unit) = (.ok p, w') ∧
        (d'.prepare (.of .sqlite)).on ⟨(), []⟩ = (.ok p, w')) ∧
      (d₁.prepare (.of .sqlite)).on (⟨(), []⟩ : World Unit) =
        (.error (.core (.invalidArgument (.negative "limit" (-2)))), ⟨(), []⟩) := by
  have first : Built letters [.skip 4, fromAnn, .limit 2] _ :=
    ((Built.start.call (.skip 4)).call fromAnn).call (.limit 2)
  have prepared : ∃ p w', (((((Draft.all letters).skip 4).filter
      (.binary (letters.ref (.named "sender" .text)) .eq (.text "ann"))).limit 2).prepare
        (.of .sqlite)).on (⟨(), []⟩ : World Unit) = (.ok p, w') := ⟨_, _, rfl⟩
  obtain ⟨p, w', prepared⟩ := prepared
  have forked := ((first.fork prepared).call (.skip 1)).call bySender
  have mixed : Built letters [bySender, .skip 4, .skip 1, .limit 2, fromAnn] _ :=
    ((((Built.start.call bySender).call (.skip 4)).call (.skip 1)).call (.limit 2)).call fromAnn
  have refused : Built letters [.skip 1, .limit (-2), .skip (-3), .limit 5] _ :=
    (((Built.start.call (.skip 1)).call (.limit (-2))).call (.skip (-3))).call (.limit 5)
  obtain ⟨-, -, granted, others⟩ :=
    run_read_by_kind forked (.of .sqlite) (⟨(), []⟩ : World Unit)
  have outcome := (granted rfl).1
  have same := (others _ _ mixed ⟨rfl, rfl, rfl, rfl⟩).1
  exact ⟨_, _, _, forked, mixed, refused,
    ⟨_, _, Prod.ext outcome rfl, (same _ _).mp (Prod.ext outcome rfl)⟩,
    ((run_read_by_kind refused (.of .sqlite) ⟨(), []⟩).2.1 _ rfl).1⟩

end Draft

end EntityStore
