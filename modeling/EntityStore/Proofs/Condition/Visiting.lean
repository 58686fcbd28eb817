import EntityStore.Condition.Visitor
import EntityStore.Proofs.Condition.Form

namespace EntityStore.Condition

/-- The conditions right below a node. -/
def children : Condition → List Condition
  | .relational _ inner => [inner]
  | .composite _ children => children
  | _ => []

mutual

/-- The nodes of a tree: each of them after the nodes below it, and these from left to right. -/
def postorder : Condition → List Condition
  | .relational relation inner => postorder inner ++ [.relational relation inner]
  | .composite op children => postorderOfAll children ++ [.composite op children]
  | leaf => [leaf]

def postorderOfAll : List Condition → List Condition
  | [] => []
  | c :: cs => postorder c ++ postorderOfAll cs

end

theorem postorder_eq (c : Condition) : c.postorder = postorderOfAll c.children ++ [c] := by
  cases c with
  | relational relation inner => simp only [postorder, children, postorderOfAll, List.append_nil]
  | _ => rfl

/-- What a visit makes of a state: its result, and the state that it leaves. -/
def Visit.on {σ α : Type} (x : Visit σ α) (s : σ) : Except Error α × σ := x s

theorem Visit.on_bind {σ α β : Type} (x : Visit σ α) (f : α → Visit σ β) (s : σ) :
    Visit.on (x >>= f) s = match x.on s with
      | (.ok a, s') => (f a).on s'
      | (.error e, s') => (.error e, s') := by
  change (match x.on s with | (r, s') => ExceptT.bindCont f r s') = _
  rcases x.on s with ⟨_ | _, s'⟩ <;> rfl

/-- The call of a handler: the node that it was called for, what the children of the node had come
to, and what the node came to. -/
structure Call (β : Type) where
  node : Condition
  inputs : List β
  output : β

mutual

/-- The calls of a visit that comes to `output`: first those for the nodes below, child by child,
then one for the node itself, which is given what its children came to. -/
inductive Calls {β : Type} : Condition → List (Call β) → β → Prop
  | node {c : Condition} {below : List (Call β)} {outputs : List β} (output : β) :
      CallsOfAll c.children below outputs → Calls c (below ++ [⟨c, outputs, output⟩]) output

inductive CallsOfAll {β : Type} : List Condition → List (Call β) → List β → Prop
  | nil : CallsOfAll [] [] []
  | cons {c : Condition} {cs : List Condition} {here there : List (Call β)} {output : β}
      {outputs : List β} :
      Calls c here output → CallsOfAll cs there outputs →
        CallsOfAll (c :: cs) (here ++ there) (output :: outputs)

end

theorem CallsOfAll.length {β : Type} {cs : List Condition} {calls : List (Call β)}
    {outputs : List β} (h : CallsOfAll cs calls outputs) : outputs.length = cs.length := by
  induction cs generalizing calls outputs with
  | nil =>
    cases h
    rfl
  | cons c cs ih =>
    cases h with
    | cons _ rest => rw [List.length_cons, List.length_cons, ih rest]

namespace Visitor

variable {σ β : Type}

/-- The handler of a node, given what the children of the node came to. -/
def handle (v : Visitor σ β) : Condition → List β → Visit σ β
  | .unary field op, _ => v.unary field op
  | .binary field op operand, _ => v.binary field op operand
  | .ternary field op first second, _ => v.ternary field op first second
  | .collection field op operands, _ => v.collection field op operands
  | .relational relation inner, [output] => v.relational relation inner output
  | .relational _ _, _ => refuse .relational
  | .composite op children, outputs => v.composite op children outputs

/-- What is done before the nodes below a node are visited. -/
def before (v : Visitor σ β) : Condition → Visit σ Unit
  | .relational relation _ => v.enter relation
  | _ => pure ()

theorem visit_eq (v : Visitor σ β) (c : Condition) :
    visit v c = v.before c >>= fun _ => visitAll v c.children >>= v.handle c := by
  cases c with
  | composite op children =>
    have nothing : v.before (.composite op children) = pure () := rfl
    rw [nothing, pure_bind, visit]
    rfl
  | _ => simp [visit, visitAll, before, children, handle]

/-- The handlers of some kinds never fail, those of the others are the ones that refuse. -/
structure Handles (v : Visitor σ β) (kinds : List ConditionKind) : Prop where
  enters : ∀ relation s, ∃ s', (v.enter relation).on s = (.ok (), s')
  given : ∀ c outputs, outputs.length = c.children.length → c.kind ∈ kinds →
    ∀ s, ∃ output s', (v.handle c outputs).on s = (.ok output, s')
  refused : ∀ c outputs, outputs.length = c.children.length → c.kind ∉ kinds →
    v.handle c outputs = refuse c.kind

/-- A call that is noted behind the others if it succeeds. -/
def noted (c : Condition) (inputs : List β) (x : Visit σ β) : Visit (σ × List (Call β)) β :=
  fun s => match x.on s.1 with
    | (.ok output, s') => (.ok output, s', s.2 ++ [⟨c, inputs, output⟩])
    | (.error e, s') => (.error e, s', s.2)

/-- Work that no call is noted of. -/
def unnoted {α : Type} (x : Visit σ α) : Visit (σ × List (Call β)) α :=
  fun s => ((x.on s.1).1, (x.on s.1).2, s.2)

/-- The visitor with a list of the calls of its handlers, each with what the handler was given. -/
def recording (v : Visitor σ β) : Visitor (σ × List (Call β)) β where
  unary field op := noted (.unary field op) [] (v.unary field op)
  binary field op operand := noted (.binary field op operand) [] (v.binary field op operand)
  ternary field op first second :=
    noted (.ternary field op first second) [] (v.ternary field op first second)
  collection field op operands :=
    noted (.collection field op operands) [] (v.collection field op operands)
  enter relation := unnoted (v.enter relation)
  relational relation inner output :=
    noted (.relational relation inner) [output] (v.relational relation inner output)
  composite op children outputs :=
    noted (.composite op children) outputs (v.composite op children outputs)

theorem recording_handle (v : Visitor σ β) (c : Condition) (outputs : List β)
    (fits : outputs.length = c.children.length) :
    v.recording.handle c outputs = noted c outputs (v.handle c outputs) := by
  cases c with
  | relational relation inner =>
    obtain ⟨output, rfl⟩ := List.length_eq_one_iff.mp fits
    rfl
  | composite op children => rfl
  | _ =>
    have none : outputs = [] := List.eq_nil_of_length_eq_zero fits
    rw [none]
    rfl

/-- How far a visit of some nodes comes: through all of them if they are of the kinds that are
given, and otherwise to the first that is not, whose kind it reports. -/
def Reaches {α : Type} (kinds : List ConditionKind) (nodes called : List Condition) :
    Except Error α → Prop
  | .ok _ => called = nodes ∧ ∀ n ∈ nodes, n.kind ∈ kinds
  | .error e => ∃ n rest, nodes = called ++ n :: rest ∧ (∀ m ∈ called, m.kind ∈ kinds) ∧
      n.kind ∉ kinds ∧ e = .unsupportedKind n.kind

/-- Work that visits some nodes, beside the same work with a list of calls: both come to the same,
the calls are those for the nodes that the work reaches, and those of work that succeeds fit what it
comes to. -/
def Traces {α : Type} (kinds : List ConditionKind) (nodes : List Condition) (x : Visit σ α)
    (recorded : Visit (σ × List (Call β)) α) (fits : List (Call β) → α → Prop) : Prop :=
  ∀ s, ∃ result s' calls, x.on s = (result, s') ∧
    (∀ log, recorded.on (s, log) = (result, s', log ++ calls)) ∧
    Reaches kinds nodes (calls.map (·.node)) result ∧ ∀ a, result = .ok a → fits calls a

namespace Traces

variable {α γ : Type} {kinds : List ConditionKind} {xs ys : List Condition} {x : Visit σ α}
  {recorded : Visit (σ × List (Call β)) α} {fits : List (Call β) → α → Prop}

theorem pure {a : α} (fit : fits [] a) :
    Traces kinds [] (pure a : Visit σ α) (Pure.pure a) fits := by
  intro s
  refine ⟨.ok a, s, [], rfl, ?_, ⟨rfl, by simp⟩, ?_⟩
  · intro log
    rw [List.append_nil]
    rfl
  · intro b same
    cases same
    exact fit

/-- Work after work: what comes of the second is behind what comes of the first. -/
theorem bind {f : α → Visit σ γ} {g : α → Visit (σ × List (Call β)) γ}
    {fits' : List (Call β) → γ → Prop} (first : Traces kinds xs x recorded fits)
    (second : ∀ here a, fits here a →
      Traces kinds ys (f a) (g a) fun there b => fits' (here ++ there) b) :
    Traces kinds (xs ++ ys) (x >>= f) (recorded >>= g) fits' := by
  intro s
  obtain ⟨result, s₁, here, ran, noted, reaches, fit⟩ := first s
  cases result with
  | error e =>
    obtain ⟨n, rest, split, known, unknown, reported⟩ := reaches
    refine ⟨.error e, s₁, here, ?_, ?_, ⟨n, rest ++ ys, ?_, known, unknown, reported⟩, ?_⟩
    · rw [Visit.on_bind, ran]
    · intro log
      rw [Visit.on_bind, noted log]
    · rw [split, List.append_assoc, List.cons_append]
    · intro a ok
      cases ok
  | ok a =>
    obtain ⟨all, known⟩ := reaches
    obtain ⟨result, s₂, there, ran', noted', reaches', fit'⟩ := second here a (fit a rfl) s₁
    refine ⟨result, s₂, here ++ there, ?_, ?_, ?_, fit'⟩
    · rw [Visit.on_bind, ran]
      exact ran'
    · intro log
      rw [Visit.on_bind, noted log, ← List.append_assoc]
      exact noted' _
    · rw [List.map_append, all]
      cases result with
      | error e =>
        obtain ⟨n, rest, split, known', unknown, reported⟩ := reaches'
        have before : ∀ m ∈ xs ++ there.map (·.node), m.kind ∈ kinds := by
          intro m hm
          exact (List.mem_append.mp hm).elim (known m) (known' m)
        exact ⟨n, rest, by rw [split, List.append_assoc], before, unknown, reported⟩
      | ok b =>
        obtain ⟨all', known'⟩ := reaches'
        have both : ∀ n ∈ xs ++ ys, n.kind ∈ kinds := by
          intro n hn
          exact (List.mem_append.mp hn).elim (known n) (known' n)
        exact ⟨by rw [all'], both⟩

/-- Work before the nodes below a node, which calls no handler. -/
theorem before {v : Visitor σ β} (handles : v.Handles kinds) (c : Condition) :
    Traces kinds [] (v.before c) (v.recording.before c) fun calls _ => calls = [] := by
  intro s
  cases c with
  | relational relation inner =>
    obtain ⟨s', entered⟩ := handles.enters relation s
    refine ⟨.ok (), s', [], entered, ?_, ⟨rfl, by simp⟩, by simp⟩
    intro log
    have noted : (v.recording.enter relation).on (s, log) =
        (((v.enter relation).on s).1, ((v.enter relation).on s).2, log) := rfl
    rw [Visitor.before, noted, entered, List.append_nil]
  | _ =>
    have idle : Traces kinds [] (Pure.pure () : Visit σ Unit)
        (Pure.pure () : Visit (σ × List (Call β)) Unit) fun calls _ => calls = [] := pure rfl
    exact idle s

/-- The call for a node, given what its children came to. -/
theorem handle {v : Visitor σ β} (handles : v.Handles kinds) {c : Condition} {below : List (Call β)}
    {outputs : List β} (fit : CallsOfAll c.children below outputs) :
    Traces kinds [c] (v.handle c outputs) (v.recording.handle c outputs)
      fun calls output => Calls c (below ++ calls) output := by
  intro s
  rw [v.recording_handle c outputs fit.length]
  by_cases known : c.kind ∈ kinds
  · obtain ⟨output, s', given⟩ := handles.given c outputs fit.length known s
    refine ⟨.ok output, s', [⟨c, outputs, output⟩], given, ?_, ⟨rfl, by simpa using known⟩, ?_⟩
    · intro log
      unfold Visit.on noted
      rw [given]
    · intro a same
      cases same
      exact .node output fit
  · refine ⟨.error (.unsupportedKind c.kind), s, [], ?_, ?_, ⟨c, [], rfl, by simp, known, rfl⟩, ?_⟩
    · rw [handles.refused c outputs fit.length known]
      rfl
    · intro log
      rw [handles.refused c outputs fit.length known, List.append_nil]
      rfl
    · intro a ok
      cases ok

/-- Children that are visited one after another. -/
theorem all {v : Visitor σ β} {cs : List Condition}
    (each : ∀ c ∈ cs, Traces kinds c.postorder (visit v c) (visit v.recording c) (Calls c)) :
    Traces kinds (postorderOfAll cs) (visitAll v cs) (visitAll v.recording cs) (CallsOfAll cs) := by
  induction cs with
  | nil => exact pure .nil
  | cons c cs ih =>
    have first := each c List.mem_cons_self
    have others := ih fun d hd => each d (List.mem_cons_of_mem c hd)
    rw [postorderOfAll, visitAll, visitAll, ← List.append_nil (postorderOfAll cs)]
    apply bind first
    intro here output fit
    apply bind others
    intro there outputs fits
    apply pure
    rw [List.append_nil]
    exact .cons fit fits

/-- A node, after the nodes below it. -/
theorem node {v : Visitor σ β} (handles : v.Handles kinds) {c : Condition}
    (each : ∀ d ∈ c.children,
      Traces kinds d.postorder (visit v d) (visit v.recording d) (Calls d)) :
    Traces kinds c.postorder (visit v c) (visit v.recording c) (Calls c) := by
  rw [postorder_eq, visit_eq, visit_eq, ← List.nil_append (postorderOfAll c.children ++ [c])]
  apply bind (before handles c)
  intro none nothing noCalls
  apply bind (all each)
  intro below outputs fit
  rw [noCalls]
  exact handle handles fit

end Traces

/-- A visitor that knows some kinds goes through a tree in postorder. -/
theorem traces_visit {v : Visitor σ β} {kinds : List ConditionKind} (handles : v.Handles kinds)
    (c : Condition) :
    Traces kinds c.postorder (visit v c) (visit v.recording c) (Calls c) := by
  induction c with
  | relational relation inner ih => exact .node handles (by simpa [children] using ih)
  | composite op children ih => exact .node handles ih
  | _ => exact .node handles (by simp [children])

/-- Every handler of a visitor that writes nodes down looks at the kind of its node first. -/
theorem outline_handle (kinds : List ConditionKind) (entering : Bool) (c : Condition)
    (outputs : List String) (fits : outputs.length = c.children.length) :
    ∃ text, (outline kinds entering).handle c outputs =
      if kinds.contains c.kind then note text else refuse c.kind := by
  cases c with
  | relational relation inner =>
    obtain ⟨output, rfl⟩ := List.length_eq_one_iff.mp fits
    exact ⟨_, rfl⟩
  | _ => exact ⟨_, rfl⟩

theorem handles_outline (kinds : List ConditionKind) (entering : Bool) :
    (outline kinds entering).Handles kinds := by
  refine ⟨?_, ?_, ?_⟩
  · intro relation s
    cases entering with
    | false => exact ⟨s, rfl⟩
    | true => exact ⟨_, rfl⟩
  · intro c outputs fits known s
    obtain ⟨text, handled⟩ := outline_handle kinds entering c outputs fits
    rw [handled, if_pos (List.contains_iff_mem.mpr known)]
    exact ⟨text, s ++ [text], rfl⟩
  · intro c outputs fits unknown
    obtain ⟨text, handled⟩ := outline_handle kinds entering c outputs fits
    rw [handled, if_neg (mt List.contains_iff_mem.mp unknown)]

/-- A visitor that handles some kinds of nodes and leaves the others to the handlers that refuse
fails exactly on the trees with a node of another kind, and reports the kind of the first one in
postorder: only the nodes before it were handled. On the other trees the handler of every node is
called once, in postorder, and is given what the children of the node came to, in their order. -/
theorem every_node_is_handled {v : Visitor σ β} {kinds : List ConditionKind}
    (handles : v.Handles kinds) (c : Condition) (s : σ) :
    ∃ calls : List (Call β),
      (visit v.recording c).on (s, []) =
        (((visit v c).on s).1, ((visit v c).on s).2, calls) ∧
      ((∃ e, ((visit v c).on s).1 = .error e) ↔ ∃ n ∈ c.postorder, n.kind ∉ kinds) ∧
      (∀ e, ((visit v c).on s).1 = .error e → ∃ before n after,
        c.postorder = before ++ n :: after ∧ (∀ m ∈ before, m.kind ∈ kinds) ∧ n.kind ∉ kinds ∧
        e = .unsupportedKind n.kind ∧ calls.map (·.node) = before) ∧
      ∀ output, ((visit v c).on s).1 = .ok output →
        calls.map (·.node) = c.postorder ∧ Calls c calls output := by
  obtain ⟨result, s', calls, ran, noted, reaches, fit⟩ := traces_visit handles c s
  rw [ran]
  refine ⟨calls, noted [], ?_, ?_, ?_⟩
  · cases result with
    | error e =>
      obtain ⟨n, rest, split, -, unknown, -⟩ := reaches
      have there : n ∈ c.postorder := by simp [split]
      exact iff_of_true ⟨e, rfl⟩ ⟨n, there, unknown⟩
    | ok output =>
      obtain ⟨-, known⟩ := reaches
      apply iff_of_false
      · intro failed
        obtain ⟨e, same⟩ := failed
        cases same
      · intro some
        obtain ⟨n, there, unknown⟩ := some
        exact unknown (known n there)
  · intro e failed
    subst failed
    obtain ⟨n, rest, split, known, unknown, reported⟩ := reaches
    exact ⟨calls.map (·.node), n, rest, split, known, unknown, reported, rfl⟩
  · intro output succeeded
    subst succeeded
    exact ⟨reaches.1, fit output rfl⟩

/-- A test of a list under a relation, between a node that is handled and one that is not. -/
def mixed : Condition :=
  .composite .and [.binary default .eq (.int 3),
    .relational default (.collection default .notIn [.text "a"]), .unary default .isNull]

/-- The node below the relation is reported, neither the relation nor the node that comes later. -/
theorem every_node_is_handled_mixed :
    (outline [.binary, .composite] true).Handles [.binary, .composite] ∧
    ((visit (outline [.binary, .composite] true) mixed).on []).1 =
      .error (.unsupportedKind .collection) := by
  have handles := handles_outline [.binary, .composite] true
  obtain ⟨calls, -, fails, names, -⟩ := every_node_is_handled handles mixed []
  have nodes : mixed.postorder = [.binary default .eq (.int 3),
      .collection default .notIn [.text "a"],
      .relational default (.collection default .notIn [.text "a"]), .unary default .isNull,
      mixed] := by simp [mixed, postorder, postorderOfAll]
  have unknown : ∃ n ∈ mixed.postorder, n.kind ∉ [ConditionKind.binary, .composite] :=
    ⟨.unary default .isNull, by simp [nodes], by decide⟩
  obtain ⟨e, failed⟩ := fails.mpr unknown
  obtain ⟨before, n, after, split, known, missing, reported, -⟩ := names e failed
  refine ⟨handles, ?_⟩
  rw [failed, reported]
  rw [nodes] at split
  rcases before with _ | ⟨first, _ | ⟨second, others⟩⟩
  · injection split with same
    subst same
    exact absurd missing (by decide)
  · injection split with _ behind
    injection behind with same
    subst same
    rfl
  · injection split with _ behind
    injection behind with same
    have handled := known second (by simp)
    subst same
    exact absurd handled (by decide)

/-- The visitor that collects the fields of a condition. -/
def collector : Visitor (List FieldRef) Unit where
  unary field _ := modify (· ++ [field])
  binary field _ _ := modify (· ++ [field])
  ternary field _ _ _ := modify (· ++ [field])
  collection field _ _ := modify (· ++ [field])
  relational relation _ _ := modify (· ++ [relation])
  composite _ _ _ := pure ()

mutual

/-- The collecting visitor finds the fields of a condition, in their order. -/
theorem visit_collector (c : Condition) (found : List FieldRef) :
    (visit collector c).on found = (.ok (), found ++ c.fields) := by
  cases c with
  | relational relation inner =>
    have below := visit_collector inner found
    have after : (visit collector (.relational relation inner)).on found =
        ((visit collector inner >>= fun _ => modify (· ++ [relation])).on found) := rfl
    rw [after, Visit.on_bind, below, fields, ← List.append_assoc]
    rfl
  | composite op children =>
    obtain ⟨outputs, below⟩ := visitAll_collector children found
    rw [visit, Visit.on_bind, below]
    rfl
  | _ => rfl

theorem visitAll_collector (cs : List Condition) (found : List FieldRef) :
    ∃ outputs, (visitAll collector cs).on found = (.ok outputs, found ++ fieldsOfAll cs) := by
  cases cs with
  | nil => exact ⟨[], by rw [fieldsOfAll, List.append_nil]; rfl⟩
  | cons c cs =>
    have here := visit_collector c found
    obtain ⟨outputs, there⟩ := visitAll_collector cs (found ++ c.fields)
    refine ⟨() :: outputs, ?_⟩
    rw [visitAll, Visit.on_bind, here]
    dsimp only
    rw [Visit.on_bind, there, fieldsOfAll, ← List.append_assoc]
    rfl

end

end Visitor

end EntityStore.Condition
