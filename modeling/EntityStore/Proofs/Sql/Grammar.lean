import EntityStore.Proofs.Sql.Spelling

namespace EntityStore.Sql

variable {α β : Type}

/-- What is read off the front of some tokens, and the tokens behind it. -/
abbrev Parser (α β : Type) := List (Token α) → Option (β × List (Token α))

namespace Parser

/-- Items with a keyword between them. -/
def separated (k : Keyword) (item : Parser α β) : Nat → Parser α (List β)
  | 0, _ => none
  | fuel + 1, ts =>
    match item ts with
    | none => none
    | some (b, rest) =>
      match rest with
      | .keyword k' :: rest' =>
        if k' = k then (separated k item fuel rest').map fun r => (b :: r.1, r.2)
        else some ([b], rest)
      | _ => some ([b], rest)

/-- One item, or a junction of several. -/
def junction (op : Connective) (item : Parser α (Expr α)) : Parser α (Expr α) := fun ts =>
  (separated (Keyword.ofConnective op) item (ts.length + 1) ts).map fun r => (.ofParts op r.1, r.2)

def condition (predicate : Parser α (Expr α)) : Parser α (Expr α) :=
  junction .or (junction .and predicate)

def column : Parser α ColumnRef
  | .name t :: rest =>
    match rest with
    | .dot :: .name c :: rest' => some (⟨some t, c⟩, rest')
    | _ => some (⟨none, t⟩, rest)
  | _ => none

/-- Operands up to a closing parenthesis. -/
def operands : Parser α (List α)
  | .operand a :: .comma :: rest => (operands rest).map fun r => (a :: r.1, r.2)
  | .operand a :: .rightParen :: rest => some ([a], rest)
  | _ => none

/-- A subquery behind its SELECT, about one column of one table. -/
def subquery (inner : Parser α (Expr α)) (c : ColumnRef) : Parser α (Expr α) := fun ts =>
  match column ts with
  | some (⟨some q, key⟩, .keyword .fromTable :: .name table :: .keyword .whereRows :: rest) =>
    if q = table then
      match inner rest with
      | some (e, .rightParen :: rest') => some (.amongRows c table key e, rest')
      | _ => none
    else none
  | _ => none

/-- What is said of a column. -/
def test (inner : Parser α (Expr α)) (c : ColumnRef) : Parser α (Expr α)
  | .keyword .is :: .keyword .null :: rest => some (.nullTest c false, rest)
  | .keyword .is :: .keyword .not :: .keyword .null :: rest => some (.nullTest c true, rest)
  | .sign op :: .operand a :: rest => some (.compare c op a, rest)
  | .keyword .like :: .operand a :: rest => some (.compare c .like a, rest)
  | .keyword .not :: .keyword .like :: .operand a :: rest => some (.compare c .notLike a, rest)
  | .keyword .between :: .operand low :: .keyword .and :: .operand high :: rest =>
    some (.between c low high, rest)
  | .keyword .isIn :: .leftParen :: .keyword .select :: rest => subquery inner c rest
  | .keyword .isIn :: .leftParen :: rest =>
    (operands rest).map fun r => (.among c false r.1, r.2)
  | .keyword .not :: .keyword .isIn :: .leftParen :: rest =>
    (operands rest).map fun r => (.among c true r.1, r.2)
  | _ => none

/-- A predicate in which parentheses and subqueries are nested at most so deep. -/
def predicate : Nat → Parser α (Expr α)
  | 0, _ => none
  | _ + 1, .number m :: .sign .eq :: .number n :: rest => some (.constant (m == n), rest)
  | depth + 1, .leftParen :: rest =>
    match condition (predicate depth) rest with
    | some (e, .rightParen :: rest') => some (e, rest')
    | _ => none
  | depth + 1, ts =>
    match column ts with
    | some (c, rest) => test (condition (predicate depth)) c rest
    | none => none

end Parser

/-- The condition that a text stands for whose marks come after `n` others. -/
def readConditionAfter (d : Dialect) (n : Nat) (params : List α) (text : String) :
    Option (Expr α) :=
  match lex d.quote (marked d.placeholder n params) text.toList with
  | none => none
  | some ts =>
    match Parser.condition (Parser.predicate (ts.length + 1)) ts with
    | some (e, []) => some e
    | _ => none

/-- The condition that a text with parameters stands for, if it stands for one. -/
def readCondition (d : Dialect) (params : List α) (text : String) : Option (Expr α) :=
  readConditionAfter d 0 params text

/-- Conditions that are written without loss. -/
inductive Expr.Normal : Expr α → Prop
  | constant (value : Bool) : Normal (.constant value)
  | nullTest (column : ColumnRef) (negated : Bool) : Normal (.nullTest column negated)
  | compare (column : ColumnRef) (op : Comparison) (operand : α) :
      Normal (.compare column op operand)
  | between (column : ColumnRef) (low high : α) : Normal (.between column low high)
  | among (column : ColumnRef) (negated : Bool) (first : α) (rest : List α) :
      Normal (.among column negated (first :: rest))
  | amongRows (column : ColumnRef) (table key : String) {inner : Expr α} :
      Normal inner → Normal (.amongRows column table key inner)
  | junction (op : Connective) (first second : Expr α) (rest : List (Expr α)) :
      (∀ e ∈ first :: second :: rest, Normal e) → Normal (.junction op (first :: second :: rest))

theorem Expr.Normal.ofParts (op : Connective) {parts : List (Expr α)}
    (h : ∀ e ∈ parts, Normal e) : Normal (.ofParts op parts) := by
  match parts with
  | [] => exact .constant _
  | [e] => exact h e List.mem_cons_self
  | first :: second :: rest => exact .junction op first second rest h

namespace Parser

/-- Tokens that do not go on with a junction. -/
def Stops (rest : List (Token α)) : Prop :=
  ∀ op, rest.head? ≠ some (.keyword (Keyword.ofConnective op))

theorem separated_tokens (k : Keyword) {item : Parser α β} {parts : List (β × List (Token α))}
    (nonempty : parts ≠ []) {fuel : Nat} (enough : parts.length ≤ fuel) {rest : List (Token α)}
    (stops : rest.head? ≠ some (.keyword k))
    (each : ∀ p ∈ parts, ∀ rest', rest' = rest ∨ rest'.head? = some (.keyword k) →
      item (p.2 ++ rest') = some (p.1, rest')) :
    separated k item fuel (tokensBetween (.keyword k) (parts.map (·.2)) ++ rest) =
      some (parts.map (·.1), rest) := by
  induction parts generalizing fuel with
  | nil => exact absurd rfl nonempty
  | cons p parts ih =>
    obtain ⟨fuel, rfl⟩ : ∃ n, fuel = n + 1 := ⟨fuel - 1, by simp at enough; omega⟩
    cases parts with
    | nil =>
      have first := each p List.mem_cons_self rest (.inl rfl)
      simp only [List.map_cons, List.map_nil, tokensBetween, separated, first]
      split
      · rename_i k' rest'
        have other : k' ≠ k := by
          rintro rfl
          exact stops rfl
        rw [if_neg other]
      · rfl
    | cons p' parts =>
      have next := ih (by simp) (by simpa using enough) fun p hp =>
        each p (List.mem_cons_of_mem _ hp)
      have first := each p List.mem_cons_self
        (.keyword k :: (tokensBetween (.keyword k) ((p' :: parts).map (·.2)) ++ rest)) (.inr rfl)
      simp only [List.map_cons] at next first ⊢
      rw [tokensBetween, List.append_assoc, List.cons_append, separated, first]
      · simp [next]
      · simp

theorem tokensBetween_length (t : Token α) (tss : List (List (Token α))) :
    tss.length ≤ (tokensBetween t tss).length + 1 := by
  induction tss with
  | nil => simp
  | cons ts tss ih =>
    cases tss with
    | nil => simp
    | cons ts' tss =>
      simp only [tokensBetween, List.length_append, List.length_cons] at ih ⊢
      omega

theorem mem_tokensBetween_length {t : Token α} {tss : List (List (Token α))} {ts : List (Token α)}
    (h : ts ∈ tss) : ts.length ≤ (tokensBetween t tss).length := by
  induction tss with
  | nil => cases h
  | cons first tss ih =>
    cases tss with
    | nil =>
      obtain rfl := List.mem_singleton.mp h
      exact Nat.le_refl _
    | cons second tss =>
      simp only [tokensBetween, List.length_append, List.length_cons]
      rcases List.mem_cons.mp h with rfl | h
      · omega
      · have := ih h
        omega

/-- Parts are read as a junction where each part is read as it stands there. -/
theorem junction_tokens (op : Connective) {item : Parser α (Expr α)}
    {parts : List (Expr α × List (Token α))} (nonempty : parts ≠ []) {rest : List (Token α)}
    (stops : rest.head? ≠ some (.keyword (.ofConnective op)))
    (each : ∀ p ∈ parts, ∀ rest',
      rest' = rest ∨ rest'.head? = some (.keyword (.ofConnective op)) →
      item (p.2 ++ rest') = some (p.1, rest')) :
    junction op item (tokensBetween (.keyword (.ofConnective op)) (parts.map (·.2)) ++ rest) =
      some (.ofParts op (parts.map (·.1)), rest) := by
  have enough : parts.length ≤
      (tokensBetween (.keyword (.ofConnective op)) (parts.map (·.2)) ++ rest).length + 1 := by
    have := tokensBetween_length (.keyword (.ofConnective op)) (parts.map (·.2))
    rw [List.length_map] at this
    rw [List.length_append]
    omega
  rw [junction, separated_tokens (.ofConnective op) nonempty enough stops each]
  rfl

theorem junction_single (op : Connective) {item : Parser α (Expr α)} {e : Expr α}
    {ts rest : List (Token α)} (stops : rest.head? ≠ some (.keyword (.ofConnective op)))
    (h : ∀ rest', rest' = rest ∨ rest'.head? = some (.keyword (.ofConnective op)) →
      item (ts ++ rest') = some (e, rest')) :
    junction op item (ts ++ rest) = some (e, rest) := by
  have nonempty : [(e, ts)] ≠ [] := by simp
  exact junction_tokens op nonempty stops (List.forall_mem_singleton.mpr h)

/-- An OR behind a conjunction ends it, as what ends the whole condition does. -/
theorem stops_and {rest rest' : List (Token α)} (stops : Stops rest)
    (h : rest' = rest ∨ rest'.head? = some (.keyword .or)) :
    rest'.head? ≠ some (.keyword .and) := by
  rcases h with rfl | h
  · exact stops .and
  · simp [h]

theorem condition_single {predicate : Parser α (Expr α)} {e : Expr α} {ts rest : List (Token α)}
    (stops : Stops rest) (h : ∀ rest', predicate (ts ++ rest') = some (e, rest')) :
    condition predicate (ts ++ rest) = some (e, rest) :=
  junction_single .or (stops .or) fun _ h' =>
    junction_single .and (stops_and stops h') fun rest' _ => h rest'

/-- Parts that are predicates are read as a junction of either kind. -/
theorem condition_junction (op : Connective) {predicate : Parser α (Expr α)} {es : List (Expr α)}
    (nonempty : es ≠ []) {rest : List (Token α)} (stops : Stops rest)
    (each : ∀ e ∈ es, ∀ rest', predicate (e.partTokens ++ rest') = some (e, rest')) :
    condition predicate
        (tokensBetween (.keyword (.ofConnective op)) (es.map Expr.partTokens) ++ rest) =
      some (.ofParts op es, rest) := by
  have parts : (es.map fun e => (e, e.partTokens)) ≠ [] := by simpa using nonempty
  have tokens : es.map Expr.partTokens = (es.map fun e => (e, e.partTokens)).map (·.2) := by simp
  have items : es = (es.map fun e => (e, e.partTokens)).map (·.1) := by simp [Function.comp_def]
  rw [tokens]
  cases op with
  | and =>
    apply junction_single .or (stops .or)
    intro rest' h
    conv_rhs => rw [items]
    apply junction_tokens .and parts (stops_and stops h)
    intro p hp rest' _
    obtain ⟨e, he, rfl⟩ := List.mem_map.mp hp
    exact each e he rest'
  | or =>
    conv_rhs => rw [items]
    apply junction_tokens .or parts (stops .or)
    intro p hp rest' h
    obtain ⟨e, he, rfl⟩ := List.mem_map.mp hp
    exact junction_single .and (stops_and stops h) fun rest' _ => each e he rest'

theorem column_tokens (c : ColumnRef) {rest : List (Token α)}
    (h : ∀ t, rest.head? = some t → t ≠ .dot) :
    column (c.tokens ++ rest) = some (c, rest) := by
  cases c with
  | mk qualifier name =>
    cases qualifier with
    | some q => rfl
    | none =>
      cases rest with
      | nil => rfl
      | cons t rest =>
        have := h t rfl
        cases t <;> first | rfl | contradiction

theorem operands_tokens (a : α) (as : List α) (rest : List (Token α)) :
    operands (tokensBetween .comma ((a :: as).map fun a => [.operand a]) ++ .rightParen :: rest) =
      some (a :: as, rest) := by
  induction as generalizing a with
  | nil => rfl
  | cons b as ih =>
    have next := ih b
    simp only [List.map_cons] at next
    simp [tokensBetween, operands, next]

theorem predicate_column (depth : Nat) (c : ColumnRef) {ts : List (Token α)}
    (h : ∀ t, ts.head? = some t → t ≠ .dot) :
    predicate (depth + 1) (c.tokens ++ ts) = test (condition (predicate depth)) c ts := by
  have read := column_tokens c h
  cases c with
  | mk qualifier name =>
    cases qualifier with
    | some q => rfl
    | none =>
      simp only [ColumnRef.tokens, List.singleton_append] at read ⊢
      simp [predicate, read]

theorem predicate_among (depth : Nat) (c : ColumnRef) (negated : Bool) (a : α) (as : List α)
    (rest : List (Token α)) :
    predicate (depth + 1) ((Expr.among c negated (a :: as)).tokens ++ rest) =
      some (.among c negated (a :: as), rest) := by
  have list := operands_tokens a as rest
  obtain ⟨more, eq⟩ : ∃ more, tokensBetween .comma ((a :: as).map fun a => [.operand a]) ++
      .rightParen :: rest = .operand a :: more := by
    cases as <;> exact ⟨_, rfl⟩
  simp only [Expr.tokens, List.append_assoc, List.cons_append, List.nil_append]
  rw [predicate_column depth c (by cases negated <;> simp), eq]
  rw [eq] at list
  cases negated <;> simp [test, list]

theorem predicate_amongRows (depth : Nat) (c : ColumnRef) (table key : String) {inner : Expr α}
    {rest : List (Token α)}
    (h : condition (predicate depth) (inner.tokens ++ .rightParen :: rest) =
      some (inner, .rightParen :: rest)) :
    predicate (depth + 1) ((Expr.amongRows c table key inner).tokens ++ rest) =
      some (.amongRows c table key inner, rest) := by
  have list : (Expr.amongRows c table key inner).tokens ++ rest =
      c.tokens ++ (.keyword .isIn :: .leftParen :: .keyword .select :: .name table :: .dot ::
        .name key :: .keyword .fromTable :: .name table :: .keyword .whereRows ::
        (inner.tokens ++ .rightParen :: rest)) := by
    simp [Expr.tokens, ColumnRef.tokens]
  rw [list, predicate_column depth c (by simp)]
  simp [test, subquery, column, h]

theorem predicate_compare (depth : Nat) (c : ColumnRef) (op : Comparison) (a : α)
    (rest : List (Token α)) :
    predicate (depth + 1) ((Expr.compare c op a).tokens ++ rest) = some (.compare c op a, rest) := by
  simp only [Expr.tokens, List.append_assoc]
  rw [predicate_column depth c (by cases op <;> simp [Comparison.tokens])]
  cases op <;> rfl

/-- Its tokens are read as the condition, as a part of a junction and, where the rest goes on with no
connective, as a whole. -/
structure Reads (e : Expr α) : Prop where
  part : ∀ depth, e.partTokens.length < depth → ∀ rest,
    predicate depth (e.partTokens ++ rest) = some (e, rest)
  whole : ∀ depth, e.tokens.length < depth → ∀ rest, Stops rest →
    condition (predicate depth) (e.tokens ++ rest) = some (e, rest)

theorem reads_of_predicate {e : Expr α} (plain : e.partTokens = e.tokens)
    (h : ∀ depth rest, e.tokens.length < depth + 1 →
      predicate (depth + 1) (e.tokens ++ rest) = some (e, rest)) : Reads e := by
  have all : ∀ depth, e.tokens.length < depth → ∀ rest,
      predicate depth (e.tokens ++ rest) = some (e, rest) := by
    intro depth deep rest
    obtain ⟨n, rfl⟩ : ∃ n, depth = n + 1 := ⟨depth - 1, by omega⟩
    exact h n rest deep
  exact ⟨plain ▸ all, fun depth deep rest stops => condition_single stops (all depth deep)⟩

theorem reads_junction (op : Connective) {first second : Expr α} {more : List (Expr α)}
    (each : ∀ e ∈ first :: second :: more, Reads e) :
    Reads (.junction op (first :: second :: more)) := by
  have whole : ∀ depth, (Expr.junction op (first :: second :: more)).tokens.length < depth →
      ∀ rest, Stops rest →
      condition (predicate depth) ((Expr.junction op (first :: second :: more)).tokens ++ rest) =
        some (.junction op (first :: second :: more), rest) := by
    intro depth deep rest stops
    rw [Expr.tokens, Expr.partTokensOfAll_eq] at deep ⊢
    refine condition_junction op (by simp) stops fun e he rest' => (each e he).part depth ?_ rest'
    exact Nat.lt_of_le_of_lt (mem_tokensBetween_length (List.mem_map_of_mem he)) deep
  refine ⟨fun depth deep rest => ?_, whole⟩
  obtain ⟨n, rfl⟩ : ∃ n, depth = n + 1 := ⟨depth - 1, by omega⟩
  have part : (Expr.junction op (first :: second :: more)).partTokens =
      .leftParen :: ((Expr.junction op (first :: second :: more)).tokens ++ [.rightParen]) := rfl
  rw [part] at deep ⊢
  have shorter : (Expr.junction op (first :: second :: more)).tokens.length < n := by
    simp only [List.length_append, List.length_cons] at deep
    omega
  have inside := whole n shorter (.rightParen :: rest) fun op => by simp
  simp [predicate, inside]

theorem reads_tokens {e : Expr α} (normal : e.Normal) : Reads e := by
  induction normal with
  | constant value => exact reads_of_predicate rfl fun depth rest _ => by cases value <;> rfl
  | nullTest c negated =>
    refine reads_of_predicate rfl fun depth rest _ => ?_
    simp only [Expr.tokens, List.append_assoc]
    rw [predicate_column depth c (by cases negated <;> simp)]
    cases negated <;> rfl
  | compare c op a =>
    exact reads_of_predicate rfl fun depth rest _ => predicate_compare depth c op a rest
  | between c low high =>
    refine reads_of_predicate rfl fun depth rest _ => ?_
    simp only [Expr.tokens, List.append_assoc]
    rw [predicate_column depth c (by simp)]
    rfl
  | among c negated first more =>
    exact reads_of_predicate rfl fun depth rest _ =>
      predicate_among depth c negated first more rest
  | @amongRows c table key inner _ ih =>
    refine reads_of_predicate rfl fun depth rest deep => predicate_amongRows depth c table key ?_
    have shorter : inner.tokens.length < depth := by
      simp only [Expr.tokens, List.length_append, List.length_cons] at deep
      omega
    exact ih.whole depth shorter _ fun op => by simp
  | junction op first second more _ ih => exact reads_junction op ih

end Parser

/-- The text of a condition with its operands reads as the condition, wherever its marks begin. -/
theorem readConditionAfter_pieces {d : Dialect} (hd : d.Legible) (n : Nat) {e : Expr α}
    (normal : e.Normal) :
    readConditionAfter d n (e.pieces d.ident).operands ((e.pieces d.ident).render d.placeholder n) =
      some e := by
  have tokens : lex d.quote (marked d.placeholder n (e.pieces d.ident).operands)
      ((e.pieces d.ident).render d.placeholder n).toList = some e.tokens := by
    have text := Expr.spells_pieces hd e n [] [] ends_nil
    rw [List.append_nil, List.append_nil] at text
    simp [text, lex]
  have stops : Parser.Stops ([] : List (Token α)) := fun op => by simp
  have whole := (Parser.reads_tokens normal).whole (e.tokens.length + 1) (Nat.lt_succ_self _) []
    stops
  rw [List.append_nil] at whole
  simp [readConditionAfter, tokens, whole]

theorem readCondition_pieces {d : Dialect} (hd : d.Legible) {e : Expr α} (normal : e.Normal) :
    readCondition d (e.pieces d.ident).operands ((e.pieces d.ident).render d.placeholder 0) =
      some e :=
  readConditionAfter_pieces hd 0 normal

end EntityStore.Sql
