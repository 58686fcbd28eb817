import EntityStore.Proofs.Sql.Token
import EntityStore.Proofs.Sql.Shape

namespace EntityStore

/-- What lets texts of a dialect be read: neither the quote nor a mark begins like something else. -/
structure Dialect.Legible (d : Dialect) : Prop where
  quote : Sql.isReserved d.quote = false
  mark : ∀ n, ∃ m rest, (d.placeholder n).toList = m :: rest ∧ Sql.isReserved m = false ∧ m ≠ d.quote

theorem Dialect.legible_of_questionMarks {d : Dialect} (quote : d.quote = '"')
    (marks : ∀ n, d.placeholder n = "?") : d.Legible where
  quote := by rw [quote]; decide
  mark n := ⟨'?', [], by rw [marks]; rfl, by decide, by rw [quote]; decide⟩

theorem Dialect.legible_generic : Dialect.generic.Legible :=
  legible_of_questionMarks rfl fun _ => rfl

theorem Dialect.legible_sqlite : Dialect.sqlite.Legible :=
  legible_of_questionMarks rfl fun _ => rfl

namespace Sql

variable {α : Type}

/-- Operands under their marks, after `n` others. -/
def marked (mark : Nat → String) : Nat → List α → List (List Char × α)
  | _, [] => []
  | n, a :: as => ((mark (n + 1)).toList, a) :: marked mark (n + 1) as

theorem marked_append (mark : Nat → String) (n : Nat) (as bs : List α) :
    marked mark n (as ++ bs) = marked mark n as ++ marked mark (n + as.length) bs := by
  induction as generalizing n with
  | nil => rfl
  | cons a as ih =>
    have shift : n + (as.length + 1) = n + 1 + as.length := by omega
    simp [marked, ih, shift]

/-- Tokens with a token between them. -/
def tokensBetween (t : Token α) : List (List (Token α)) → List (Token α)
  | [] => []
  | [ts] => ts
  | ts :: rest => ts ++ t :: tokensBetween t rest

def ColumnRef.tokens (c : ColumnRef) : List (Token α) :=
  match c.qualifier with
  | some q => [.name q, .dot, .name c.column]
  | none => [.name c.column]

def Comparison.tokens : Comparison → List (Token α)
  | .like => [.keyword .like]
  | .notLike => [.keyword .not, .keyword .like]
  | op => [.sign op]

def Keyword.ofConnective : Connective → Keyword
  | .and => .and
  | .or => .or

namespace Expr

mutual

def tokens : Expr α → List (Token α)
  | .constant b => [.number 1, .sign .eq, .number (if b then 1 else 0)]
  | .nullTest c negated =>
    c.tokens ++ (if negated then [.keyword .is, .keyword .not, .keyword .null]
      else [.keyword .is, .keyword .null])
  | .compare c op a => c.tokens ++ op.tokens ++ [.operand a]
  | .between c low high =>
    c.tokens ++ [.keyword .between, .operand low, .keyword .and, .operand high]
  | .among c negated operands =>
    c.tokens ++ (if negated then [.keyword .not, .keyword .isIn] else [.keyword .isIn]) ++
      .leftParen :: (tokensBetween .comma (operands.map fun a => [.operand a]) ++ [.rightParen])
  | .amongRows c table key inner =>
    c.tokens ++ [.keyword .isIn, .leftParen, .keyword .select] ++
      ColumnRef.tokens ⟨some table, key⟩ ++
      [.keyword .fromTable, .name table, .keyword .whereRows] ++ tokens inner ++ [.rightParen]
  | .junction op parts =>
    tokensBetween (.keyword (Keyword.ofConnective op)) (partTokensOfAll parts)

def partTokensOfAll : List (Expr α) → List (List (Token α))
  | [] => []
  | e :: es =>
    (if e.isJunction then .leftParen :: (tokens e ++ [.rightParen]) else tokens e) ::
      partTokensOfAll es

end

/-- The tokens of a part of a junction. -/
def partTokens (e : Expr α) : List (Token α) :=
  if e.isJunction then .leftParen :: (tokens e ++ [.rightParen]) else tokens e

theorem partTokensOfAll_eq (es : List (Expr α)) : partTokensOfAll es = es.map partTokens := by
  induction es with
  | nil => rfl
  | cons e es ih => simp [partTokensOfAll, partTokens, ih]

end Expr

/-- A text whose last token is complete, and its tokens. -/
def Leads (d : Dialect) (s : String) (ts : List (Token α)) : Prop :=
  ∀ pending rest,
    lex d.quote pending (s.toList ++ rest) = (lex d.quote pending rest).map (ts ++ ·)

/-- The text of a fragment gives some tokens, however many marks came before it and wherever the
text behind it ends its last word. -/
def Spells (d : Dialect) (f : Fragment α) (ts : List (Token α)) : Prop :=
  ∀ n pending rest, Ends rest →
    lex d.quote (marked d.placeholder n f.operands ++ pending)
        ((f.render d.placeholder n).toList ++ rest) =
      (lex d.quote pending rest).map (ts ++ ·)

theorem Leads.append {d : Dialect} {s t : String} {ts us : List (Token α)} (hs : Leads d s ts)
    (ht : Leads d t us) : Leads d (s ++ t) (ts ++ us) := by
  intro pending rest
  rw [String.toList_append, List.append_assoc, hs, ht]
  simp [Function.comp_def]

theorem Spells.after {d : Dialect} {s : String} {f : Fragment α} {ts us : List (Token α)}
    (hf : Spells d f us) (hs : Leads d s ts) : Spells d (.text s :: f) (ts ++ us) := by
  intro n pending rest he
  rw [Fragment.render, Fragment.operands, String.toList_append, List.append_assoc, hs,
    hf n pending rest he]
  simp [Function.comp_def]

theorem Spells.append {d : Dialect} {f g : Fragment α} {ts us : List (Token α)}
    (hf : Spells d f ts) (hg : Spells d g us)
    (ends : ∀ n rest, Ends rest → Ends ((g.render d.placeholder n).toList ++ rest)) :
    Spells d (f ++ g) (ts ++ us) := by
  intro n pending rest he
  rw [Fragment.render_append, Fragment.operands_append, marked_append, String.toList_append,
    List.append_assoc, List.append_assoc, hf n _ _ (ends _ _ he), hg _ _ _ he]
  simp [Function.comp_def]

section

variable {d : Dialect} (hd : d.Legible)

include hd

theorem lex_column (c : ColumnRef) {pending : List (List Char × α)} {rest : List Char}
    (h : Ends rest) :
    lex d.quote pending ((Expr.columnText d.ident c).toList ++ rest) =
      (lex d.quote pending rest).map (c.tokens ++ ·) := by
  have last := h.head_ne hd.quote
  cases c with
  | mk qualifier column =>
    cases qualifier with
    | none => exact lex_name hd.quote column last
    | some q =>
      have dot : (".".toList ++ ((d.ident column).toList ++ rest)).head? ≠ some d.quote := by
        have := ne_of_reserved (c := '.') rfl hd.quote
        simpa using this
      simp only [Expr.columnText, String.toList_append, List.append_assoc]
      rw [Dialect.ident, lex_name hd.quote q dot]
      show (lex d.quote pending ('.' :: ((d.ident column).toList ++ rest))).map _ = _
      rw [lex_punctuation hd.quote rfl, Dialect.ident, lex_name hd.quote column last]
      simp [ColumnRef.tokens, Function.comp_def]

/-- Keywords with a blank before each. -/
theorem lex_phrase (ks : List Keyword) (pending : List (List Char × α)) {rest : List Char}
    (h : Ends rest) :
    lex d.quote pending (ks.flatMap (fun k => ' ' :: k.word.toList) ++ rest) =
      (lex d.quote pending rest).map (ks.map Token.keyword ++ ·) := by
  induction ks with
  | nil => simp
  | cons k ks ih =>
    have next : Ends (ks.flatMap (fun k => ' ' :: k.word.toList) ++ rest) := by
      cases ks with
      | nil => exact h
      | cons k ks => exact ends_blank _
    rw [List.flatMap_cons, List.append_assoc, List.cons_append, lex_blank,
      lex_keyword hd.quote k next, ih]
    simp [Function.comp_def]

theorem leads_keyword (k : Keyword) :
    Leads d (" " ++ k.word ++ " ") ([.keyword k] : List (Token α)) := by
  intro pending rest
  have word := lex_phrase hd [k] pending (ends_blank rest)
  rw [lex_blank] at word
  simpa using word

theorem leads_punctuation {c : Char} {t : Token α} (h : Token.ofPunctuation? c = some t) :
    Leads d (String.singleton c) [t] := by
  intro pending rest
  rw [String.toList_singleton, List.singleton_append, lex_punctuation hd.quote h]
  rfl

theorem leads_comma : Leads d ", " ([.comma] : List (Token α)) := by
  intro pending rest
  show lex d.quote pending (',' :: ' ' :: rest) = _
  rw [lex_punctuation hd.quote rfl, lex_blank]
  rfl

/-- A column and words behind it. -/
theorem leads_column (c : ColumnRef) {s : String} {ts : List (Token α)} (hs : Leads d s ts)
    (ends : ∀ rest, Ends (s.toList ++ rest)) :
    Leads d (Expr.columnText d.ident c ++ s) (c.tokens ++ ts) := by
  intro pending rest
  rw [String.toList_append, List.append_assoc, lex_column hd c (ends rest), hs]
  simp [Function.comp_def]

theorem spells_hole (a : α) : Spells d [.hole a] [.operand a] := by
  intro n pending rest _
  obtain ⟨m, mark, eq, unreserved, other⟩ := hd.mark (n + 1)
  simp only [Fragment.render, Fragment.operands, marked, eq, String.append_empty]
  exact lex_mark unreserved other

theorem Spells.closed {f : Fragment α} {ts : List (Token α)} (hf : Spells d f ts) :
    Spells d (f ++ [.text ")"]) (ts ++ [.rightParen]) := by
  have close : Spells d ([.text ")"] : Fragment α) [.rightParen] := by
    intro n pending rest _
    rw [Fragment.render, Fragment.render, String.append_empty]
    exact lex_punctuation (c := ')') hd.quote rfl
  refine hf.append close fun n rest _ => ?_
  rw [Fragment.render, Fragment.render, String.append_empty]
  exact ends_paren rest

theorem Spells.inParens {f : Fragment α} {ts : List (Token α)} (hf : Spells d f ts) :
    Spells d (.text "(" :: (f ++ [.text ")"])) (.leftParen :: (ts ++ [.rightParen])) :=
  (hf.closed hd).after (leads_punctuation hd (c := '(') rfl)

end

theorem spells_separated {d : Dialect} {separator : String} {t : Token α}
    (hs : Leads d separator [t]) (ends : ∀ rest, Ends (separator.toList ++ rest))
    {fs : List (Fragment α)} {tss : List (List (Token α))} (h : List.Forall₂ (Spells d) fs tss) :
    Spells d (Fragment.separated separator fs) (tokensBetween t tss) := by
  induction h with
  | nil =>
    intro n pending rest _
    simp [Fragment.separated, Fragment.render, Fragment.operands, marked, tokensBetween]
  | @cons f ts fs tss first rest ih =>
    cases rest with
    | nil => exact first
    | cons second rest =>
      refine first.append (ih.after hs) fun n rest _ => ?_
      rw [Fragment.render, String.toList_append, List.append_assoc]
      exact ends _

namespace Expr

variable {d : Dialect} (hd : d.Legible)

include hd

theorem lex_oneEquals {c : Char} {t : Token α} (word : [c].all isWordChar = true)
    (h : Token.ofWord? [c] = some t) {pending : List (List Char × α)} {rest : List Char}
    (he : Ends rest) :
    lex d.quote pending ('1' :: ' ' :: '=' :: ' ' :: c :: rest) =
      (lex d.quote pending rest).map ([.number 1, .sign .eq, t] ++ ·) := by
  have one : ['1'].all isWordChar = true := by decide
  have equals : ['='].all isSignChar = true := by decide
  have number : Token.ofWord? ['1'] = some (.number 1 : Token α) := rfl
  have first := lex_word pending hd.quote one number
    (ends_blank ('=' :: ' ' :: c :: rest))
  have sign := lex_signs pending hd.quote equals
    (rfl : Token.ofSigns? ['='] = some (.sign .eq)) (ends_blank (c :: rest))
  have last := lex_word pending hd.quote word h he
  simp only [List.cons_append, List.nil_append, lex_blank] at first sign last
  rw [first, sign, last]
  simp [Function.comp_def]

theorem spells_constant (b : Bool) :
    Spells d ((constant b : Expr α).pieces d.ident) (tokens (constant b)) := by
  intro n pending rest he
  cases b with
  | false =>
    simp only [pieces, Fragment.render, Fragment.operands, marked, String.append_empty]
    exact lex_oneEquals hd (c := '0') (by decide) rfl he
  | true =>
    simp only [pieces, Fragment.render, Fragment.operands, marked, String.append_empty]
    exact lex_oneEquals hd (c := '1') (by decide) rfl he

theorem spells_nullTest (c : ColumnRef) (negated : Bool) :
    Spells d ((nullTest c negated : Expr α).pieces d.ident) (tokens (nullTest c negated)) := by
  intro n pending rest he
  have words (ks : List Keyword) (s : String)
      (eq : s.toList = ks.flatMap fun k => ' ' :: k.word.toList) (ends : Ends (s.toList ++ rest)) :
      lex d.quote pending ((columnText d.ident c ++ s).toList ++ rest) =
        (lex d.quote pending rest).map (c.tokens ++ ks.map Token.keyword ++ ·) := by
    rw [String.toList_append, List.append_assoc, lex_column hd c ends, eq,
      lex_phrase hd ks pending he]
    simp [Function.comp_def]
  simp only [pieces, Fragment.render, Fragment.operands, marked, String.append_empty]
  cases negated with
  | false => exact words [.is, .null] " IS NULL" rfl (ends_blank _)
  | true => exact words [.is, .not, .null] " IS NOT NULL" rfl (ends_blank _)

theorem leads_sign {s : String} {c : Char} {cs : List Char} {t : Token α} (eq : s.toList = c :: cs)
    (run : (c :: cs).all isSignChar = true) (h : Token.ofSigns? (c :: cs) = some t) :
    Leads d (" " ++ s ++ " ") [t] := by
  intro pending rest
  have sign := lex_signs pending hd.quote run h (ends_blank rest)
  rw [lex_blank] at sign
  rw [String.toList_append, String.toList_append, eq]
  show lex d.quote pending (' ' :: (c :: cs ++ [' '] ++ rest)) = _
  rw [lex_blank, List.append_assoc]
  exact sign

theorem leads_comparison (op : Comparison) :
    Leads d (" " ++ op.symbol ++ " ") (op.tokens : List (Token α)) := by
  cases op with
  | eq => exact leads_sign hd (show "=".toList = ['='] from rfl) (by decide) rfl
  | ne => exact leads_sign hd (show "<>".toList = ['<', '>'] from rfl) (by decide) rfl
  | gt => exact leads_sign hd (show ">".toList = ['>'] from rfl) (by decide) rfl
  | lt => exact leads_sign hd (show "<".toList = ['<'] from rfl) (by decide) rfl
  | ge => exact leads_sign hd (show ">=".toList = ['>', '='] from rfl) (by decide) rfl
  | le => exact leads_sign hd (show "<=".toList = ['<', '='] from rfl) (by decide) rfl
  | like => exact leads_keyword hd .like
  | notLike =>
    intro pending rest
    have words := lex_phrase hd [.not, .like] pending (ends_blank rest)
    rw [lex_blank] at words
    exact words

theorem leads_listOpening (ks : List Keyword) {s : String}
    (eq : s.toList = ks.flatMap (fun k => ' ' :: k.word.toList) ++ [' ', '(']) :
    Leads d s (ks.map Token.keyword ++ [.leftParen] : List (Token α)) := by
  intro pending rest
  rw [eq, List.append_assoc, List.cons_append, List.singleton_append,
    lex_phrase hd ks pending (ends_blank _), lex_blank, lex_punctuation hd.quote rfl]
  simp [Function.comp_def]

theorem leads_select : Leads d "SELECT " ([.keyword .select] : List (Token α)) := by
  intro pending rest
  have word : lex d.quote pending (Keyword.select.word.toList ++ ' ' :: rest) = _ :=
    lex_keyword hd.quote .select (ends_blank rest)
  rw [lex_blank] at word
  exact word

theorem spells_holes (operands : List α) :
    Spells d (holes operands) (tokensBetween .comma (operands.map fun a => [.operand a])) := by
  apply spells_separated (leads_comma hd) fun rest => ends_comma (' ' :: rest)
  rw [List.forall₂_map_left_iff, List.forall₂_map_right_iff, List.forall₂_same]
  exact fun a _ => spells_hole hd a

theorem spells_compare (c : ColumnRef) (op : Comparison) (a : α) :
    Spells d ((compare c op a).pieces d.ident) (tokens (compare c op a)) := by
  have ends : ∀ rest, Ends ((" " ++ op.symbol ++ " ").toList ++ rest) := by
    intro rest
    rw [String.toList_append, String.toList_append]
    exact ends_blank _
  have lead := leads_column hd c (leads_comparison (α := α) hd op) ends
  rw [← String.append_assoc, ← String.append_assoc] at lead
  exact (spells_hole hd a).after lead

theorem spells_between (c : ColumnRef) (low high : α) :
    Spells d ((between c low high).pieces d.ident) (tokens (between c low high)) := by
  have bounds : Spells d (Fragment.separated " AND " [[.hole low], [.hole high]])
      (tokensBetween (.keyword .and) [[.operand low], [.operand high]]) :=
    spells_separated (leads_keyword hd .and) (fun rest => ends_blank _)
      (.cons (spells_hole hd low) (.cons (spells_hole hd high) .nil))
  have lead : Leads d (columnText d.ident c ++ " BETWEEN ")
      (c.tokens ++ [.keyword .between] : List (Token α)) :=
    leads_column hd c (leads_keyword hd .between) fun rest => ends_blank _
  simpa [pieces, tokens, tokensBetween, Fragment.separated] using bounds.after lead

theorem spells_among (c : ColumnRef) (negated : Bool) (operands : List α) :
    Spells d ((among c negated operands).pieces d.ident) (tokens (among c negated operands)) := by
  have list := (spells_holes hd operands).closed hd
  cases negated with
  | false =>
    have lead : Leads d (columnText d.ident c ++ " IN (")
        (c.tokens ++ [.keyword .isIn, .leftParen] : List (Token α)) :=
      leads_column hd c (leads_listOpening hd [.isIn] rfl) fun rest => ends_blank _
    simpa [pieces, tokens] using list.after lead
  | true =>
    have lead : Leads d (columnText d.ident c ++ " NOT IN (")
        (c.tokens ++ [.keyword .not, .keyword .isIn, .leftParen] : List (Token α)) :=
      leads_column hd c (leads_listOpening hd [.not, .isIn] rfl) fun rest => ends_blank _
    simpa [pieces, tokens] using list.after lead

theorem leads_subquery (c : ColumnRef) (table key : String) :
    Leads d
      (columnText d.ident c ++ " IN (SELECT " ++ columnText d.ident ⟨some table, key⟩ ++ " FROM " ++
        d.ident table ++ " WHERE ")
      (c.tokens ++ [.keyword .isIn, .leftParen, .keyword .select] ++
        ColumnRef.tokens ⟨some table, key⟩ ++
        [.keyword .fromTable, .name table, .keyword .whereRows] : List (Token α)) := by
  have list : Leads d " IN (" ([.keyword .isIn, .leftParen] : List (Token α)) :=
    leads_listOpening hd [.isIn] rfl
  have words : Leads d " IN (SELECT "
      ([.keyword .isIn, .leftParen, .keyword .select] : List (Token α)) :=
    list.append (leads_select hd)
  have opening := leads_column hd c words fun rest => ends_blank _
  have selected : Leads d (columnText d.ident ⟨some table, key⟩ ++ " FROM ")
      (ColumnRef.tokens ⟨some table, key⟩ ++ [.keyword .fromTable] : List (Token α)) :=
    leads_column hd _ (leads_keyword hd .fromTable) fun rest => ends_blank _
  have rows : Leads d (d.ident table ++ " WHERE ")
      ([.name table, .keyword .whereRows] : List (Token α)) :=
    leads_column hd ⟨none, table⟩ (leads_keyword hd .whereRows) fun rest => ends_blank _
  simpa [String.append_assoc] using opening.append (selected.append rows)

theorem spells_part {e : Expr α} (h : Spells d (e.pieces d.ident) e.tokens) :
    Spells d (e.partFragment d.ident) e.partTokens := by
  rw [partFragment, partTokens]
  split
  · exact h.inParens hd
  · exact h

/-- The text of a condition gives its tokens back. -/
theorem spells_pieces (e : Expr α) : Spells d (e.pieces d.ident) e.tokens := by
  induction e with
  | constant b => exact spells_constant hd b
  | nullTest c negated => exact spells_nullTest hd c negated
  | compare c op a => exact spells_compare hd c op a
  | between c low high => exact spells_between hd c low high
  | among c negated operands => exact spells_among hd c negated operands
  | amongRows c table key inner ih =>
    rw [pieces, tokens, List.append_assoc _ inner.tokens]
    exact (ih.closed hd).after (leads_subquery hd c table key)
  | junction op parts ih =>
    have each : List.Forall₂ (Spells d) (parts.map (partFragment d.ident))
        (parts.map partTokens) := by
      rw [List.forall₂_map_left_iff, List.forall₂_map_right_iff, List.forall₂_same]
      exact fun e he => spells_part hd (ih e he)
    rw [pieces, tokens, partPieces_eq, partTokensOfAll_eq]
    cases op with
    | and => exact spells_separated (leads_keyword hd .and) (fun rest => ends_blank _) each
    | or => exact spells_separated (leads_keyword hd .or) (fun rest => ends_blank _) each

end Expr

end Sql

end EntityStore
