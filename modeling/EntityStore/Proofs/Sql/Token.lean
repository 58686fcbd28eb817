import EntityStore.Sql.Expr
import EntityStore.Dialect
import EntityStore.Text.Decimal
import Mathlib.Data.List.Basic

namespace EntityStore

namespace Sql

/-- Words with a meaning of their own. -/
inductive Keyword where
  | and
  | or
  | not
  | is
  | null
  | between
  | isIn
  | like
  | select
  | fromTable
  | whereRows
  deriving DecidableEq

def Keyword.word : Keyword → String
  | .and => "AND"
  | .or => "OR"
  | .not => "NOT"
  | .is => "IS"
  | .null => "NULL"
  | .between => "BETWEEN"
  | .isIn => "IN"
  | .like => "LIKE"
  | .select => "SELECT"
  | .fromTable => "FROM"
  | .whereRows => "WHERE"

def Keyword.all : List Keyword :=
  [.and, .or, .not, .is, .null, .between, .isIn, .like, .select, .fromTable, .whereRows]

inductive Token (α : Type) where
  | name (s : String)
  | keyword (k : Keyword)
  | number (n : Nat)
  | sign (op : Comparison)
  | leftParen
  | rightParen
  | comma
  | dot
  | operand (a : α)

def isWordChar (c : Char) : Bool := c.isAlphanum || c == '_'

def isSignChar (c : Char) : Bool := c == '=' || c == '<' || c == '>'

/-- Characters that belong to the language and neither quote identifiers nor begin marks. -/
def isReserved (c : Char) : Bool :=
  c == ' ' || isWordChar c || isSignChar c || c == '(' || c == ')' || c == ',' || c == '.'

namespace Token

variable {α : Type}

/-- A run of letters and digits. -/
def ofWord? (run : List Char) : Option (Token α) :=
  match Keyword.all.find? fun k => k.word.toList = run with
  | some k => some (.keyword k)
  | none => (run.mapM Text.digit?).map fun digits => .number (Text.ofDigits digits)

def ofSigns? : List Char → Option (Token α)
  | ['='] => some (.sign .eq)
  | ['<', '>'] => some (.sign .ne)
  | ['>'] => some (.sign .gt)
  | ['<'] => some (.sign .lt)
  | ['>', '='] => some (.sign .ge)
  | ['<', '='] => some (.sign .le)
  | _ => none

def ofPunctuation? : Char → Option (Token α)
  | '(' => some .leftParen
  | ')' => some .rightParen
  | ',' => some .comma
  | '.' => some .dot
  | _ => none

/-- The first token of a text that begins with `c`, the marks still to come, and the rest. Only the
next mark is looked for. -/
def next? (q : Char) (pending : List (List Char × α)) (c : Char) (rest : List Char) :
    Option (Token α × List (List Char × α) × List Char) :=
  if c = q then
    (Text.readQuoted q rest).map fun r => (.name (String.ofList r.1), pending, r.2)
  else if isWordChar c then
    (ofWord? (c :: rest.takeWhile isWordChar)).map fun t => (t, pending, rest.dropWhile isWordChar)
  else if isSignChar c then
    (ofSigns? (c :: rest.takeWhile isSignChar)).map fun t => (t, pending, rest.dropWhile isSignChar)
  else match ofPunctuation? c with
    | some t => some (t, pending, rest)
    | none =>
      match pending with
      | (m :: mark, a) :: more =>
        if m == c && mark.isPrefixOf rest then some (.operand a, more, rest.drop mark.length)
        else none
      | _ => none

theorem next?_length {q : Char} {pending more : List (List Char × α)} {c : Char}
    {rest rest' : List Char} {t : Token α} (h : next? q pending c rest = some (t, more, rest')) :
    rest'.length ≤ rest.length := by
  have dropped (p : Char → Bool) : (rest.dropWhile p).length ≤ rest.length :=
    (List.dropWhile_sublist p).length_le
  unfold next? at h
  split at h
  · obtain ⟨r, hr, eq⟩ := Option.map_eq_some_iff.mp h
    cases eq
    exact Nat.le_of_lt (Text.readQuoted_length hr)
  · split at h
    · obtain ⟨_, -, eq⟩ := Option.map_eq_some_iff.mp h
      cases eq
      exact dropped _
    · split at h
      · obtain ⟨_, -, eq⟩ := Option.map_eq_some_iff.mp h
        cases eq
        exact dropped _
      · split at h
        · cases h
          exact Nat.le_refl _
        · split at h
          · split at h
            · cases h
              rw [List.length_drop]
              exact Nat.sub_le _ _
            · cases h
          · cases h

end Token

/-- The tokens of a text in which marks stand for operands, blanks left out. Every mark has to come
once, in order. -/
def lex {α : Type} (q : Char) (pending : List (List Char × α)) (text : List Char) :
    Option (List (Token α)) :=
  match text with
  | [] => if pending.isEmpty then some [] else none
  | c :: rest =>
    if c = ' ' then lex q pending rest
    else match _h : Token.next? q pending c rest with
      | none => none
      | some (t, more, rest') => (lex q more rest').map (t :: ·)
termination_by text.length
decreasing_by
  · simp
  · have := Token.next?_length _h
    simp only [List.length_cons]
    omega

/-- Texts that end the word or the sign before them. -/
def Ends (rest : List Char) : Prop := ∀ c ∈ rest.head?, c = ' ' ∨ c = ')' ∨ c = ','

theorem ends_nil : Ends [] := by simp [Ends]

theorem ends_blank (rest : List Char) : Ends (' ' :: rest) := by simp [Ends]

theorem ends_paren (rest : List Char) : Ends (')' :: rest) := by simp [Ends]

theorem ends_comma (rest : List Char) : Ends (',' :: rest) := by simp [Ends]

theorem Ends.head_ne {rest : List Char} (h : Ends rest) {q : Char} (hq : isReserved q = false) :
    rest.head? ≠ some q := by
  intro same
  rcases h q same with rfl | rfl | rfl <;> cases hq

/-- A run of characters of one class ends where the text behind it begins. -/
theorem Ends.run {p : Char → Bool} {rest : List Char} (h : Ends rest)
    (stops : p ' ' = false ∧ p ')' = false ∧ p ',' = false) {run : List Char}
    (all : ∀ c ∈ run, p c = true) :
    (run ++ rest).takeWhile p = run ∧ (run ++ rest).dropWhile p = rest := by
  rw [List.takeWhile_append_of_pos all, List.dropWhile_append_of_pos all]
  obtain ⟨blank, paren, comma⟩ := stops
  cases rest with
  | nil => simp
  | cons c cs =>
    have stop : p c = false := by
      rcases h c rfl with rfl | rfl | rfl <;> assumption
    simp [stop]

section

variable {α : Type} {q : Char} {pending : List (List Char × α)} {rest : List Char}

theorem lex_next {c : Char} {t : Token α} {more : List (List Char × α)} {rest' : List Char}
    (blank : c ≠ ' ') (h : Token.next? q pending c rest = some (t, more, rest')) :
    lex q pending (c :: rest) = (lex q more rest').map (t :: ·) := by
  rw [lex, if_neg blank]
  split
  · rename_i none
    rw [h] at none
    cases none
  · rename_i some
    rw [h] at some
    cases some
    rfl

theorem lex_blank : lex q pending (' ' :: rest) = lex q pending rest := by
  rw [lex, if_pos rfl]

theorem ne_of_reserved {c : Char} (hc : isReserved c = true) (hq : isReserved q = false) :
    c ≠ q := by
  intro same
  rw [same, hq] at hc
  cases hc

theorem lex_name (hq : isReserved q = false) (s : String) (h : rest.head? ≠ some q) :
    lex q pending ((Text.quote q s).toList ++ rest) = (lex q pending rest).map (.name s :: ·) := by
  have blank : q ≠ ' ' := (ne_of_reserved rfl hq).symm
  rw [Text.toList_quote, List.cons_append, List.append_assoc]
  apply lex_next blank
  simp [Token.next?, Text.readQuoted_double q s.toList rest h]

theorem lex_punctuation (hq : isReserved q = false) {c : Char} {t : Token α}
    (h : Token.ofPunctuation? c = some t) :
    lex q pending (c :: rest) = (lex q pending rest).map (t :: ·) := by
  have one : c = '(' ∨ c = ')' ∨ c = ',' ∨ c = '.' := by
    unfold Token.ofPunctuation? at h
    split at h <;> simp_all
  have other : c ≠ q := by
    rcases one with rfl | rfl | rfl | rfl <;> exact ne_of_reserved rfl hq
  have none : c ≠ ' ' ∧ isWordChar c = false ∧ isSignChar c = false := by
    rcases one with rfl | rfl | rfl | rfl <;> decide
  apply lex_next none.1
  simp [Token.next?, other, none, h]

theorem lex_word (pending : List (List Char × α)) (hq : isReserved q = false) {c : Char}
    {cs : List Char} {t : Token α} (run : (c :: cs).all isWordChar = true)
    (h : Token.ofWord? (c :: cs) = some t)
    (he : Ends rest) : lex q pending (c :: cs ++ rest) = (lex q pending rest).map (t :: ·) := by
  have all := List.all_eq_true.mp run
  have first : isWordChar c = true := all c List.mem_cons_self
  have other : c ≠ q := ne_of_reserved (by simp [isReserved, first]) hq
  have blank : c ≠ ' ' := by
    rintro rfl
    cases first
  obtain ⟨taken, dropped⟩ := he.run (by decide) fun x hx => all x (List.mem_cons_of_mem c hx)
  apply lex_next blank
  simp [Token.next?, other, first, taken, dropped, h]

theorem lex_signs (pending : List (List Char × α)) (hq : isReserved q = false) {c : Char}
    {cs : List Char} {t : Token α} (run : (c :: cs).all isSignChar = true)
    (h : Token.ofSigns? (c :: cs) = some t)
    (he : Ends rest) : lex q pending (c :: cs ++ rest) = (lex q pending rest).map (t :: ·) := by
  have all := List.all_eq_true.mp run
  have first : isSignChar c = true := all c List.mem_cons_self
  have other : c ≠ q := ne_of_reserved (by simp [isReserved, first]) hq
  have none : c ≠ ' ' ∧ isWordChar c = false := by
    simp only [isSignChar, Bool.or_eq_true, beq_iff_eq] at first
    rcases first with (rfl | rfl) | rfl <;> decide
  obtain ⟨taken, dropped⟩ := he.run (by decide) fun x hx => all x (List.mem_cons_of_mem c hx)
  apply lex_next none.1
  simp [Token.next?, other, none, first, taken, dropped, h]

theorem lex_mark {m : Char} {mark : List Char} {a : α} (hm : isReserved m = false) (other : m ≠ q) :
    lex q ((m :: mark, a) :: pending) (m :: mark ++ rest) =
      (lex q pending rest).map (.operand a :: ·) := by
  simp only [isReserved, Bool.or_eq_false_iff, beq_eq_false_iff_ne] at hm
  obtain ⟨⟨⟨⟨⟨⟨blank, word⟩, sign⟩, left⟩, right⟩, comma⟩, dot⟩ := hm
  have none : Token.ofPunctuation? (α := α) m = none := by
    unfold Token.ofPunctuation?
    split <;> simp_all
  have found : mark.isPrefixOf (mark ++ rest) = true := by simp
  apply lex_next blank
  simp [Token.next?, other, word, sign, none, found]

theorem lex_keyword (hq : isReserved q = false) (k : Keyword) (he : Ends rest) :
    lex q pending (k.word.toList ++ rest) = (lex q pending rest).map (.keyword k :: ·) := by
  cases k <;> exact lex_word pending hq (by decide) rfl he

end

end Sql

end EntityStore
