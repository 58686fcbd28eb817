import EntityStore.Json.Reader
import EntityStore.Json.Writer
import EntityStore.Proofs.Text.Digits

namespace EntityStore.Json

section Texts

/-- What the digits of a control character stand for. -/
theorem textBody_control {c : Char} (control : c.toNat < 32) (rest : List Char) :
    textBody ('\\' :: 'u' :: (Text.hexPlaces 4 c.toNat ++ rest)) =
      (textBody rest).map fun r => (.char c :: r.1, r.2) := by
  have number : ∀ n < 32, Text.hexNumber? (Text.hexPlaces 4 n) = some n := by decide
  have part : unitPart c.toNat = .char c := by
    rw [unitPart, if_neg (by omega), Char.ofNat_toNat]
  have digits : Text.hexPlaces 4 c.toNat = [Text.hexDigit (c.toNat / 16 / 16 / 16),
      Text.hexDigit (c.toNat / 16 / 16), Text.hexDigit (c.toNat / 16), Text.hexDigit c.toNat] := rfl
  have read := number c.toNat control
  rw [digits] at read ⊢
  simp only [List.cons_append, List.nil_append]
  rw [textBody, read]
  simp only [part]

/-- A character is written as itself, after a backslash by a letter, or by its number. -/
theorem escape_cases (c : Char) :
    (∃ e, escape c = ['\\', e] ∧ e ≠ 'u' ∧ unescape? e = some c) ∨
    (escape c = '\\' :: 'u' :: Text.hexPlaces 4 c.toNat ∧ c.toNat < 32) ∨
    (escape c = [c] ∧ c ≠ '"' ∧ c ≠ '\\' ∧ ¬ c.toNat < 32) := by
  fun_cases escape c with
  | case8 _ _ _ _ _ _ _ control => exact .inr (.inl ⟨rfl, control⟩)
  | case9 quote backslash _ _ _ _ _ printable =>
    exact .inr (.inr ⟨rfl, quote, backslash, printable⟩)
  | _ =>
    subst_vars
    exact .inl ⟨_, rfl, by decide, rfl⟩

/-- An escaped character is read as the character. -/
theorem textBody_escape (c : Char) (rest : List Char) :
    textBody (escape c ++ rest) = (textBody rest).map fun r => (.char c :: r.1, r.2) := by
  rcases escape_cases c with ⟨e, written, noNumber, read⟩ | ⟨written, control⟩ |
    ⟨written, quote, backslash, printable⟩
  · rw [written, List.cons_append, List.cons_append, List.nil_append, textBody, read]
    intro _ _ _ _ _ same
    exact absurd same noNumber
  · rw [written]
    exact textBody_control control rest
  · rw [written, List.cons_append, List.nil_append, textBody, if_neg printable]
    · exact quote
    · intro _ _ _ _ _ same
      exact absurd same backslash
    · intro _ _ same
      exact absurd same backslash

theorem textBody_escapes (cs rest : List Char) :
    textBody (cs.flatMap escape ++ '"' :: rest) = some (cs.map .char, rest) := by
  induction cs with
  | nil => rfl
  | cons c cs ih =>
    rw [List.flatMap_cons, List.append_assoc, textBody_escape, ih]
    rfl

theorem joinHalves_chars (cs : List Char) : joinHalves (cs.map .char) = some cs := by
  induction cs with
  | nil => rfl
  | cons c cs ih =>
    rw [List.map_cons, joinHalves, ih]
    rfl

theorem readText?_quoted (s : String) (rest : List Char) :
    readText? (quoted s ++ rest) = some (some s, rest) := by
  rw [quoted, List.cons_append, List.append_assoc, List.singleton_append, readText?,
    textBody_escapes, Option.map_some, joinHalves_chars, Option.map_some, String.ofList_toList]

end Texts

section Numbers

/-- What may follow a document inside another one, or the end. -/
def Stops (rest : List Char) : Prop := ∀ c ∈ rest.head?, c = ',' ∨ c = ']' ∨ c = '\x7d'

theorem Stops.noDigitAhead {rest : List Char} (stops : Stops rest) : Text.NoDigitAhead rest := by
  intro c first
  rcases stops c first with rfl | rfl | rfl <;> rfl

theorem readDigits?_digits {ds : List Nat} (areDigits : Text.AreDigits ds) (some : ds ≠ [])
    {rest : List Char} (ends : Text.NoDigitAhead rest) :
    readDigits? (digitChars ds ++ rest) = .some (ds, rest) := by
  have fits : ds.length ≤ (digitChars ds ++ rest).length := by
    rw [List.length_append, digitChars, List.length_map]
    exact Nat.le_add_right _ _
  have taken : Text.takeDigits (digitChars ds ++ rest).length (digitChars ds ++ rest) =
      (ds, rest) := Text.takeDigits_digits areDigits fits (.inr ends)
  unfold readDigits?
  rw [taken]
  cases ds with
  | nil => exact absurd rfl some
  | cons d ds => rfl

theorem readFraction?_stops {rest : List Char} (stops : Stops rest) :
    readFraction? rest = some (none, rest) := by
  cases rest with
  | nil => rfl
  | cons c cs => rcases stops c rfl with rfl | rfl | rfl <;> rfl

theorem readExponent?_stops {rest : List Char} (stops : Stops rest) :
    readExponent? rest = some (none, rest) := by
  cases rest with
  | nil => rfl
  | cons c cs => rcases stops c rfl with rfl | rfl | rfl <;> rfl

theorem numeral_ofInt (n : Int) :
    numeral (.ofInt n) =
      (if n < 0 then ['-'] else []) ++ digitChars (Numeral.digitsOf n.natAbs) := by
  simp [numeral, Numeral.ofInt]

/-- An integer is read as the numeral of its digits. -/
theorem readNumber?_numeral (n : Int) {rest : List Char} (stops : Stops rest) :
    readNumber? (numeral (.ofInt n) ++ rest) = some (.ofInt n, rest) := by
  obtain ⟨d, ds, digits⟩ := List.exists_cons_of_ne_nil (Text.digitsOf_ne_nil n.natAbs)
  have whole : readDigits? (digitChars (d :: ds) ++ rest) = some (d :: ds, rest) := by
    rw [← digits]
    exact readDigits?_digits (Text.areDigits_digitsOf _) (Text.digitsOf_ne_nil _) stops.noDigitAhead
  have leading : ¬ ((d :: ds).length ≠ 1 ∧ (d :: ds).head? = some 0) := by
    rw [← digits]
    intro zeros
    have zero : n.natAbs = 0 := by
      have := mt Text.head_digitsOf_ne_zero (not_not_intro zeros.2)
      omega
    rw [zero] at zeros
    exact zeros.1 rfl
  rw [numeral_ofInt, digits, Numeral.ofInt, digits]
  by_cases negative : n < 0
  · rw [if_pos negative, decide_eq_true negative]
    simp only [List.cons_append, List.nil_append, readNumber?, whole, Option.bind_eq_bind,
      Option.bind_some, if_neg leading, readFraction?_stops stops, readExponent?_stops stops]
  · have first : d < 10 := Text.areDigits_digitsOf n.natAbs d (by simp [digits])
    have noSign : d.digitChar ≠ '-' := by
      intro sign
      have digit := Nat.isDigit_digitChar (n := d)
      rw [sign, decide_eq_true first] at digit
      exact absurd digit (by decide)
    rw [if_neg negative, decide_eq_false negative, List.nil_append]
    rw [digitChars, List.map_cons, List.cons_append] at whole ⊢
    unfold readNumber?
    split
    next _ sign cs taken =>
      split at taken
      next same => exact absurd (List.cons.inj same).1 noSign
      next =>
        cases taken
        simp only [whole, Option.bind_eq_bind, Option.bind_some, if_neg leading,
          readFraction?_stops stops, readExponent?_stops stops]

end Numbers

/-- Documents whose numbers are integers and whose texts stand for characters. -/
inductive Plain : Json → Prop
  | null : Plain .null
  | bool (b : Bool) : Plain (.bool b)
  | int (n : Int) : Plain (.ofInt n)
  | text (s : String) : Plain (.text s)
  | list {items : List Json} : (∀ j ∈ items, Plain j) → Plain (.list items)
  | object {members : List (String × Json)} : (∀ m ∈ members, Plain m.2) → Plain (.object members)

section Documents

/-- A document begins with neither a blank nor the end of a list. -/
def Begins (cs : List Char) : Prop :=
  ∃ c rest, cs = c :: rest ∧ isBlank c = false ∧ c ≠ ']'

theorem Begins.skipBlanks {cs : List Char} (begins : Begins cs) (rest : List Char) :
    skipBlanks (cs ++ rest) = cs ++ rest := by
  obtain ⟨c, others, rfl, noBlank, -⟩ := begins
  rw [Json.skipBlanks, List.cons_append, List.dropWhile_cons_of_neg]
  simp [noBlank]

theorem begins_quoted (s : String) : Begins (quoted s) := ⟨'"', _, rfl, rfl, by decide⟩

/-- The characters that numbers begin with. -/
def numberMarks : List Char := ['-', '0', '1', '2', '3', '4', '5', '6', '7', '8', '9']

theorem numeral_first (n : Int) : ∃ c rest, numeral (.ofInt n) = c :: rest ∧ c ∈ numberMarks := by
  obtain ⟨d, ds, digits⟩ := List.exists_cons_of_ne_nil (Text.digitsOf_ne_nil n.natAbs)
  rw [numeral_ofInt, digits]
  by_cases negative : n < 0
  · rw [if_pos negative]
    exact ⟨'-', _, rfl, List.mem_cons_self⟩
  · have first : d < 10 := Text.areDigits_digitsOf n.natAbs d (by simp [digits])
    have digits : ∀ d < 10, Nat.digitChar d ∈ numberMarks := by decide
    rw [if_neg negative]
    exact ⟨d.digitChar, _, rfl, digits d first⟩

theorem begins_numeral (n : Int) : Begins (numeral (.ofInt n)) := by
  obtain ⟨c, rest, written, mark⟩ := numeral_first n
  have marks : ∀ c ∈ numberMarks, isBlank c = false ∧ c ≠ ']' := by simp [numberMarks, isBlank]
  exact ⟨c, rest, written, marks c mark⟩

/-- A document is found at the front of its text, with two units of fuel for each character. -/
structure Reads (j : Json) : Prop where
  begins : Begins (chars j)
  read : ∀ fuel rest, Stops rest → 2 * (chars j).length ≤ fuel + 1 →
    readValue? (fuel + 1) (chars j ++ rest) = some (j, rest)

theorem Reads.front {j : Json} (reads : Reads j) {fuel : Nat} {rest : List Char}
    (stops : Stops rest) (enough : 2 * (chars j).length ≤ fuel) :
    readValue? fuel (chars j ++ rest) = some (j, rest) := by
  obtain ⟨c, others, written, -⟩ := reads.begins
  cases fuel with
  | zero => simp [written] at enough
  | succ fuel => exact reads.read fuel rest stops enough

theorem reads_null : Reads .null := by
  refine ⟨⟨'n', _, rfl, rfl, by decide⟩, ?_⟩
  intro fuel rest stops enough
  rfl

theorem reads_bool (b : Bool) : Reads (.bool b) := by
  cases b with
  | false =>
    refine ⟨⟨'f', _, rfl, rfl, by decide⟩, ?_⟩
    intro fuel rest stops enough
    rfl
  | true =>
    refine ⟨⟨'t', _, rfl, rfl, by decide⟩, ?_⟩
    intro fuel rest stops enough
    rfl

theorem reads_int (n : Int) : Reads (.ofInt n) := by
  refine ⟨begins_numeral n, ?_⟩
  intro fuel rest stops enough
  obtain ⟨c, others, written, mark⟩ := numeral_first n
  have marks : ∀ c ∈ numberMarks,
      c ≠ '"' ∧ c ≠ '[' ∧ c ≠ '\x7b' ∧ c ≠ 'n' ∧ c ≠ 't' ∧ c ≠ 'f' := by simp [numberMarks]
  obtain ⟨quote, bracket, brace, null, yes, no⟩ := marks c mark
  have number := readNumber?_numeral n stops
  rw [ofInt, chars, readValue?, (begins_numeral n).skipBlanks]
  rw [written, List.cons_append] at number ⊢
  simp only [if_neg quote, if_neg bracket, if_neg brace, if_neg null, if_neg yes, if_neg no, number]
  rfl

theorem reads_text (s : String) : Reads (.text s) := by
  refine ⟨begins_quoted s, ?_⟩
  intro fuel rest stops enough
  have read := readText?_quoted s rest
  rw [chars, readValue?, (begins_quoted s).skipBlanks]
  rw [quoted, List.cons_append] at read ⊢
  simp only [↓reduceIte, read]
  rfl

theorem stops_cons {c : Char} (mark : c = ',' ∨ c = ']' ∨ c = '\x7d') (rest : List Char) :
    Stops (c :: rest) := by
  intro d first
  rw [← Option.some.inj first]
  exact mark

theorem expect?_colon (cs : List Char) : expect? [':'] (skipBlanks (':' :: cs)) = some cs := rfl

theorem itemChars_cons (j k : Json) (ks : List Json) :
    itemChars (j :: k :: ks) = chars j ++ ',' :: itemChars (k :: ks) := by
  rw [itemChars]
  simp

theorem memberChars_cons (key : String) (j : Json) (m : String × Json)
    (ms : List (String × Json)) :
    memberChars ((key, j) :: m :: ms) =
      quoted key ++ ':' :: (chars j ++ ',' :: memberChars (m :: ms)) := by
  rw [memberChars]
  simp

section Parts

variable {j : Json} {fuel : Nat} {cs rest : List Char}

theorem readItems?_last (last : Reads j) (enough : 2 * (chars j).length ≤ fuel) :
    readItems? (fuel + 1) (chars j ++ ']' :: rest) = some ([j], rest) := by
  rw [readItems?, last.front (stops_cons (.inr (.inl rfl)) rest) enough]
  rfl

theorem readItems?_more {js : List Json} (first : Reads j) (enough : 2 * (chars j).length ≤ fuel)
    (others : readItems? fuel cs = some (js, rest)) :
    readItems? (fuel + 1) (chars j ++ ',' :: cs) = some (j :: js, rest) := by
  have comma : skipBlanks (',' :: cs) = ',' :: cs := rfl
  rw [readItems?, first.front (stops_cons (.inl rfl) cs) enough]
  simp only [Option.bind_eq_bind, Option.bind_some, comma, others]

theorem readMembers?_last (key : String) (last : Reads j) (enough : 2 * (chars j).length ≤ fuel) :
    readMembers? (fuel + 1) (quoted key ++ ':' :: (chars j ++ '\x7d' :: rest)) =
      some ([(some key, j)], rest) := by
  have brace : skipBlanks ('\x7d' :: rest) = '\x7d' :: rest := rfl
  rw [readMembers?, (begins_quoted key).skipBlanks, readText?_quoted]
  simp only [Option.bind_eq_bind, Option.bind_some, expect?_colon,
    last.front (stops_cons (.inr (.inr rfl)) rest) enough, brace]

theorem readMembers?_more (key : String) {ms : List (Option String × Json)} (first : Reads j)
    (enough : 2 * (chars j).length ≤ fuel) (others : readMembers? fuel cs = some (ms, rest)) :
    readMembers? (fuel + 1) (quoted key ++ ':' :: (chars j ++ ',' :: cs)) =
      some ((some key, j) :: ms, rest) := by
  have comma : skipBlanks (',' :: cs) = ',' :: cs := rfl
  rw [readMembers?, (begins_quoted key).skipBlanks, readText?_quoted]
  simp only [Option.bind_eq_bind, Option.bind_some, expect?_colon,
    first.front (stops_cons (.inl rfl) cs) enough, comma, others]

end Parts

/-- Items are read one by one, each with one unit of fuel less than the one before. -/
theorem readItems?_itemChars {items : List Json} (some : items ≠ [])
    (each : ∀ j ∈ items, Reads j) {fuel : Nat} (rest : List Char)
    (enough : 2 * (itemChars items).length + 1 ≤ fuel) :
    readItems? fuel (itemChars items ++ ']' :: rest) = .some (items, rest) := by
  induction items generalizing fuel with
  | nil => exact absurd rfl some
  | cons j js ih =>
    obtain ⟨first, others⟩ := List.forall_mem_cons.mp each
    cases fuel with
    | zero => exact absurd enough (Nat.not_succ_le_zero _)
    | succ fuel =>
      cases js with
      | nil => exact readItems?_last first (Nat.le_of_succ_le_succ enough)
      | cons k ks =>
        rw [itemChars_cons, List.length_append, List.length_cons] at enough
        rw [itemChars_cons, List.append_assoc, List.cons_append]
        apply readItems?_more first (by omega)
        exact ih (List.cons_ne_nil k ks) others (by omega)

/-- The same for members, whose keys need no fuel. -/
theorem readMembers?_memberChars {members : List (String × Json)} (some : members ≠ [])
    (each : ∀ m ∈ members, Reads m.2) {fuel : Nat} (rest : List Char)
    (enough : 2 * (memberChars members).length + 1 ≤ fuel) :
    readMembers? fuel (memberChars members ++ '\x7d' :: rest) =
      .some (members.map fun m => (.some m.1, m.2), rest) := by
  induction members generalizing fuel with
  | nil => exact absurd rfl some
  | cons m ms ih =>
    obtain ⟨key, j⟩ := m
    have first : Reads j := each (key, j) List.mem_cons_self
    have others : ∀ m ∈ ms, Reads m.2 := fun m hm => each m (List.mem_cons_of_mem _ hm)
    cases fuel with
    | zero => exact absurd enough (Nat.not_succ_le_zero _)
    | succ fuel =>
      cases ms with
      | nil =>
        rw [memberChars, List.length_append, List.length_cons] at enough
        rw [memberChars, List.append_assoc, List.cons_append]
        exact readMembers?_last key first (by omega)
      | cons n ns =>
        rw [memberChars_cons, List.length_append, List.length_cons, List.length_append,
          List.length_cons] at enough
        rw [memberChars_cons, List.append_assoc, List.cons_append, List.append_assoc,
          List.cons_append]
        apply readMembers?_more key first (by omega)
        exact ih (List.cons_ne_nil n ns) others (by omega)

/-- The text of items, of which there are some, begins with the first of them. -/
theorem begins_itemChars {j : Json} (first : Reads j) (js : List Json) :
    Begins (itemChars (j :: js)) := by
  obtain ⟨c, rest, written, begins⟩ := first.begins
  cases js with
  | nil => exact ⟨c, rest, written, begins⟩
  | cons k ks =>
    rw [itemChars_cons, written]
    exact ⟨c, _, rfl, begins⟩

/-- The text of members begins with the first key. -/
theorem memberChars_first (m : String × Json) (ms : List (String × Json)) :
    ∃ cs, memberChars (m :: ms) = '"' :: cs := by
  obtain ⟨key, j⟩ := m
  cases ms with
  | nil => exact ⟨_, rfl⟩
  | cons n ns =>
    rw [memberChars_cons]
    exact ⟨_, rfl⟩

theorem reads_list {items : List Json} (each : ∀ j ∈ items, Reads j) : Reads (.list items) := by
  refine ⟨⟨'[', _, rfl, rfl, by decide⟩, ?_⟩
  intro fuel rest stops enough
  cases items with
  | nil => rfl
  | cons j js =>
    have begins := begins_itemChars (each j List.mem_cons_self) js
    have read : readItems? fuel (itemChars (j :: js) ++ ']' :: rest) = some (j :: js, rest) := by
      apply readItems?_itemChars (List.cons_ne_nil j js) each
      rw [chars, List.length_cons, List.length_append, List.length_singleton] at enough
      omega
    have bracket (cs : List Char) : skipBlanks ('[' :: cs) = '[' :: cs := rfl
    have unblanked := begins.skipBlanks (']' :: rest)
    obtain ⟨c, others, written, -, noEnd⟩ := begins
    rw [chars, List.cons_append, List.append_assoc, List.singleton_append, readValue?, bracket]
    simp only [↓reduceIte, Char.reduceEq, unblanked]
    split
    next same =>
      rw [written] at same
      exact absurd (List.cons.inj same).1 noEnd
    next => rw [read, Option.map_some]

theorem ofMembers?_some (members : List (String × Json)) :
    ofMembers? (members.map fun m => (some m.1, m.2)) = .object members := by
  have keys : ((members.map fun m => (some m.1, m.2)).mapM fun m : Option String × Json =>
      m.1.map fun k => (k, m.2)) = some members := by
    rw [List.mapM_map]
    induction members with
    | nil => rfl
    | cons m ms ih =>
      rw [List.mapM_cons, ih]
      rfl
  rw [ofMembers?, keys]

theorem reads_object {members : List (String × Json)} (each : ∀ m ∈ members, Reads m.2) :
    Reads (.object members) := by
  refine ⟨⟨'\x7b', _, rfl, rfl, by decide⟩, ?_⟩
  intro fuel rest stops enough
  cases members with
  | nil => rfl
  | cons m ms =>
    have read : readMembers? fuel (memberChars (m :: ms) ++ '\x7d' :: rest) =
        some ((m :: ms).map fun m => (some m.1, m.2), rest) := by
      apply readMembers?_memberChars (List.cons_ne_nil m ms) each
      rw [chars, List.length_cons, List.length_append, List.length_singleton] at enough
      omega
    have brace (cs : List Char) : skipBlanks ('\x7b' :: cs) = '\x7b' :: cs := rfl
    have quote (cs : List Char) : skipBlanks ('"' :: cs) = '"' :: cs := rfl
    obtain ⟨cs, written⟩ := memberChars_first m ms
    rw [chars, List.cons_append, List.append_assoc, List.singleton_append, readValue?, brace]
    rw [written, List.cons_append] at read ⊢
    simp only [↓reduceIte, Char.reduceEq, quote]
    change (readMembers? fuel _).map _ = _
    rw [read, Option.map_some, ofMembers?_some]

theorem Plain.reads {j : Json} (plain : Plain j) : Reads j := by
  induction plain with
  | null => exact reads_null
  | bool b => exact reads_bool b
  | int n => exact reads_int n
  | text s => exact reads_text s
  | list _ ih => exact reads_list ih
  | object _ ih => exact reads_object ih

end Documents

end EntityStore.Json
