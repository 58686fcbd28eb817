import EntityStore.Dialect

namespace EntityStore

namespace Text

/-- The quoted text at the front, and what follows it. -/
def readDelimited (q : Char) : List Char → Option (String × List Char)
  | [] => none
  | c :: cs => if c = q then (readQuoted q cs).map fun r => (String.ofList r.1, r.2) else none

variable {q : Char}

/-- A text is read where its quotes are doubled and the closing one is not. -/
theorem readQuoted_eq_some_iff {cs name rest : List Char} :
    readQuoted q cs = some (name, rest) ↔
      cs = double q name ++ q :: rest ∧ rest.head? ≠ some q := by
  constructor
  · intro read
    fun_induction readQuoted q cs generalizing name rest with
    | case1 => cases read
    | case2 =>
      cases read
      simp [double]
    | case3 cs ih =>
      obtain ⟨⟨name, rest⟩, inner, same⟩ := Option.map_eq_some_iff.mp read
      cases same
      obtain ⟨text, ends⟩ := ih inner
      have pair : double q (q :: name) = q :: q :: double q name := if_pos rfl
      rw [pair, text]
      exact ⟨rfl, ends⟩
    | case4 c cs other =>
      cases read
      have ends : (c :: cs).head? ≠ some q := by simpa using other
      exact ⟨rfl, ends⟩
    | case5 c cs other ih =>
      obtain ⟨⟨name, rest⟩, inner, same⟩ := Option.map_eq_some_iff.mp read
      cases same
      obtain ⟨text, ends⟩ := ih inner
      have plain : double q (c :: name) = c :: double q name := if_neg other
      rw [plain, text]
      exact ⟨rfl, ends⟩
  · intro written
    obtain ⟨text, ends⟩ := written
    rw [text]
    exact readQuoted_double q name rest ends

theorem readDelimited_eq_some_iff {cs rest : List Char} {s : String} :
    readDelimited q cs = some (s, rest) ↔
      cs = (quote q s).toList ++ rest ∧ rest.head? ≠ some q := by
  rw [toList_quote, List.cons_append, List.append_assoc, List.singleton_append]
  constructor
  · intro read
    cases cs with
    | nil => cases read
    | cons c cs =>
      by_cases first : c = q
      · rw [readDelimited, if_pos first] at read
        obtain ⟨⟨name, rest⟩, inner, same⟩ := Option.map_eq_some_iff.mp read
        cases same
        obtain ⟨text, ends⟩ := readQuoted_eq_some_iff.mp inner
        rw [first, text, String.toList_ofList]
        exact ⟨rfl, ends⟩
      · rw [readDelimited, if_neg first] at read
        cases read
  · intro written
    obtain ⟨text, ends⟩ := written
    have inner := readQuoted_double q s.toList rest ends
    rw [text, readDelimited, if_pos rfl, inner, Option.map_some, String.ofList_toList]

/-- A quoted text is found wherever no further quote follows it. -/
theorem readDelimited_quote {s : String} {rest : List Char} :
    readDelimited q ((quote q s).toList ++ rest) = some (s, rest) ↔ rest.head? ≠ some q := by
  rw [readDelimited_eq_some_iff]
  exact and_iff_right rfl

/-- Two quoted texts with something behind them are alike only part by part. -/
theorem quote_append_inj {s t : String} {rest rest' : List Char} (ends : rest.head? ≠ some q)
    (ends' : rest'.head? ≠ some q)
    (same : (quote q s).toList ++ rest = (quote q t).toList ++ rest') : s = t ∧ rest = rest' := by
  have left := readDelimited_quote (s := s) |>.mpr ends
  have right := readDelimited_quote (s := t) |>.mpr ends'
  have both : some (s, rest) = some (t, rest') := by rw [← left, same, right]
  simpa using both

theorem quote_inj {s t : String} : quote q s = quote q t ↔ s = t := by
  constructor
  · intro same
    have none : ([] : List Char).head? ≠ some q := by simp
    have texts : (quote q s).toList ++ [] = (quote q t).toList ++ [] := by rw [same]
    exact (quote_append_inj none none texts).1
  · intro same
    rw [same]

end Text

namespace Dialect

open Text (readDelimited)

/-- Reading undoes quoting. A name in a dialect's quotes, and a text as a literal, are read back
with all that follows them unless a further quote follows. No name ends its quotes early: what
stands behind it begins where its own text ends. Distinct names, and distinct texts, are written
differently. -/
theorem quoting_is_undone (d : Dialect) (name text : String) (rest : List Char) :
    (readDelimited d.quote ((d.ident name).toList ++ rest) = some (name, rest) ↔
      rest.head? ≠ some d.quote) ∧
    (readDelimited '\'' ((Value.text text).literal.toList ++ rest) = some (text, rest) ↔
      rest.head? ≠ some '\'') ∧
    (∀ other rest', rest.head? ≠ some d.quote → rest'.head? ≠ some d.quote →
      (d.ident name).toList ++ rest = (d.ident other).toList ++ rest' →
        name = other ∧ rest = rest') ∧
    (∀ other, d.ident name = d.ident other ↔ name = other) ∧
    ∀ other, (Value.text text).literal = (Value.text other).literal ↔ text = other := by
  refine ⟨Text.readDelimited_quote, Text.readDelimited_quote, ?_, ?_, ?_⟩
  · intro other rest' ends ends' same
    exact Text.quote_append_inj ends ends' same
  · intro other
    exact Text.quote_inj
  · intro other
    exact Text.quote_inj

/-- A name that begins with quotes, ends with them and holds a whole identifier inside. -/
theorem quoting_is_undone_weird :
    [' ', 'x'].head? ≠ some sqlite.quote ∧ ['.'].head? ≠ some sqlite.quote ∧
    readDelimited '"' ((sqlite.ident "\"\"a\" \"b\"").toList ++ [' ', 'x']) =
      some ("\"\"a\" \"b\"", [' ', 'x']) ∧
    (sqlite.ident "\"\"a\" \"b\"").toList ++ [' ', 'x'] ≠ (sqlite.ident "").toList ++ ['.'] := by
  have ends : [' ', 'x'].head? ≠ some sqlite.quote := by decide
  have ends' : ['.'].head? ≠ some sqlite.quote := by decide
  obtain ⟨read, -, early, -, -⟩ := quoting_is_undone sqlite "\"\"a\" \"b\"" "" [' ', 'x']
  refine ⟨ends, ends', read.mpr ends, ?_⟩
  intro same
  have names := (early "" ['.'] ends ends' same).1
  exact absurd names (by decide)

end Dialect

end EntityStore
