namespace EntityStore.Text

/-- Every quote doubled. -/
def double (q : Char) : List Char → List Char
  | [] => []
  | c :: cs => if c = q then q :: q :: double q cs else c :: double q cs

/-- The text between quotes, its own quotes doubled. -/
def quote (q : Char) (s : String) : String := String.ofList (q :: (double q s.toList ++ [q]))

/-- The text up to the first quote that is not doubled, and what follows that quote. -/
def readQuoted (q : Char) : List Char → Option (List Char × List Char)
  | [] => none
  | c :: cs =>
    if c = q then
      match cs with
      | [] => some ([], [])
      | d :: ds =>
        if d = q then (readQuoted q ds).map fun r => (q :: r.1, r.2) else some ([], d :: ds)
    else (readQuoted q cs).map fun r => (c :: r.1, r.2)

theorem readQuoted_double (q : Char) (s rest : List Char) (h : rest.head? ≠ some q) :
    readQuoted q (double q s ++ q :: rest) = some (s, rest) := by
  induction s with
  | nil =>
    cases rest with
    | nil => simp [double, readQuoted]
    | cons c cs =>
      have other : c ≠ q := by simpa using h
      simp [double, readQuoted, other]
  | cons c s ih =>
    by_cases same : c = q
    · subst same
      simp [double, readQuoted, ih]
    · rw [double, if_neg same, List.cons_append, readQuoted.eq_def]
      simp [same, ih]

theorem readQuoted_length {q : Char} {cs name rest : List Char}
    (h : readQuoted q cs = some (name, rest)) : rest.length < cs.length := by
  fun_induction readQuoted q cs generalizing name rest with
  | case1 => cases h
  | case2 => cases h; simp
  | case3 ds ih =>
    obtain ⟨r, hr, eq⟩ := Option.map_eq_some_iff.mp h
    cases eq
    have := ih hr
    simp only [List.length_cons]
    omega
  | case4 d ds other => cases h; simp
  | case5 c cs other ih =>
    obtain ⟨r, hr, eq⟩ := Option.map_eq_some_iff.mp h
    cases eq
    have := ih hr
    simp only [List.length_cons]
    omega

theorem toList_quote (q : Char) (s : String) :
    (quote q s).toList = q :: (double q s.toList ++ [q]) := by
  simp [quote]

end EntityStore.Text
