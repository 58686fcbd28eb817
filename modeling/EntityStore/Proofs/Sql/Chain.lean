import EntityStore.Proofs.Sql.Transfer

namespace EntityStore.Sql

variable {α : Type}

namespace Remains

/-- A column with the name of its table. -/
def columnOfTable (q : Char) (s : Remains α) : Option ((String × String) × Remains α) := do
  let (table, s) ← s.name q
  let s ← s.skip "."
  let (column, s) ← s.name q
  some ((table, column), s)

/-- What a table is called from here on: another name, where one is given. -/
def calledName (q : Char) (table : String) (s : Remains α) : Option (String × Remains α) :=
  match s.skip " AS " with
  | some s => s.name q
  | none => some (table, s)

/-- One table more, by a column of a table before it and a column of its own. -/
def joinedTable (q : Char) (s : Remains α) : Option (JoinClause × Remains α) := do
  let s ← s.skip " LEFT JOIN "
  let (table, s) ← s.name q
  let (name, s) ← s.calledName q table
  let s ← s.skip " ON "
  let ((parent, foreignKey), s) ← s.columnOfTable q
  let s ← s.skip " = "
  let ((own, key), s) ← s.columnOfTable q
  if own = name then some (⟨table, name, parent, foreignKey, key⟩, s) else none

/-- Tables to the end of the text. -/
def joinedTables (q : Char) : Nat → Remains α → Option (List JoinClause)
  | 0, _ => none
  | fuel + 1, s =>
    if s.text.isEmpty then some []
    else do
      let (j, s) ← s.joinedTable q
      let js ← joinedTables q fuel s
      some (j :: js)

end Remains

/-- The table and the joined tables that a text names, if it is such a text. -/
def readTables (d : Dialect) (text : String) : Option (String × List JoinClause) := do
  let (table, s) ← Remains.name d.quote (⟨[], text.toList⟩ : Remains Empty)
  let js ← Remains.joinedTables d.quote (text.length + 1) s
  some (table, js)

theorem joinText_begins (ident : String → String) (j : JoinClause) :
    ∃ cs, (Command.joinText ident j).toList = ' ' :: cs := by
  unfold Command.joinText
  simp only [String.toList_append, List.append_assoc]
  exact ⟨_, rfl⟩

theorem toList_joinTexts (ident : String → String) (j : JoinClause) (js : List JoinClause) :
    (String.join ((j :: js).map (Command.joinText ident))).toList =
      (Command.joinText ident j).toList ++
        (String.join (js.map (Command.joinText ident))).toList := by
  simp

/-- Every joined table takes up some of the text. -/
theorem length_joinTexts (ident : String → String) (js : List JoinClause) :
    js.length ≤ (String.join (js.map (Command.joinText ident))).toList.length := by
  induction js with
  | nil => exact Nat.zero_le _
  | cons j js ih =>
    obtain ⟨cs, begins⟩ := joinText_begins ident j
    rw [toList_joinTexts, begins, List.length_append, List.length_cons, List.length_cons]
    omega

namespace Remains

variable {d : Dialect} (legible : d.Legible) {pending : List (List Char × α)} {rest : List Char}

include legible

/-- A text that goes on with a blank or a dot does not go on with a quote. -/
theorem unquoted_text {c : Char} (reserved : isReserved c = true) {cs : List Char} :
    (c :: cs).head? ≠ some d.quote := by
  have other := ne_of_reserved reserved legible.quote
  simpa using other

theorem columnOfTable_text (table column : String) (h : rest.head? ≠ some d.quote) :
    columnOfTable d.quote
        ⟨pending, (Expr.columnText d.ident ⟨some table, column⟩).toList ++ rest⟩ =
      some ((table, column), ⟨pending, rest⟩) := by
  have dot : (".".toList ++ ((d.ident column).toList ++ rest)).head? ≠ some d.quote :=
    unquoted_text legible rfl
  have text : (Expr.columnText d.ident ⟨some table, column⟩).toList ++ rest =
      (d.ident table).toList ++ (".".toList ++ ((d.ident column).toList ++ rest)) := by
    simp [Expr.columnText]
  rw [text, columnOfTable, Dialect.ident, name_quote table dot]
  simp only [Option.bind_eq_bind, Option.bind_some, skip_append]
  rw [Dialect.ident, name_quote column h]
  rfl

theorem calledName_text (table name : String) :
    calledName d.quote table ⟨pending,
        (if name = table then "" else " AS " ++ d.ident name).toList ++ (" ON ".toList ++ rest)⟩ =
      some (name, ⟨pending, " ON ".toList ++ rest⟩) := by
  have on : (" ON ".toList ++ rest).head? ≠ some d.quote := unquoted_text legible rfl
  by_cases same : name = table
  · have plain : skip " AS " (⟨pending, " ON ".toList ++ rest⟩ : Remains α) = none := rfl
    rw [if_pos same, String.toList_empty, List.nil_append, calledName, plain, same]
  · rw [if_neg same, String.toList_append, List.append_assoc, calledName, skip_append]
    exact name_quote name on

theorem unquoted_calledName (table name : String) :
    ((if name = table then "" else " AS " ++ d.ident name).toList ++
      (" ON ".toList ++ rest)).head? ≠ some d.quote := by
  by_cases same : name = table
  · rw [if_pos same]
    exact unquoted_text legible rfl
  · rw [if_neg same, String.toList_append, List.append_assoc]
    exact unquoted_text legible rfl

theorem joinedTable_text (j : JoinClause) (h : rest.head? ≠ some d.quote) :
    joinedTable d.quote ⟨pending, (Command.joinText d.ident j).toList ++ rest⟩ =
      some (j, ⟨pending, rest⟩) := by
  obtain ⟨table, name, parent, foreignKey, key⟩ := j
  have equals {more : List Char} : (" = ".toList ++ more).head? ≠ some d.quote :=
    unquoted_text legible rfl
  have text : (Command.joinText d.ident ⟨table, name, parent, foreignKey, key⟩).toList ++ rest =
      " LEFT JOIN ".toList ++ ((d.ident table).toList ++
        ((if name = table then "" else " AS " ++ d.ident name).toList ++ (" ON ".toList ++
          ((Expr.columnText d.ident ⟨some parent, foreignKey⟩).toList ++ (" = ".toList ++
            ((Expr.columnText d.ident ⟨some name, key⟩).toList ++ rest)))))) := by
    unfold Command.joinText
    simp only [String.toList_append, List.append_assoc]
  rw [text, joinedTable, skip_append]
  simp only [Option.bind_eq_bind, Option.bind_some]
  rw [Dialect.ident, name_quote table (unquoted_calledName legible table name)]
  simp only [Option.bind_some, calledName_text legible, skip_append,
    columnOfTable_text legible _ _ equals, columnOfTable_text legible _ _ h, if_true]

theorem unquoted_joinTexts (js : List JoinClause) :
    (String.join (js.map (Command.joinText d.ident))).toList.head? ≠ some d.quote := by
  cases js with
  | nil => simp
  | cons j js =>
    obtain ⟨cs, begins⟩ := joinText_begins d.ident j
    rw [toList_joinTexts, begins]
    exact unquoted_text legible rfl

theorem joinedTables_text (js : List JoinClause) {fuel : Nat} (enough : js.length < fuel) :
    joinedTables d.quote fuel
        ⟨pending, (String.join (js.map (Command.joinText d.ident))).toList⟩ = some js := by
  induction js generalizing fuel with
  | nil =>
    obtain ⟨fuel, rfl⟩ : ∃ k, fuel = k + 1 := ⟨fuel - 1, by omega⟩
    rfl
  | cons j js ih =>
    obtain ⟨fuel, rfl⟩ : ∃ k, fuel = k + 1 := ⟨fuel - 1, by omega⟩
    obtain ⟨cs, begins⟩ := joinText_begins d.ident j
    have more : js.length < fuel := by
      rw [List.length_cons] at enough
      omega
    have next := unquoted_joinTexts legible js
    have nonempty : ((Command.joinText d.ident j).toList ++
        (String.join (js.map (Command.joinText d.ident))).toList).isEmpty = false := by
      rw [begins]
      rfl
    rw [toList_joinTexts, joinedTables]
    simp only [nonempty, joinedTable_text legible j next, Option.bind_eq_bind, Option.bind_some,
      ih more, Bool.false_eq_true, if_false]

end Remains

/-- The tables of a selection are read back as they are written. -/
theorem readTables_text {d : Dialect} (legible : d.Legible) (table : String)
    (js : List JoinClause) :
    readTables d (d.ident table ++ String.join (js.map (Command.joinText d.ident))) =
      some (table, js) := by
  have enough : js.length <
      (d.ident table ++ String.join (js.map (Command.joinText d.ident))).length + 1 := by
    have bound := length_joinTexts d.ident js
    rw [← String.length_toList, String.toList_append, List.length_append]
    omega
  have first : Remains.name d.quote (⟨[], (d.ident table ++
        String.join (js.map (Command.joinText d.ident))).toList⟩ : Remains Empty) =
      some (table, ⟨[], (String.join (js.map (Command.joinText d.ident))).toList⟩) := by
    rw [String.toList_append]
    exact Remains.name_quote table (Remains.unquoted_joinTexts legible js)
  rw [readTables, first]
  simp only [Option.bind_eq_bind, Option.bind_some, Remains.joinedTables_text legible js enough]

end EntityStore.Sql
