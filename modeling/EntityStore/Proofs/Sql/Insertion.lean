import EntityStore.Proofs.Sql.Transfer
import EntityStore.Proofs.Sql.Bound

namespace EntityStore.Sql

variable {α β : Type}

/-- Tuples of operands for columns of a table, and the column that is asked for, if one is. -/
structure Insertion (α : Type) where
  table : String
  columns : List String
  tuples : List (List α)
  returning : Option String
  deriving DecidableEq

namespace Remains

/-- Items in parentheses with commas between them. There may be none. -/
def inParens (item : Remains α → Option (β × Remains α)) (fuel : Nat) (s : Remains α) :
    Option (List β × Remains α) := do
  let s ← s.skip "("
  match s.skip ")" with
  | some s => some ([], s)
  | none => do
    let (bs, s) ← list item fuel s
    let s ← s.skip ")"
    some (bs, s)

/-- The column that is asked for at the end. -/
def returning (q : Char) (s : Remains α) : Option (Option String × Remains α) :=
  match s.skip " RETURNING " with
  | some s => (s.name q).map fun r => (some r.1, r.2)
  | none => some (none, s)

end Remains

/-- The insertion that a text with parameters stands for, if it stands for one. -/
def readInsertion (d : Dialect) (params : List α) (text : String) : Option (Insertion α) := do
  let s ← Remains.skip "INSERT INTO " ⟨marked d.placeholder 0 params, text.toList⟩
  let (table, s) ← s.name d.quote
  let s ← s.skip " "
  let (columns, s) ← s.inParens (Remains.name d.quote) text.length
  let s ← s.skip " VALUES "
  let (tuples, s) ← Remains.list (Remains.inParens Remains.operand text.length) text.length s
  let (returning, s) ← s.returning d.quote
  if s.pending.isEmpty && s.text.isEmpty then some ⟨table, columns, tuples, returning⟩ else none

def inParens (fs : List (Fragment α)) : Fragment α :=
  .text "(" :: (Fragment.separated ", " fs ++ [.text ")"])

theorem inParens_length (mark : Nat → String) (n : Nat) (fs : List (Fragment α)) :
    fs.length ≤ ((inParens fs).render mark n).toList.length := by
  have items := Fragment.separated_length mark n fs
  simp only [inParens, Fragment.render, Fragment.render_append, String.toList_append,
    List.length_append, String.append_empty]
  have opening : "(".toList.length = 1 := rfl
  omega

theorem operands_inParens (fs : List (Fragment α)) :
    (inParens fs).operands = fs.flatMap Fragment.operands := by
  simp [inParens, Fragment.operands, Fragment.operands_append, Fragment.operands_separated]

namespace Remains

variable {d : Dialect}

/-- The text does not begin with a closing parenthesis. -/
def Opens (d : Dialect) (f : Fragment α) : Prop :=
  ∀ n, ∃ c cs, (f.render d.placeholder n).toList = c :: cs ∧ c ≠ ')'

theorem opens_name (legible : d.Legible) (name : String) :
    Opens d ([.text (d.ident name)] : Fragment α) := by
  intro n
  have text : (Fragment.render d.placeholder n ([.text (d.ident name)] : Fragment α)).toList =
      d.quote :: (Text.double d.quote name.toList ++ [d.quote]) := by
    rw [← Text.toList_quote]
    simp [Fragment.render, Dialect.ident]
  exact ⟨d.quote, _, text, (ne_of_reserved rfl legible.quote).symm⟩

theorem opens_hole (legible : d.Legible) (a : α) : Opens d [.hole a] := by
  intro n
  obtain ⟨m, ms, mark, unreserved, -⟩ := legible.mark (n + 1)
  refine ⟨m, ms, ?_, (ne_of_reserved rfl unreserved).symm⟩
  simp [Fragment.render, mark]

/-- Items are read between their parentheses. -/
theorem gives_inParens (legible : d.Legible) {item : Remains α → Option (β × Remains α)}
    {fs : List (Fragment α)} {bs : List β} (each : List.Forall₂ (Gives d item) fs bs)
    (opens : ∀ f ∈ fs, Opens d f) {fuel : Nat} (enough : fs.length ≤ fuel) :
    Gives d (inParens item fuel) (Sql.inParens fs) bs := by
  intro n pending rest h
  have closing : (")".toList ++ rest).head? ≠ some d.quote := by
    simpa using ne_of_reserved rfl legible.quote
  have stops : skip ", " (⟨pending, ")".toList ++ rest⟩ : Remains α) = none :=
    skip_other (w := ',') (c := ')') rfl (by decide)
  have text : ((Sql.inParens fs).render d.placeholder n).toList ++ rest =
      "(".toList ++ (((Fragment.separated ", " fs).render d.placeholder n).toList ++
        (")".toList ++ rest)) := by
    simp only [Sql.inParens, Fragment.render, Fragment.render_append, String.toList_append,
      List.append_assoc, String.append_empty]
  have marks : (Sql.inParens fs).operands = (Fragment.separated ", " fs).operands := by
    rw [operands_inParens, Fragment.operands_separated]
  rw [text, marks, inParens, skip_append, Option.bind_eq_bind, Option.bind_some]
  cases each with
  | nil =>
    have closed : skip ")" (⟨pending, ")".toList ++ rest⟩ : Remains α) = some ⟨pending, rest⟩ :=
      skip_append ")"
    simp only [Fragment.separated, Fragment.operands, marked, Fragment.render, List.nil_append,
      String.toList_empty]
    rw [closed]
  | @cons f b fs bs first others =>
    have more := list_separated legible (.cons first others) (List.cons_ne_nil f fs) enough n
      closing stops
    obtain ⟨c, cs, begins, other⟩ : ∃ c cs,
        ((Fragment.separated ", " (f :: fs)).render d.placeholder n).toList = c :: cs ∧
          c ≠ ')' := by
      obtain ⟨c, cs, begins, other⟩ := opens f List.mem_cons_self n
      cases fs with
      | nil => exact ⟨c, cs, begins, other⟩
      | cons g fs =>
        rw [Fragment.separated_cons_cons, Fragment.render_append, String.toList_append, begins]
        exact ⟨c, _, List.cons_append, other⟩
    have open_ : skip ")" (⟨marked d.placeholder n (Fragment.separated ", " (f :: fs)).operands ++
        pending, ((Fragment.separated ", " (f :: fs)).render d.placeholder n).toList ++
          (")".toList ++ rest)⟩ : Remains α) = none := by
      rw [begins]
      exact skip_other rfl other.symm
    rw [open_]
    dsimp only
    rw [more]
    simp only [Option.bind_eq_bind, Option.bind_some, skip_append]

theorem gives_operand (a : α) : Gives d operand [.hole a] a := by
  intro n pending rest h
  have taken : operand (⟨((d.placeholder (n + 1)).toList, a) :: pending,
      (d.placeholder (n + 1)).toList ++ rest⟩ : Remains α) = some (a, ⟨pending, rest⟩) :=
    operand_mark (d.placeholder (n + 1)).toList a
  simpa [Fragment.render, Fragment.operands, marked] using taken

theorem gives_tuple (legible : d.Legible) {row : List α} {fuel : Nat} (enough : row.length ≤ fuel) :
    Gives d (inParens operand fuel) (Command.tuple row) row := by
  have each : List.Forall₂ (Gives d operand) (row.map fun a => [.hole a]) row := by
    rw [List.forall₂_map_left_iff, List.forall₂_same]
    exact fun a _ => gives_operand a
  refine gives_inParens legible each (fun f hf => ?_) (by simpa using enough)
  obtain ⟨a, -, rfl⟩ := List.mem_map.mp hf
  exact opens_hole legible a

end Remains

section

variable (d : Dialect) (table : String) (columns : List String) (rows : List (List α))

/-- The columns of a statement in parentheses. -/
def columnList (d : Dialect) (columns : List String) : Fragment α :=
  inParens (columns.map fun column => [.text (d.ident column)])

/-- What stands behind the tuples. -/
def returningText (d : Dialect) : Option String → String
  | some key => " RETURNING " ++ d.ident key
  | none => ""

theorem operands_columnList : (columnList d columns : Fragment α).operands = [] := by
  rw [columnList, operands_inParens, List.flatMap_map]
  exact List.flatMap_eq_nil_iff.mpr fun _ _ => rfl

theorem operands_tuple (row : List α) : (Command.tuple row).operands = row := by
  have operands := operands_inParens (row.map fun a => ([.hole a] : Fragment α))
  rw [List.flatMap_map] at operands
  exact operands.trans (List.flatMap_singleton' row)

theorem operands_tuples :
    (Fragment.separated ", " (rows.map Command.tuple)).operands = rows.flatten := by
  rw [Fragment.operands_separated, List.flatMap_map, List.flatMap_congr fun row _ =>
    operands_tuple row, List.flatMap_id']

/-- An insertion binds its tuples, one after another. -/
theorem operands_insert (returning : Option String) :
    ((Command.insert table columns rows returning).pieces d).operands = rows.flatten := by
  cases returning <;>
    simp [Command.pieces, Fragment.operands, Fragment.operands_append, operands_tuples]

theorem render_insert (returning : Option String) :
    (((Command.insert table columns rows returning).pieces d).render d.placeholder 0).toList =
      "INSERT INTO ".toList ++ ((Text.quote d.quote table).toList ++ (" ".toList ++
        (((columnList d columns : Fragment α).render d.placeholder 0).toList ++
          (" VALUES ".toList ++
            (((Fragment.separated ", " (rows.map Command.tuple)).render d.placeholder 0).toList ++
              (returningText d returning).toList))))) := by
  have opening : " (".toList = " ".toList ++ "(".toList := rfl
  have closing : ") VALUES ".toList = ")".toList ++ " VALUES ".toList := rfl
  have list : Command.identList d.ident columns =
      (nameList d.ident columns : Fragment α).render d.placeholder 0 :=
    identList_eq d.ident d.placeholder 0 columns
  simp only [Command.pieces, Fragment.render, Fragment.render_append, columnList, inParens, list,
    nameList, String.toList_append, List.append_assoc, opening, closing, String.append_empty]
  cases returning with
  | none => rfl
  | some key =>
    simp only [Fragment.render, returningText, String.append_empty]
    rfl

end

section

variable {d : Dialect} (returning : Option String)

theorem unquoted_returningText (legible : d.Legible) :
    (returningText d returning).toList.head? ≠ some d.quote := by
  cases returning with
  | none => exact nofun
  | some key =>
    rw [returningText, String.toList_append]
    exact unquoted legible rfl rfl _

theorem skip_returningText (d : Dialect) :
    Remains.skip ", " (⟨[], (returningText d returning).toList⟩ : Remains α) = none := by
  cases returning with
  | none => rfl
  | some key =>
    rw [returningText, String.toList_append]
    exact Remains.skip_other (w := ',') (c := ' ') rfl (by decide)

theorem returning_returningText (d : Dialect) :
    Remains.returning d.quote (⟨[], (returningText d returning).toList⟩ : Remains α) =
      some (returning, ⟨[], []⟩) := by
  cases returning with
  | none => rfl
  | some key =>
    have last : Remains.name d.quote (⟨[], (Text.quote d.quote key).toList ++ []⟩ : Remains α) =
        some (key, ⟨[], []⟩) := Remains.name_quote key (by simp)
    rw [List.append_nil] at last
    rw [returningText, String.toList_append, Remains.returning, Remains.skip_append]
    simp only [Dialect.ident, last, Option.map_some]

end

/-- Every operand shows in the text by its mark. -/
theorem operands_length {d : Dialect} (legible : d.Legible) (n : Nat) (f : Fragment α) :
    f.operands.length ≤ (f.render d.placeholder n).toList.length := by
  induction f generalizing n with
  | nil => exact Nat.zero_le _
  | cons p f ih =>
    cases p with
    | text s =>
      have rest := ih n
      simp only [Fragment.operands, Fragment.render, String.toList_append, List.length_append]
      omega
    | hole a =>
      have rest := ih (n + 1)
      obtain ⟨m, ms, mark, -, -⟩ := legible.mark (n + 1)
      simp only [Fragment.operands, Fragment.render, String.toList_append, List.length_append, mark,
        List.length_cons]
      omega

section

variable {d : Dialect} (legible : d.Legible)

include legible

/-- The text of the statement is longer than any of the lists that are read from it. -/
theorem length_insert (table : String) (columns : List String) (rows : List (List α))
    (returning : Option String) {text : String}
    (written : ((Command.insert table columns rows returning).pieces d).render d.placeholder 0 =
      text) :
    columns.length ≤ text.length ∧ rows.length ≤ text.length ∧
      ∀ row ∈ rows, row.length ≤ text.length := by
  have marks := operands_length legible 0 ((Command.insert table columns rows returning).pieces d)
  have shown := render_insert d table columns rows returning
  have names := inParens_length d.placeholder 0
    (columns.map fun column => ([.text (d.ident column)] : Fragment α))
  have tuples := Fragment.separated_length d.placeholder 0 (rows.map Command.tuple)
  have opening : "INSERT INTO ".toList.length = 12 := rfl
  rw [operands_insert, written, String.length_toList] at marks
  have total := congrArg List.length shown
  rw [written, String.length_toList] at total
  simp only [List.length_append, List.length_map, columnList, opening] at total names tuples
  refine ⟨by omega, by omega, fun row there => ?_⟩
  exact Nat.le_trans (List.sublist_flatten_of_mem there).length_le marks

theorem inParens_columnList {columns : List String} {fuel : Nat} (enough : columns.length ≤ fuel)
    (pending : List (List Char × α)) {rest : List Char} (unquoted : rest.head? ≠ some d.quote) :
    Remains.inParens (Remains.name d.quote) fuel ⟨pending,
        ((columnList d columns : Fragment α).render d.placeholder 0).toList ++ rest⟩ =
      some (columns, ⟨pending, rest⟩) := by
  have opens : ∀ f ∈ columns.map fun name => ([.text (d.ident name)] : Fragment α),
      Remains.Opens d f := by
    intro f there
    obtain ⟨name, -, rfl⟩ := List.mem_map.mp there
    exact Remains.opens_name legible name
  have whole := Remains.gives_inParens legible (gives_names columns) opens
    (by simpa using enough) 0 pending rest unquoted
  rwa [← columnList, operands_columnList] at whole

theorem list_tuples {rows : List (List α)} (nonempty : rows ≠ []) {fuel : Nat}
    (enough : rows.length ≤ fuel) (wide : ∀ row ∈ rows, row.length ≤ fuel) {rest : List Char}
    (unquoted : rest.head? ≠ some d.quote)
    (stops : Remains.skip ", " (⟨[], rest⟩ : Remains α) = none) :
    Remains.list (Remains.inParens Remains.operand fuel) fuel
        ⟨marked d.placeholder 0 rows.flatten,
          ((Fragment.separated ", " (rows.map Command.tuple)).render d.placeholder 0).toList ++
            rest⟩ =
      some (rows, ⟨[], rest⟩) := by
  have each : List.Forall₂ (Remains.Gives d (Remains.inParens Remains.operand fuel))
      (rows.map Command.tuple) rows := by
    rw [List.forall₂_map_left_iff, List.forall₂_same]
    exact fun row there => Remains.gives_tuple legible (wide row there)
  have whole := Remains.list_separated legible each (by simpa using nonempty)
    (by simpa using enough) 0 unquoted stops
  rwa [operands_tuples, List.append_nil] at whole

/-- The text of the statement, with its operands at the marks, reads as the insertion. -/
theorem readInsertion_pieces (table : String) (columns : List String) {rows : List (List α)}
    (nonempty : rows ≠ []) (returning : Option String) :
    readInsertion d ((Command.insert table columns rows returning).pieces d).operands
        (((Command.insert table columns rows returning).pieces d).render d.placeholder 0) =
      some ⟨table, columns, rows, returning⟩ := by
  generalize written : ((Command.insert table columns rows returning).pieces d).render
    d.placeholder 0 = text
  obtain ⟨columnsFit, rowsFit, wide⟩ := length_insert legible table columns rows returning written
  have first (pending : List (List Char × α)) (rest : List Char) :
      Remains.name d.quote ⟨pending, (Text.quote d.quote table).toList ++ (" ".toList ++ rest)⟩ =
        some (table, ⟨pending, " ".toList ++ rest⟩) :=
    Remains.name_quote table (unquoted legible rfl rfl rest)
  have apart (rest : List Char) : (" VALUES ".toList ++ rest).head? ≠ some d.quote :=
    unquoted legible rfl rfl rest
  have listed (pending : List (List Char × α)) (rest : List Char) :=
    inParens_columnList legible columnsFit pending (apart rest)
  have filled := list_tuples legible nonempty rowsFit wide
    (unquoted_returningText returning legible) (skip_returningText returning d)
  rw [readInsertion, ← String.toList_inj.mpr written, render_insert, operands_insert]
  simp only [Remains.skip_append, Option.bind_eq_bind, Option.bind_some, first, listed, filled,
    returning_returningText]
  rfl

end

end EntityStore.Sql
