import EntityStore.Proofs.Sql.Spelling

namespace EntityStore.Sql

variable {α β : Type}

/-- What a statement selects for a column of each row. -/
inductive Scalar (α : Type) where
  | column (name : String)
  /-- The column, or the operand where it is null. -/
  | coalesce (name : String) (default : α)
  | operand (a : α)
  deriving DecidableEq

/-- Fills columns of one table with what is selected from another. -/
structure Transfer (α : Type) where
  target : String
  columns : List String
  selected : List (Scalar α)
  source : String
  deriving DecidableEq

/-- What is still to be read: the marks to come, and the text. -/
structure Remains (α : Type) where
  pending : List (List Char × α)
  text : List Char

namespace Remains

def skip (words : String) (s : Remains α) : Option (Remains α) :=
  if words.toList.isPrefixOf s.text then some { s with text := s.text.drop words.toList.length }
  else none

def name (q : Char) (s : Remains α) : Option (String × Remains α) :=
  match s.text with
  | [] => none
  | c :: rest =>
    if c = q then (Text.readQuoted q rest).map fun r => (String.ofList r.1, ⟨s.pending, r.2⟩)
    else none

/-- The operand of the next mark. -/
def operand (s : Remains α) : Option (α × Remains α) :=
  match s.pending with
  | [] => none
  | (mark, a) :: more =>
    if mark.isPrefixOf s.text then some (a, ⟨more, s.text.drop mark.length⟩) else none

def scalar (q : Char) (s : Remains α) : Option (Scalar α × Remains α) :=
  match s.skip "COALESCE(" with
  | some s => do
    let (column, s) ← s.name q
    let s ← s.skip ", "
    let (a, s) ← s.operand
    let s ← s.skip ")"
    some (.coalesce column a, s)
  | none =>
    match s.name q with
    | some (column, s) => some (.column column, s)
    | none => s.operand.map fun r => (.operand r.1, r.2)

/-- Items with commas between them. -/
def list (item : Remains α → Option (β × Remains α)) :
    Nat → Remains α → Option (List β × Remains α)
  | 0, _ => none
  | fuel + 1, s => do
    let (b, s) ← item s
    match s.skip ", " with
    | none => some ([b], s)
    | some s => do
      let (bs, s) ← list item fuel s
      some (b :: bs, s)

end Remains

/-- The transfer that a text with parameters stands for, if it stands for one. -/
def readTransfer (d : Dialect) (params : List α) (text : String) : Option (Transfer α) := do
  let s ← Remains.skip "INSERT INTO " ⟨marked d.placeholder 0 params, text.toList⟩
  let (target, s) ← s.name d.quote
  let s ← s.skip " ("
  let (columns, s) ← Remains.list (Remains.name d.quote) text.length s
  let s ← s.skip ") SELECT "
  let (selected, s) ← Remains.list (Remains.scalar d.quote) text.length s
  let s ← s.skip " FROM "
  let (source, s) ← s.name d.quote
  if s.pending.isEmpty && s.text.isEmpty then some ⟨target, columns, selected, source⟩ else none

namespace Remains

variable {q : Char} {pending : List (List Char × α)} {rest : List Char}

theorem skip_append (words : String) :
    skip words ⟨pending, words.toList ++ rest⟩ = some ⟨pending, rest⟩ := by
  have found : words.toList.isPrefixOf (words.toList ++ rest) = true := by simp
  simp [skip]

theorem skip_other {w c : Char} {words : String} {ws cs : List Char} (begins : words.toList = w :: ws)
    (other : w ≠ c) : skip words (⟨pending, c :: cs⟩ : Remains α) = none := by
  simp [skip, begins, List.isPrefixOf, other]

theorem name_quote (s : String) (h : rest.head? ≠ some q) :
    name q ⟨pending, (Text.quote q s).toList ++ rest⟩ = some (s, ⟨pending, rest⟩) := by
  rw [Text.toList_quote, List.cons_append, List.append_assoc, name]
  simp [Text.readQuoted_double q s.toList rest h]

theorem operand_mark (mark : List Char) (a : α) :
    operand ⟨(mark, a) :: pending, mark ++ rest⟩ = some (a, ⟨pending, rest⟩) := by
  simp [operand]

/-- The text of a fragment is read as an item, however many marks came before it. -/
def Gives (d : Dialect) (item : Remains α → Option (β × Remains α)) (f : Fragment α) (b : β) :
    Prop :=
  ∀ n pending rest, rest.head? ≠ some d.quote →
    item ⟨marked d.placeholder n f.operands ++ pending,
        (f.render d.placeholder n).toList ++ rest⟩ = some (b, ⟨pending, rest⟩)

variable {d : Dialect}

theorem gives_name (s : String) : Gives d (name d.quote) ([.text (d.ident s)] : Fragment α) s := by
  intro n pending rest h
  simpa [Fragment.render, Fragment.operands, marked, Dialect.ident] using name_quote s h

end Remains

def Fill.scalar (column : String) : Fill α → Scalar α
  | .existing => .column column
  | .existingOr a => .coalesce column a
  | .constant a => .operand a

namespace Remains

variable {d : Dialect}

theorem gives_scalar (legible : d.Legible) (column : String) (fill : Fill α) :
    Gives d (scalar d.quote) (Command.fillPieces d.ident column fill) (fill.scalar column) := by
  intro n pending rest h
  have quote : 'C' ≠ d.quote := ne_of_reserved rfl legible.quote
  have comma : ',' ≠ d.quote := ne_of_reserved rfl legible.quote
  obtain ⟨m, ms, mark, unreserved, other⟩ := legible.mark (n + 1)
  have word : 'C' ≠ m := ne_of_reserved rfl unreserved
  cases fill with
  | existing =>
    have plain : skip "COALESCE(" (⟨pending, (Text.quote d.quote column).toList ++ rest⟩ :
        Remains α) = none := by
      rw [Text.toList_quote]
      exact skip_other rfl quote
    simp only [Command.fillPieces, Fragment.render, Fragment.operands, marked, List.nil_append,
      String.append_empty, Dialect.ident]
    rw [scalar, plain, name_quote column h]
    rfl
  | existingOr a =>
    have ended : (", ".toList ++ ((d.placeholder (n + 1)).toList ++ (")".toList ++ rest))).head? ≠
        some d.quote := by simpa using comma
    simp only [Command.fillPieces, Fragment.render, Fragment.operands, marked, List.cons_append,
      List.nil_append, String.toList_append, List.append_assoc, String.append_empty, Dialect.ident]
    rw [scalar, skip_append]
    simp only [name_quote column ended, skip_append, operand_mark, Option.bind_eq_bind,
      Option.bind_some]
    rfl
  | constant a =>
    simp only [Command.fillPieces, Fragment.render, Fragment.operands, marked, List.cons_append,
      List.nil_append, String.append_empty, mark]
    have plain : skip "COALESCE(" (⟨(m :: ms, a) :: pending, m :: (ms ++ rest)⟩ : Remains α) =
        none := skip_other rfl word
    have unnamed : name d.quote (⟨(m :: ms, a) :: pending, m :: (ms ++ rest)⟩ : Remains α) =
        none := by simp [name, other]
    have bound : operand (⟨(m :: ms, a) :: pending, m :: (ms ++ rest)⟩ : Remains α) =
        some (a, ⟨pending, rest⟩) := operand_mark (m :: ms) a
    rw [scalar, plain, unnamed, bound]
    rfl

theorem list_separated (legible : d.Legible) {item : Remains α → Option (β × Remains α)}
    {fs : List (Fragment α)} {bs : List β} (each : List.Forall₂ (Gives d item) fs bs)
    (nonempty : fs ≠ []) {fuel : Nat} (enough : fs.length ≤ fuel) (n : Nat)
    {pending : List (List Char × α)} {rest : List Char} (unquoted : rest.head? ≠ some d.quote)
    (stops : skip ", " (⟨pending, rest⟩ : Remains α) = none) :
    list item fuel ⟨marked d.placeholder n (Fragment.separated ", " fs).operands ++ pending,
        ((Fragment.separated ", " fs).render d.placeholder n).toList ++ rest⟩ =
      some (bs, ⟨pending, rest⟩) := by
  induction each generalizing fuel n with
  | nil => exact absurd rfl nonempty
  | @cons f b fs bs first others ih =>
    obtain ⟨fuel, rfl⟩ : ∃ k, fuel = k + 1 := ⟨fuel - 1, by simp at enough; omega⟩
    cases others with
    | nil =>
      rw [Fragment.separated, list, first n pending rest unquoted]
      simp [stops]
    | @cons g c fs bs second others =>
      have comma : (", ".toList ++ ((((Fragment.separated ", " (g :: fs)).render d.placeholder
          (n + (Fragment.operands f).length)).toList ++ rest))).head? ≠ some d.quote := by
        simpa using ne_of_reserved rfl legible.quote
      have here := first n (marked d.placeholder (n + (Fragment.operands f).length)
        (Fragment.separated ", " (g :: fs)).operands ++ pending) _ comma
      have more := ih (List.cons_ne_nil g fs) (by simpa using enough)
        (n + (Fragment.operands f).length)
      rw [Fragment.separated_cons_cons, Fragment.operands_append, Fragment.render_append,
        Fragment.operands, Fragment.render, marked_append, String.toList_append,
        String.toList_append, List.append_assoc, List.append_assoc, List.append_assoc, list, here]
      simp only [Option.bind_eq_bind, Option.bind_some, skip_append, more]

end Remains

theorem Fragment.separated_length (mark : Nat → String) (n : Nat) (fs : List (Fragment α)) :
    fs.length ≤ ((Fragment.separated ", " fs).render mark n).toList.length + 1 := by
  induction fs generalizing n with
  | nil => simp
  | cons f fs ih =>
    cases fs with
    | nil => simp
    | cons g fs =>
      have rest := ih (n + f.operands.length)
      have separator : ", ".toList.length = 2 := rfl
      rw [Fragment.separated_cons_cons, Fragment.render_append, Fragment.render]
      simp only [String.toList_append, List.length_append, List.length_cons] at rest ⊢
      omega

def nameList (ident : String → String) (names : List String) : Fragment α :=
  Fragment.separated ", " (names.map fun name => [.text (ident name)])

def fillList (ident : String → String) (fills : List (String × Fill α)) : Fragment α :=
  Fragment.separated ", " (fills.map fun f => Command.fillPieces ident f.1 f.2)

section

variable (ident : String → String)

theorem identList_eq (mark : Nat → String) (n : Nat) (names : List String) :
    Command.identList ident names = (nameList ident names : Fragment α).render mark n := by
  unfold Command.identList nameList
  induction names with
  | nil => rfl
  | cons name names ih =>
    cases names with
    | nil => simp [Fragment.separated, Fragment.render]
    | cons next names =>
      simp only [List.map_cons] at ih ⊢
      rw [String.intercalate_cons_cons, ih, Fragment.separated_cons_cons, Fragment.render_append]
      simp [Fragment.render, Fragment.operands, String.append_assoc]

theorem operands_nameList (names : List String) :
    (nameList ident names : Fragment α).operands = [] := by
  unfold nameList
  induction names with
  | nil => rfl
  | cons name names ih =>
    cases names with
    | nil => rfl
    | cons next names =>
      simp only [List.map_cons] at ih ⊢
      rw [Fragment.separated_cons_cons, Fragment.operands_append]
      exact ih

end

section

variable (d : Dialect) (target source : String) (fills : List (String × Fill α))

theorem operands_copyRows : ((Command.copyRows target fills source).pieces d).operands =
    (fillList d.ident fills).operands := by
  simp [Command.pieces, Fragment.operands, Fragment.operands_append, fillList]

theorem render_copyRows :
    (((Command.copyRows target fills source).pieces d).render d.placeholder 0).toList =
      "INSERT INTO ".toList ++ ((Text.quote d.quote target).toList ++ (" (".toList ++
        (((nameList d.ident (fills.map (·.1)) : Fragment α).render d.placeholder 0).toList ++
          (") SELECT ".toList ++ (((fillList d.ident fills).render d.placeholder 0).toList ++
            (" FROM ".toList ++ ((Text.quote d.quote source).toList ++ []))))))) := by
  simp only [Command.pieces, Fragment.render, Fragment.render_append, fillList,
    identList_eq (α := α) d.ident d.placeholder 0, String.toList_append, List.append_assoc,
    List.append_nil, Dialect.ident, String.append_empty]

theorem length_copyRows : fills.length ≤
    (((Command.copyRows target fills source).pieces d).render d.placeholder 0).length := by
  have items := Fragment.separated_length d.placeholder 0
    (fills.map fun f => Command.fillPieces d.ident f.1 f.2)
  have opening : "INSERT INTO ".toList.length = 12 := rfl
  rw [← String.length_toList, render_copyRows]
  simp only [List.length_append, List.length_map, opening, fillList] at items ⊢
  omega

end

section

variable {d : Dialect}

theorem gives_names (names : List String) :
    List.Forall₂ (Remains.Gives d (Remains.name d.quote))
      (names.map fun name => ([.text (d.ident name)] : Fragment α)) names := by
  rw [List.forall₂_map_left_iff, List.forall₂_same]
  exact fun name _ => Remains.gives_name name

variable (legible : d.Legible)

include legible

theorem unquoted {words : String} {c : Char} {cs : List Char} (begins : words.toList = c :: cs)
    (reserved : isReserved c = true) (rest : List Char) :
    (words.toList ++ rest).head? ≠ some d.quote := by
  simpa [begins] using ne_of_reserved reserved legible.quote

theorem list_nameList {names : List String} (nonempty : names ≠ []) {fuel : Nat}
    (enough : names.length ≤ fuel) (pending : List (List Char × α)) (rest : List Char) :
    Remains.list (Remains.name d.quote) fuel ⟨pending,
        ((nameList d.ident names : Fragment α).render d.placeholder 0).toList ++
          (") SELECT ".toList ++ rest)⟩ =
      some (names, ⟨pending, ") SELECT ".toList ++ rest⟩) := by
  have paren : (") SELECT ".toList ++ rest).head? ≠ some d.quote := unquoted legible rfl rfl rest
  have stops : Remains.skip ", " ⟨pending, ") SELECT ".toList ++ rest⟩ = none :=
    Remains.skip_other (w := ',') (c := ')') rfl (by decide)
  have whole := Remains.list_separated legible (gives_names names) (by simpa using nonempty)
    (by simpa using enough) 0 paren stops
  have plain := operands_nameList (α := α) d.ident names
  rw [nameList] at plain
  rwa [plain] at whole

theorem list_fillList {fills : List (String × Fill α)} (nonempty : fills ≠ []) {fuel : Nat}
    (enough : fills.length ≤ fuel) (rest : List Char) :
    Remains.list (Remains.scalar d.quote) fuel
        ⟨marked d.placeholder 0 (fillList d.ident fills).operands,
          ((fillList d.ident fills).render d.placeholder 0).toList ++ (" FROM ".toList ++ rest)⟩ =
      some (fills.map fun f => f.2.scalar f.1, ⟨[], " FROM ".toList ++ rest⟩) := by
  have each : List.Forall₂ (Remains.Gives d (Remains.scalar d.quote))
      (fills.map fun f => Command.fillPieces d.ident f.1 f.2)
      (fills.map fun f => f.2.scalar f.1) := by
    rw [List.forall₂_map_left_iff, List.forall₂_map_right_iff, List.forall₂_same]
    exact fun f _ => Remains.gives_scalar legible f.1 f.2
  have blank : (" FROM ".toList ++ rest).head? ≠ some d.quote := unquoted legible rfl rfl rest
  have stops : Remains.skip ", " (⟨[], " FROM ".toList ++ rest⟩ : Remains α) = none :=
    Remains.skip_other (w := ',') (c := ' ') rfl (by decide)
  have whole := Remains.list_separated legible each (by simpa using nonempty)
    (by simpa using enough) 0 blank stops
  rwa [List.append_nil] at whole

end

def transferOf (target : String) (fills : List (String × Fill α)) (source : String) : Transfer α :=
  ⟨target, fills.map (·.1), fills.map fun f => f.2.scalar f.1, source⟩

/-- The text of the statement, with its operands at the marks, reads as the transfer. -/
theorem readTransfer_pieces {d : Dialect} (legible : d.Legible) (target source : String)
    {fills : List (String × Fill α)} (nonempty : fills ≠ []) :
    readTransfer d ((Command.copyRows target fills source).pieces d).operands
        (((Command.copyRows target fills source).pieces d).render d.placeholder 0) =
      some (transferOf target fills source) := by
  have enough := length_copyRows d target source fills
  have names : fills.map (·.1) ≠ [] := by simpa using nonempty
  have columns := list_nameList (α := α) legible names (by simpa using enough)
  have selected := list_fillList legible nonempty enough
  have first (pending : List (List Char × α)) (rest : List Char) :
      Remains.name d.quote ⟨pending, (Text.quote d.quote target).toList ++ (" (".toList ++ rest)⟩ =
        some (target, ⟨pending, " (".toList ++ rest⟩) :=
    Remains.name_quote target (unquoted legible rfl rfl rest)
  have last : Remains.name d.quote (⟨[], (Text.quote d.quote source).toList ++ []⟩ : Remains α) =
      some (source, ⟨[], []⟩) := Remains.name_quote source (by simp)
  rw [readTransfer, render_copyRows, operands_copyRows]
  simp only [Remains.skip_append, Option.bind_eq_bind, Option.bind_some, first, columns, selected,
    last]
  rfl

end EntityStore.Sql
