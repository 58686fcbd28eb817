import EntityStore.Dialect
import EntityStore.Engine.Eval
import EntityStore.Repository.Row
import Std.Data.String.ToNat

namespace EntityStore

namespace Page

/-- A number of rows; -1 stands for all of them. -/
def bound (word : String) : Option Nat := if word = "-1" then none else word.toNat?

/-- The window that the words of a clause ask for. -/
def ofWords : List String → Page
  | ["LIMIT", limit] => ⟨none, bound limit⟩
  | ["LIMIT", limit, "OFFSET", offset] => ⟨bound offset, bound limit⟩
  | ["OFFSET", offset, "ROWS"] => ⟨bound offset, none⟩
  | ["FETCH", "FIRST", limit, "ROWS", "ONLY"] => ⟨none, bound limit⟩
  | ["OFFSET", offset, "ROWS", "FETCH", "FIRST", limit, "ROWS", "ONLY"] =>
    ⟨bound offset, bound limit⟩
  | _ => ⟨none, none⟩

/-- The window that a clause asks for. -/
def ofClause (clause : String) : Page := ofWords ((clause.toList.splitOn ' ').map String.ofList)

theorem ofClause_of_words {clause : String} {words : List String}
    (text : clause.toList = (" ".intercalate words).toList) (some : words ≠ [])
    (plain : ∀ word ∈ words, ' ' ∉ word.toList) : ofClause clause = ofWords words := by
  have blank : " ".toList = [' '] := rfl
  have split : clause.toList.splitOn ' ' = words.map String.toList := by
    rw [text, String.toList_intercalate, blank, List.splitOn_intercalate]
    · simpa using plain
    · simpa using some
  rw [ofClause, split, List.map_map]
  simp [Function.comp_def]

theorem not_mem_digits (n : Nat) {c : Char} (other : c.isDigit = false) :
    c ∉ Nat.toDigits 10 n := by
  intro digit
  rw [Nat.isDigit_of_mem_toDigits (by decide) (by decide) digit] at other
  cases other

theorem bound_repr (n : Nat) : bound (Nat.repr n) = some n := by
  have positive : Nat.repr n ≠ "-1" := by
    intro negative
    have sign : '-' ∈ (Nat.repr n).toList := by rw [negative]; decide
    rw [Nat.toList_repr] at sign
    exact not_mem_digits n rfl sign
  rw [bound, if_neg positive, Nat.toNat?_repr]

theorem bound_all : bound "-1" = none := rfl

variable {p : Page} {clause : String}

theorem ofClause_limitClause (h : Dialect.limitClause p = some clause) : ofClause clause = p := by
  rcases p with ⟨_ | offset, _ | limit⟩
  · cases h
  · cases h
    have words : ofClause ("LIMIT " ++ Nat.repr limit) = ofWords ["LIMIT", Nat.repr limit] :=
      ofClause_of_words (by simp) (by simp) (by simp [not_mem_digits])
    rw [words]
    simp only [ofWords, bound_repr]
  · cases h
    have words : ofClause ("LIMIT -1 OFFSET " ++ Nat.repr offset) =
        ofWords ["LIMIT", "-1", "OFFSET", Nat.repr offset] :=
      ofClause_of_words (by simp) (by simp) (by simp [not_mem_digits])
    rw [words]
    simp only [ofWords, bound_repr, bound_all]
  · cases h
    have words : ofClause ("LIMIT " ++ Nat.repr limit ++ " OFFSET " ++ Nat.repr offset) =
        ofWords ["LIMIT", Nat.repr limit, "OFFSET", Nat.repr offset] :=
      ofClause_of_words (by simp) (by simp) (by simp [not_mem_digits])
    rw [words]
    simp only [ofWords, bound_repr]

theorem ofClause_fetchClause (h : Dialect.fetchClause p = some clause) : ofClause clause = p := by
  rcases p with ⟨_ | offset, _ | limit⟩
  · cases h
  · cases h
    have words : ofClause ("FETCH FIRST " ++ Nat.repr limit ++ " ROWS ONLY") =
        ofWords ["FETCH", "FIRST", Nat.repr limit, "ROWS", "ONLY"] :=
      ofClause_of_words (by simp) (by simp) (by simp [not_mem_digits])
    rw [words]
    simp only [ofWords, bound_repr]
  · cases h
    have words : ofClause ("OFFSET " ++ Nat.repr offset ++ " ROWS") =
        ofWords ["OFFSET", Nat.repr offset, "ROWS"] :=
      ofClause_of_words (by simp) (by simp) (by simp [not_mem_digits])
    rw [words]
    simp only [ofWords, bound_repr]
  · cases h
    have words : ofClause ("OFFSET " ++ Nat.repr offset ++ " ROWS FETCH FIRST " ++
          Nat.repr limit ++ " ROWS ONLY") =
        ofWords ["OFFSET", Nat.repr offset, "ROWS", "FETCH", "FIRST", Nat.repr limit, "ROWS",
          "ONLY"] :=
      ofClause_of_words (by simp) (by simp) (by simp [not_mem_digits])
    rw [words]
    simp only [ofWords, bound_repr]

end Page

namespace Dialect

open Engine (windowOf)

/-- The rows that a statement leaves of those that it selects without the clause of its window, given
what clauses do to rows. -/
def through (d : Dialect) (read : String → List Row → List Row) (page : Option Page)
    (rows : List Row) : List Row :=
  match page.bind d.pageClause with
  | some clause => read clause rows
  | none => rows

/-- The clauses of a dialect mean windows, or there are none. -/
def Windows (d : Dialect) (read : String → List Row → List Row) : Prop :=
  (∀ page rows, d.through read (some page) rows = windowOf (some page) rows) ∨
  ∀ page, d.pageClause page = none

/-- What clauses do to rows when they are read as the windows that they ask for. -/
def readClause (clause : String) (rows : List Row) : List Row :=
  windowOf (some (.ofClause clause)) rows

/-- Clauses that can be read back leave the rows of the window that they are written for. -/
theorem through_of_readable {d : Dialect}
    (unbounded : ∀ page, d.pageClause page = none → page = ⟨none, none⟩)
    (readable : ∀ page clause, d.pageClause page = some clause → Page.ofClause clause = page)
    (page : Page) (rows : List Row) :
    d.through readClause (some page) rows = windowOf (some page) rows := by
  unfold through
  rw [Option.bind_some]
  cases written : d.pageClause page with
  | none =>
    rw [unbounded page written]
    rfl
  | some clause =>
    dsimp only
    rw [readClause, readable page clause written]

theorem through_sqlite (page : Page) (rows : List Row) :
    sqlite.through readClause (some page) rows = windowOf (some page) rows := by
  refine through_of_readable (fun page unwritten => ?_)
    (fun page clause => Page.ofClause_limitClause) page rows
  rcases page with ⟨_ | offset, _ | limit⟩
  · rfl
  all_goals cases unwritten

theorem through_generic (page : Page) (rows : List Row) :
    generic.through readClause (some page) rows = windowOf (some page) rows := by
  refine through_of_readable (fun page unwritten => ?_)
    (fun page clause => Page.ofClause_fetchClause) page rows
  rcases page with ⟨_ | offset, _ | limit⟩
  · rfl
  all_goals cases unwritten

theorem windows_sqlite : sqlite.Windows readClause := .inl through_sqlite

theorem windows_generic : generic.Windows readClause := .inl through_generic

end Dialect

end EntityStore
