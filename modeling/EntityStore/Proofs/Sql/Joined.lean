import EntityStore.Proofs.Condition.Holds
import EntityStore.Sql.Command

namespace EntityStore

/-- What stands for a row that is not there. -/
def Sql.missing : Sql.Row := fun _ => .null

namespace Sql.Collation

variable (k : Collation) (tables : String → List Row)

/-- A foreign key that refers to no row leads to the missing one. -/
def outer : Links := fun table key v row =>
  k.partner tables table key v row ∨ row = missing ∧ ∀ other, ¬k.partner tables table key v other

/-- No two rows are referred to by one value. -/
def Identifies (table key : String) : Prop :=
  (tables table).Pairwise fun a b => ∀ v, k.Refers v (a key) → ¬k.Refers v (b key)

end Sql.Collation

namespace Sql

variable (k : Collation) (tables : String → List Row)

namespace JoinClause

/-- The rows for which the ON condition is true. -/
def partners (j : JoinClause) (rows : Rows) : List Row :=
  (tables j.table).filter fun row =>
    k.keyTruth (Rows.value (rows ++ [(j.name, row)]) ⟨some j.parent, j.foreignKey⟩)
      (Rows.value (rows ++ [(j.name, row)]) ⟨some j.name, j.key⟩) == some true

def extend (j : JoinClause) (rows : Rows) : List Rows :=
  match j.partners k tables rows with
  | [] => [rows ++ [(j.name, missing)]]
  | partners => partners.map fun row => rows ++ [(j.name, row)]

variable {k tables}

/-- A foreign key has one row to lead to where keys identify rows. -/
theorem extend_of_identifies {j : JoinClause} {rows : Rows} {v : Value}
    (parent : ∀ row, Rows.value (rows ++ [(j.name, row)]) ⟨some j.parent, j.foreignKey⟩ = v)
    (key : ∀ row, Rows.value (rows ++ [(j.name, row)]) ⟨some j.name, j.key⟩ = row j.key)
    (unique : k.Identifies tables j.table j.key) :
    ∃ row, j.extend k tables rows = [rows ++ [(j.name, row)]] ∧
      ∀ other, k.outer tables j.table j.key v other ↔ other = row := by
  have partner (row : Row) :
      row ∈ j.partners k tables rows ↔ k.partner tables j.table j.key v row := by
    simp only [partners, List.mem_filter, parent, key, beq_iff_eq, Collation.keyTruth_eq_true,
      Collation.partner]
  unfold extend
  cases found : j.partners k tables rows with
  | nil =>
    have none (other : Row) : ¬k.partner tables j.table j.key v other := by
      rw [← partner, found]
      exact List.not_mem_nil
    refine ⟨missing, rfl, fun other => ⟨?_, ?_⟩⟩
    · rintro (there | ⟨rfl, -⟩)
      · exact absurd there (none other)
      · rfl
    · rintro rfl
      exact .inr ⟨rfl, none⟩
  | cons row rest =>
    have pairs : (row :: rest).Pairwise fun a b => ∀ v, k.Refers v (a j.key) → ¬k.Refers v (b j.key) :=
      found ▸ List.Pairwise.filter _ unique
    have refers {other : Row} (there : other ∈ row :: rest) : k.Refers v (other j.key) := by
      rw [← found, partner] at there
      exact there.2
    have alone : rest = [] := by
      cases rest with
      | nil => rfl
      | cons other rest =>
        have apart := (List.pairwise_cons.mp pairs).1 other List.mem_cons_self
        have second := refers (List.mem_cons_of_mem _ List.mem_cons_self)
        exact absurd second (apart v (refers List.mem_cons_self))
    subst alone
    have there : k.partner tables j.table j.key v row := by
      rw [← partner, found]
      exact List.mem_singleton_self _
    refine ⟨row, rfl, fun other => ⟨?_, ?_⟩⟩
    · rintro (also | ⟨-, none⟩)
      · rw [← partner, found] at also
        exact List.mem_singleton.mp also
      · exact absurd there (none row)
    · rintro rfl
      exact .inl there

end JoinClause

/-- The joined rows that begin with a row of the table. -/
def Source.joined {α : Type} (s : Source α) (row : Row) : List Rows :=
  s.joins.foldl (fun done j => done.flatMap (j.extend k tables)) [[(s.table, row)]]

/-- All joined rows of a source, before its condition is asked. -/
def Source.extended {α : Type} (s : Source α) : List Rows :=
  (tables s.table).flatMap (s.joined k tables)

/-- Whether a statement with this condition, or none, is about some rows. -/
def keeps (filter : Option (Expr Param)) (rows : Rows) : Bool :=
  filter.all fun e => e.truth k tables rows == some true

/-- The rows of its table that a statement returns, changes or removes, once for each time; order
and windows aside. -/
def Command.hits : Command Param → List Row
  | .select _ source _ _ =>
    (tables source.table).flatMap fun row =>
      ((source.joined k tables row).filter (keeps k tables source.filter)).map fun _ => row
  | .update table _ filter | .delete table filter =>
    (tables table).filter fun row => keeps k tables filter [(table, row)]
  | _ => []

end Sql

end EntityStore
