import EntityStore.Schema.Basic

namespace EntityStore.TableOrder

/-- The tables that a table refers to, by the first schema that has it. -/
def dependencies (expected actual : Schema) (name : String) : List String :=
  match expected.table? name with
  | some t => t.referenced
  | none => match actual.table? name with
    | some t => t.referenced
    | none => []

/-- Whether no table that is still waiting is referred to. -/
def isReady (dependencies : String → List String) (waiting : List String) (name : String) : Bool :=
  (dependencies name).all fun d => !waiting.contains d

/-- The first table that is ready, or the first of all where every table waits for another. -/
def next (dependencies : String → List String) (first : String) (rest : List String) : String :=
  ((first :: rest).find? (isReady dependencies (first :: rest))).getD first

theorem next_mem (dependencies : String → List String) (first : String) (rest : List String) :
    next dependencies first rest ∈ first :: rest := by
  unfold next
  cases h : (first :: rest).find? (isReady dependencies (first :: rest)) with
  | none => exact List.mem_cons_self
  | some name => exact List.mem_of_find?_eq_some h

/-- Takes one table after another until none waits. -/
def arrange (dependencies : String → List String) : List String → List String
  | [] => []
  | first :: rest =>
    let name := next dependencies first rest
    name :: arrange dependencies ((first :: rest).erase name)
termination_by waiting => waiting.length
decreasing_by
  have mem := next_mem dependencies first rest
  have len := List.length_erase_of_mem mem
  simp only [List.length_cons] at len ⊢
  omega

def all (expected actual : Schema) : List String :=
  arrange (dependencies expected actual) (expected.tables.union actual.tables).keys

end EntityStore.TableOrder
