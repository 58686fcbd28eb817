import EntityStore.Proofs.Migration.Order

namespace EntityStore.TableOrder

open Relation (ReflTransGen TransGen)

variable {deps : String → List String} {waiting before after : List String} {a : String}

/-- Each of some tables depends on one of them: none can come first. -/
def Stuck (deps : String → List String) (names : List String) : Prop :=
  ∀ n ∈ names, ∃ d ∈ deps n, d ∈ names

/-- Tables from some place on are in the order in which they would be put by themselves. -/
theorem arrange_suffix {rest : List String} (h : arrange deps waiting = before ++ rest) :
    ∃ left, left.Sublist waiting ∧ rest = arrange deps left := by
  induction before generalizing waiting with
  | nil => exact ⟨waiting, .refl _, h.symm⟩
  | cons b before ih =>
    cases waiting with
    | nil =>
      rw [arrange] at h
      cases h
    | cons first others =>
      rw [arrange] at h
      obtain ⟨-, tail⟩ := List.cons.inj h
      obtain ⟨left, part, same⟩ := ih tail
      exact ⟨left, part.trans List.erase_sublist, same⟩

/-- A table whose turn it is waits for none that is left, or all that are left are stuck and it is
the first of them by name. -/
theorem turn_of_arrange (sorted : waiting.Pairwise (· < ·))
    (h : arrange deps waiting = before ++ a :: after) :
    (∀ b ∈ deps a, b ∉ a :: after) ∨ (Stuck deps (a :: after) ∧ ∀ n ∈ a :: after, a ≤ n) := by
  obtain ⟨left, part, same⟩ := arrange_suffix h
  have perm := same ▸ arrange_perm deps left
  cases left with
  | nil =>
    rw [arrange] at same
    cases same
  | cons first others =>
    rw [arrange] at same
    obtain ⟨chosen, -⟩ := List.cons.inj same
    rcases next_turn deps first others with ready | ⟨own, stuck⟩
    · left
      intro b hb there
      have free := List.all_eq_true.mp (chosen ▸ ready) b hb
      simp [perm.mem_iff.mp there] at free
    · right
      rw [own] at chosen
      refine ⟨fun n hn => ?_, fun n hn => ?_⟩
      · obtain ⟨d, hd, waits⟩ := List.all_eq_false.mp (stuck n (perm.mem_iff.mp hn))
        rw [Bool.not_eq_true, Bool.not_eq_false', List.contains_iff_mem] at waits
        exact ⟨d, hd, perm.mem_iff.mpr waits⟩
      · have least := List.pairwise_cons.mp (sorted.sublist part)
        rcases List.mem_cons.mp (perm.mem_iff.mp hn) with rfl | later
        · exact chosen ▸ String.le_refl _
        · exact chosen ▸ Std.le_of_lt (least.1 n later)

/-- Among tables that are stuck, each leads to one that depends on itself. -/
theorem circle_of_stuck {names : List String} (stuck : Stuck deps names) (member : a ∈ names) :
    ∃ c, ReflTransGen (fun a b => b ∈ deps a) a c ∧ TransGen (fun a b => b ∈ deps a) c c := by
  by_contra none
  have free : ∀ c, ReflTransGen (fun a b => b ∈ deps a) a c →
      ¬ TransGen (fun a b => b ∈ deps a) c c :=
    fun c leads circle => none ⟨c, leads, circle⟩
  obtain ⟨name, there, ready⟩ := exists_ready member free
  obtain ⟨d, hd, waits⟩ := stuck name there
  have free := List.all_eq_true.mp ready d hd
  simp [waits] at free

theorem keys_sorted {α : Type} (m : SortedMap α) : m.keys.Pairwise (· < ·) :=
  List.pairwise_map.mpr m.sorted

/-- Every table comes once. A table comes after all tables that it depends on unless those from it on
are stuck, and then it is the first of them by name; one that leads to no circle always does. -/
theorem order_beside_circles (expected actual : Schema) :
    (all expected actual).Nodup ∧
      (∀ name, name ∈ all expected actual ↔
        (expected.table? name).isSome ∨ (actual.table? name).isSome) ∧
      ∀ before a after, all expected actual = before ++ a :: after →
        ((∀ b ∈ dependencies expected actual a, b ∈ all expected actual → b ∈ before) ↔
          ¬ Stuck (dependencies expected actual) (a :: after)) ∧
        (Stuck (dependencies expected actual) (a :: after) → ∀ n ∈ a :: after, a ≤ n) ∧
        ((∀ c, ReflTransGen (fun a b => b ∈ dependencies expected actual a) a c →
            ¬ TransGen (fun a b => b ∈ dependencies expected actual a) c c) →
          ∀ b ∈ dependencies expected actual a, b ∈ all expected actual → b ∈ before) := by
  refine ⟨all_nodup expected actual, fun _ => mem_all, fun before a after split => ?_⟩
  have turn := turn_of_arrange (keys_sorted _) split
  have settled : (∀ b ∈ dependencies expected actual a, b ∈ all expected actual → b ∈ before) ↔
      ¬ Stuck (dependencies expected actual) (a :: after) := by
    constructor
    · intro ahead stuck
      obtain ⟨d, hd, behind⟩ := stuck a List.mem_cons_self
      have once := split ▸ all_nodup expected actual
      have listed : d ∈ all expected actual := split ▸ List.mem_append_right before behind
      exact (List.nodup_append.mp once).2.2 d (ahead d hd listed) d behind rfl
    · intro moving b hb listed
      rcases turn with free | ⟨stuck, -⟩
      · rw [split] at listed
        exact (List.mem_append.mp listed).resolve_right (free b hb)
      · exact absurd stuck moving
  refine ⟨settled, fun stuck => ?_, fun free => settled.mpr fun stuck => ?_⟩
  · rcases turn with none | ⟨-, least⟩
    · obtain ⟨d, hd, behind⟩ := stuck a List.mem_cons_self
      exact absurd behind (none d hd)
    · exact least
  · obtain ⟨c, leads, circle⟩ := circle_of_stuck stuck List.mem_cons_self
    exact free c leads circle

/-- What a table leads to stays within tables that depend on none but themselves. -/
theorem leads_within {names : List String} (closed : ∀ n ∈ names, ∀ d ∈ deps n, d ∈ names)
    (start : a ∈ names) {b : String} (leads : ReflTransGen (fun a b => b ∈ deps a) a b) :
    b ∈ names := by
  induction leads with
  | refl => exact start
  | tail _ step ih => exact closed _ ih _ step

/-- Pages and revisions refer to each other, comments to pages, and authors to users. -/
def wiki : Schema :=
  let referring (table column target : String) : Table :=
    ⟨table, [(Column.named "id" "BIGINT").asPrimaryKey,
      (Column.named column "BIGINT").referencing target "id"]⟩
  ((((Schema.empty.add (referring "authors" "user_id" "users")).add
    (referring "comments" "page_id" "pages")).add
    (referring "pages" "revision_id" "revisions")).add
    (referring "revisions" "page_id" "pages")).add
    ⟨"users", [(Column.named "id" "BIGINT").asPrimaryKey]⟩

theorem all_wiki :
    all wiki .empty = ["users", "authors", "comments", "pages", "revisions"] := by
  decide +kernel

theorem order_beside_circles_authors :
    all wiki .empty = ["users"] ++ "authors" :: ["comments", "pages", "revisions"] ∧
      (∀ c, ReflTransGen (fun a b => b ∈ dependencies wiki .empty a) "authors" c →
        ¬ TransGen (fun a b => b ∈ dependencies wiki .empty a) c c) ∧
      ∀ b ∈ dependencies wiki .empty "authors", b ∈ all wiki .empty → b ∈ ["users"] := by
  have free : ∀ c, ReflTransGen (fun a b => b ∈ dependencies wiki .empty a) "authors" c →
      ¬ TransGen (fun a b => b ∈ dependencies wiki .empty a) c c := by
    intro c leads circle
    obtain ⟨d, first, back⟩ := TransGen.head'_iff.mp circle
    have among : c ∈ ["authors", "users"] := leads_within (by decide) (by decide) leads
    rcases List.mem_pair.mp among with rfl | rfl
    · have users : d ∈ ["users"] := first
      have still : "authors" ∈ ["users"] := leads_within (by decide) users back
      exact absurd still (by decide)
    · have nothing : d ∈ [] := first
      cases nothing
  exact ⟨all_wiki, free,
    ((order_beside_circles wiki .empty).2.2 ["users"] "authors" _ all_wiki).2.2 free⟩

/-- Comments come before the pages that they depend on, though pages do not lead to comments. -/
theorem comments_before_pages :
    all wiki .empty = ["users", "authors"] ++ "comments" :: ["pages", "revisions"] ∧
      "pages" ∈ dependencies wiki .empty "comments" ∧
      ¬ ReflTransGen (fun a b => b ∈ dependencies wiki .empty a) "pages" "comments" := by
  refine ⟨all_wiki, by decide, fun leads => ?_⟩
  have among : "comments" ∈ ["pages", "revisions"] := leads_within (by decide) (by decide) leads
  exact absurd among (by decide)

end EntityStore.TableOrder
