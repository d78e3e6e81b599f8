/-!
# Ascending lists

Package identifiers are reported in strictly ascending order, each once. The order is that of the code
points of their characters. Main statements: putting a list into order keeps its members, and the result
is in strictly ascending order.
-/

set_option autoImplicit false

namespace PackageLock

/-- Puts an identifier into its place in an ascending list, unless it is there already. -/
def insertAscending (a : String) : List String → List String
  | [] => [a]
  | b :: rest =>
    if a < b then a :: b :: rest
    else if a = b then b :: rest
    else b :: insertAscending a rest

/-- The members of a list in strictly ascending order. -/
def ascending (l : List String) : List String :=
  l.foldr insertAscending []

/-- An insertion adds the inserted text and nothing else. -/
theorem mem_insertAscending {a x : String} {l : List String} :
    x ∈ insertAscending a l ↔ x = a ∨ x ∈ l := by
  induction l with
  | nil => simp [insertAscending]
  | cons b rest ih =>
    unfold insertAscending
    split
    · simp
    · split
      · rename_i h
        simp [h]
      · simp only [List.mem_cons, ih]
        constructor
        · rintro (h | h | h) <;> simp [h]
        · rintro (h | h | h) <;> simp [h]

/-- Putting a list into order neither adds members nor loses any. -/
theorem mem_ascending {x : String} {l : List String} : x ∈ ascending l ↔ x ∈ l := by
  induction l with
  | nil => simp [ascending]
  | cons a rest ih =>
    have h : ascending (a :: rest) = insertAscending a (ascending rest) := rfl
    rw [h, mem_insertAscending, ih, List.mem_cons]

/-- An identifier put into its place keeps an ascending list ascending. -/
theorem pairwise_insertAscending {a : String} {l : List String} (h : l.Pairwise (· < ·)) :
    (insertAscending a l).Pairwise (· < ·) := by
  induction l with
  | nil => simp [insertAscending]
  | cons b rest ih =>
    obtain ⟨hb, hrest⟩ := List.pairwise_cons.mp h
    unfold insertAscending
    split
    · rename_i hab
      refine List.pairwise_cons.mpr ⟨?_, h⟩
      intro x hx
      rcases List.mem_cons.mp hx with rfl | hx
      · exact hab
      · exact String.lt_trans hab (hb x hx)
    · split
      · exact h
      · rename_i hab hne
        have hba : b < a := by
          apply Classical.byContradiction
          intro hn
          exact hne (String.le_antisymm (String.not_lt.mp hn) (String.not_lt.mp hab))
        refine List.pairwise_cons.mpr ⟨?_, ih hrest⟩
        intro x hx
        rcases mem_insertAscending.mp hx with rfl | hx
        · exact hba
        · exact hb x hx

/-- The list is in strictly ascending order. -/
theorem pairwise_ascending (l : List String) : (ascending l).Pairwise (· < ·) := by
  induction l with
  | nil => simp [ascending]
  | cons a rest ih => exact pairwise_insertAscending ih

end PackageLock
