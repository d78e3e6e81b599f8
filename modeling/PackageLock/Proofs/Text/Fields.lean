import Mathlib.Data.List.DropRight
import PackageLock.Text.Fields

/-!
# Trimming and cutting text

What `trim`, `cutFirst` and `cutLast` give, told without the way in which they find it. A trimmed text is
one that neither begins nor ends in a blank (`trim_eq_self_iff`). A text is cut in two at a character if
and only if the character stands between the two parts, and is missing in the earlier part or in the
later one.
-/

set_option autoImplicit false

namespace PackageLock.Text

variable {s before after : List Char} {c : Char}

/-! ## Blanks at the ends -/

/-- A text is trimmed at its beginning and then at its end. -/
theorem trim_eq_rdropWhile (s : List Char) : trim s = (s.dropWhile isBlank).rdropWhile isBlank := rfl

/-- Only a text with no blank at either end is left as it is. -/
theorem trim_eq_self_iff : trim s = s ↔
    (∀ c, s.head? = some c → isBlank c = false) ∧ ∀ c, s.getLast? = some c → isBlank c = false := by
  have hstart : s.dropWhile isBlank = s ↔ ∀ c, s.head? = some c → isBlank c = false := by
    cases s <;> simp [List.dropWhile_eq_self_iff]
  have hend : s.rdropWhile isBlank = s ↔ ∀ c, s.getLast? = some c → isBlank c = false := by
    rcases List.eq_nil_or_concat s with rfl | ⟨front, last, rfl⟩
    · simp
    · simp [List.rdropWhile_eq_self_iff]
  rw [← hstart, ← hend, trim_eq_rdropWhile]
  constructor
  · intro h
    -- neither end can give up a character, for the whole text is left
    have whole : s.dropWhile isBlank = s := by
      refine (List.dropWhile_suffix isBlank).eq_of_length_le ?_
      have hle := (List.rdropWhile_prefix isBlank (s.dropWhile isBlank)).length_le
      rwa [h] at hle
    rw [whole] at h
    exact ⟨whole, h⟩
  · rintro ⟨hstart, hend⟩
    rw [hstart, hend]

/-- A text without blanks is left as it is. -/
theorem trim_eq_self (h : ∀ c ∈ s, isBlank c = false) : trim s = s :=
  trim_eq_self_iff.mpr ⟨fun c hc => h c (List.mem_of_mem_head? hc),
    fun c hc => h c (List.mem_of_mem_getLast? hc)⟩

/-- Only blanks are cut off. -/
theorem exists_trim (s : List Char) : ∃ before after, s = before ++ (trim s ++ after) ∧
    (∀ c ∈ before, isBlank c = true) ∧ ∀ c ∈ after, isBlank c = true := by
  have hend : trim s ++ (s.dropWhile isBlank).rtakeWhile isBlank = s.dropWhile isBlank := by
    rw [trim, List.rtakeWhile, ← List.reverse_append, List.takeWhile_append_dropWhile,
      List.reverse_reverse]
  refine ⟨s.takeWhile isBlank, (s.dropWhile isBlank).rtakeWhile isBlank, ?_,
    fun _ => List.mem_takeWhile_imp, fun _ => List.mem_rtakeWhile_imp⟩
  rw [hend, List.takeWhile_append_dropWhile]

/-- A trimmed text has nothing left to be trimmed. -/
theorem trim_trim (s : List Char) : trim (trim s) = trim s := by
  refine trim_eq_self_iff.mpr ⟨fun c hc => ?_, fun c hc => ?_⟩
  · -- what is cut off at the end leaves the beginning as it was
    obtain ⟨cutOff, hcut⟩ := List.rdropWhile_prefix isBlank (s.dropWhile isBlank)
    have hstart := List.head?_dropWhile_not isBlank s
    rw [← hcut, ← trim_eq_rdropWhile, List.head?_append, hc] at hstart
    simpa using hstart
  · have hne : trim s ≠ [] := by
      intro hnil
      simp [hnil] at hc
    have hend := List.rdropWhile_last_not isBlank (s.dropWhile isBlank) hne
    rw [List.getLast?_eq_some_getLast hne, Option.some.injEq] at hc
    rw [← hc]
    exact eq_false_of_ne_true hend

/-! ## Cutting at a character -/

/-- A text is not cut if the character is missing in it. -/
theorem cutFirst_eq_none_iff : cutFirst c s = none ↔ c ∉ s := by
  induction s with
  | nil => simp [cutFirst]
  | cons d rest ih =>
    rw [cutFirst, List.mem_cons, not_or, ← ih]
    split
    · rename_i here
      simp [here]
    · rename_i there
      simp [Ne.symm there]

/-- A text is cut at a character that is missing before it. -/
theorem cutFirst_append (h : c ∉ before) (after : List Char) :
    cutFirst c (before ++ c :: after) = some (before, after) := by
  induction before with
  | nil => simp [cutFirst]
  | cons d before ih =>
    rw [List.mem_cons, not_or] at h
    simp [cutFirst, Ne.symm h.1, ih h.2]

/-- A text is cut in two just if the character stands between the parts and is missing in the first. -/
theorem cutFirst_eq_some_iff :
    cutFirst c s = some (before, after) ↔ s = before ++ c :: after ∧ c ∉ before := by
  constructor
  · intro h
    have hmem : c ∈ s := by
      by_contra absent
      simp [cutFirst_eq_none_iff.mpr absent] at h
    obtain ⟨before', after', rfl, first⟩ := List.eq_append_cons_of_mem hmem
    rw [cutFirst_append first] at h
    cases h
    exact ⟨rfl, first⟩
  · rintro ⟨rfl, first⟩
    exact cutFirst_append first after

/-- A text is not cut if the character is missing in it. -/
theorem cutLast_eq_none_iff : cutLast c s = none ↔ c ∉ s := by
  induction s with
  | nil => simp [cutLast]
  | cons d rest ih =>
    rw [cutLast, List.mem_cons, not_or, ← ih]
    cases cutLast c rest with
    | none => simp [eq_comm]
    | some parts => simp

/-- A text is cut at a character that is missing after it. -/
theorem cutLast_append (h : c ∉ after) (before : List Char) :
    cutLast c (before ++ c :: after) = some (before, after) := by
  induction before with
  | nil => simp [cutLast, cutLast_eq_none_iff.mpr h]
  | cons d before ih => simp [cutLast, ih]

/-- A text is cut in two just if the character stands between the parts and is missing in the last. -/
theorem cutLast_eq_some_iff :
    cutLast c s = some (before, after) ↔ s = before ++ c :: after ∧ c ∉ after := by
  constructor
  · intro h
    have hmem : c ∈ s.reverse := by
      by_contra absent
      rw [List.mem_reverse] at absent
      simp [cutLast_eq_none_iff.mpr absent] at h
    obtain ⟨later, earlier, hs, last⟩ := List.eq_append_cons_of_mem hmem
    have hs' : s = earlier.reverse ++ c :: later.reverse := by
      rw [← List.reverse_reverse s, hs]
      simp
    have last' : c ∉ later.reverse := by rwa [List.mem_reverse]
    rw [hs', cutLast_append last'] at h
    cases h
    exact ⟨hs', last'⟩
  · rintro ⟨rfl, last⟩
    exact cutLast_append last before

/-- What follows the last `c` ends whatever follows another one. -/
theorem suffix_of_last {before' after' : List Char}
    (h : before ++ c :: after = before' ++ c :: after') (last : c ∉ after) : after <:+ after' := by
  rcases List.append_eq_append_iff.mp h with ⟨between, _, hafter⟩ | ⟨between, _, hafter⟩
  · cases between with
    | nil => simp_all
    | cons d between => simp_all
  · cases between with
    | nil => simp_all
    | cons d between =>
      refine ⟨between ++ [c], ?_⟩
      simp_all

end PackageLock.Text
