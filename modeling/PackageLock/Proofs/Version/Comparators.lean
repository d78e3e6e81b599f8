import PackageLock.Proofs.Version.Written
import PackageLock.Version.Requirement

/-!
# Comparators as they are written

The version in a comparator may give only its first numbers, and wildcards may stand for the others
(`PartialVersion.IsWritten`). Main statement: a comparator is read if and only if such a version follows the
operator at the start of the text (`Comparator.read_eq_ok_iff`).
-/

set_option autoImplicit false

namespace PackageLock

open Text (Stops stops_nil bind_eq_ok_iff)
open Version (Malformed Part numberBound readNumber readPre readBuild readEnd readNumber_eq_ok_iff
  readNumber_append readEnd_eq_ok_iff suffixes_eq_ok_iff stops_point stops_suffixes)

/-- The texts of a version of which the numbers of a bound are given. The last argument tells whether a
wildcard stands for one of the others; a build has no place in the bound. -/
inductive PartialVersion.IsWritten : List Char → PartialVersion → Bool → Prop where
  | major {a : Nat} (ha : a < numberBound) : IsWritten (Nat.toDigits 10 a) (.major a) false
  | majorWildcard {a : Nat} {w : Char} (ha : a < numberBound) (hw : Comparator.isWildcard w = true) :
      IsWritten (Nat.toDigits 10 a ++ ['.', w]) (.major a) true
  | majorWildcards {a : Nat} {w w' : Char} (ha : a < numberBound)
      (hw : Comparator.isWildcard w = true) (hw' : Comparator.isWildcard w' = true) :
      IsWritten (Nat.toDigits 10 a ++ ['.', w, '.', w']) (.major a) true
  | minor {a b : Nat} (ha : a < numberBound) (hb : b < numberBound) :
      IsWritten (Nat.toDigits 10 a ++ '.' :: Nat.toDigits 10 b) (.minor a b) false
  | minorWildcard {a b : Nat} {w : Char} (ha : a < numberBound) (hb : b < numberBound)
      (hw : Comparator.isWildcard w = true) :
      IsWritten (Nat.toDigits 10 a ++ '.' :: (Nat.toDigits 10 b ++ ['.', w])) (.minor a b) true
  | full {v : Version} (proper : v.Proper) :
      IsWritten v.render.toList (.full v.major v.minor v.patch v.pre) false

namespace Comparator

variable {part part' : Part} {s rest body op : List Char} {n : Nat}

/-! ## Numbers and wildcards in the place of numbers -/

/-- A digit is no wildcard. -/
theorem not_isWildcard_of_isDigit {c : Char} (h : c.isDigit = true) : isWildcard c = false := by
  simp only [isWildcard, Bool.or_eq_false_iff, beq_eq_false_iff_ne]
  refine ⟨⟨?_, ?_⟩, ?_⟩ <;> rintro rfl <;> cases h

/-- A written number begins with a digit. -/
theorem exists_toDigits_eq_cons (n : Nat) :
    ∃ d ds, Nat.toDigits 10 n = d :: ds ∧ d.isDigit = true := by
  obtain ⟨d, ds, h⟩ := List.exists_cons_of_ne_nil (Nat.toDigits_ne_nil (b := 10) (n := n))
  exact ⟨d, ds, h, Version.isDigit_of_mem_toDigits (n := n) (by simp [h])⟩

/-- A component is read as a number if the number stands behind a point. -/
theorem readComponent_eq_number_iff : readComponent part s = .ok (.number n, rest) ↔
    n < numberBound ∧ s = '.' :: (Nat.toDigits 10 n ++ rest) ∧ Stops Char.isDigit rest := by
  constructor
  · intro h
    unfold readComponent at h
    split at h
    · rename_i c s
      split at h
      · cases h
      · obtain ⟨⟨m, s⟩, hnumber, made⟩ := bind_eq_ok_iff.mp h
        cases made
        obtain ⟨hlt, hs, hstops⟩ := readNumber_eq_ok_iff.mp hnumber
        exact ⟨hlt, congrArg (List.cons '.') hs, hstops⟩
    · cases h
    · cases h
  · rintro ⟨hlt, rfl, hstops⟩
    obtain ⟨d, ds, hdigits, hd⟩ := exists_toDigits_eq_cons n
    have hnumber : Version.readNumber part (Nat.toDigits 10 n ++ rest) = .ok (n, rest) :=
      readNumber_eq_ok_iff.mpr ⟨hlt, rfl, hstops⟩
    rw [hdigits, List.cons_append] at hnumber ⊢
    rw [readComponent, if_neg (by simp [not_isWildcard_of_isDigit hd])]
    exact bind_eq_ok_iff.mpr ⟨_, hnumber, rfl⟩

/-- A component is read as a wildcard if one stands behind a point. -/
theorem readComponent_eq_wildcard_iff : readComponent part s = .ok (.wildcard, rest) ↔
    ∃ w, isWildcard w = true ∧ s = '.' :: w :: rest := by
  constructor
  · intro h
    unfold readComponent at h
    split at h
    · rename_i c s
      split at h
      · rename_i hc
        cases h
        exact ⟨c, hc, rfl⟩
      · obtain ⟨⟨m, s⟩, _, made⟩ := bind_eq_ok_iff.mp h
        cases made
    · cases h
    · cases h
  · rintro ⟨w, hw, rfl⟩
    rw [readComponent, if_pos hw]

/-- A component is absent if there is no point. -/
theorem readComponent_eq_absent_iff : readComponent part s = .ok (.absent, rest) ↔
    s = rest ∧ s.head? ≠ some '.' := by
  constructor
  · intro h
    unfold readComponent at h
    split at h
    · split at h
      · cases h
      · obtain ⟨⟨m, s⟩, _, made⟩ := bind_eq_ok_iff.mp h
        cases made
    · cases h
    · rename_i one more
      cases h
      refine ⟨rfl, ?_⟩
      cases s with
      | nil => simp
      | cons c s =>
        rintro ⟨⟩
        cases s with
        | nil => exact more rfl
        | cons d s => exact one d s rfl
  · rintro ⟨rfl, hpoint⟩
    unfold readComponent
    split
    · simp at hpoint
    · simp at hpoint
    · rfl

/-- After a wildcard there is the end of the text, or one more wildcard and the end. -/
theorem readAfterWildcard_eq_ok_iff :
    (∃ part', read.readAfterWildcard s = .ok (part', [])) ↔
      s = [] ∨ ∃ w, isWildcard w = true ∧ s = ['.', w] := by
  constructor
  · rintro ⟨part', h⟩
    unfold read.readAfterWildcard at h
    split at h
    · split at h
      · rename_i hc
        cases h
        exact Or.inr ⟨_, hc, rfl⟩
      · cases h
    · cases h
    · cases h
      exact Or.inl rfl
  · rintro (rfl | ⟨w, hw, rfl⟩)
    · exact ⟨_, rfl⟩
    · exact ⟨.patch, by rw [read.readAfterWildcard, if_pos hw]⟩

/-- A number is read in its place up to where no digit follows. -/
theorem readComponent_number (part : Part) (h : n < numberBound) (hrest : Stops Char.isDigit rest) :
    readComponent part ('.' :: (Nat.toDigits 10 n ++ rest)) = .ok (.number n, rest) :=
  readComponent_eq_number_iff.mpr ⟨h, rfl, hrest⟩

/-- A wildcard is read in the place of a number. -/
theorem readComponent_wildcard (part : Part) (rest : List Char) {w : Char} (hw : isWildcard w = true) :
    readComponent part ('.' :: w :: rest) = .ok (.wildcard, rest) :=
  readComponent_eq_wildcard_iff.mpr ⟨w, hw, rfl⟩

/-- At the end of the text no component is read. -/
theorem readComponent_nil (part : Part) : readComponent part [] = .ok (.absent, []) := rfl

/-! ## The bound

The text after the operator gives the numbers of the bound, and tells whether a wildcard stands among them.
It is read number by number, with the numbers that are known as arguments.
-/

/-- Reads what stands after the minor number. -/
def readPatch (major minor : Nat) (s : List Char) : Except Malformed (PartialVersion × Bool) := do
  let (patch, s) ← readComponent .patch s
  match patch with
  | .absent =>
    readEnd .minor s
    return (.minor major minor, false)
  | .wildcard =>
    readEnd .patch s
    return (.minor major minor, true)
  | .number patch =>
    let (pre, part, s) ← readPre .patch s
    let (_, part, s) ← readBuild part s
    readEnd part s
    return (.full major minor patch pre, false)

/-- Reads what stands after the major number. -/
def readMinor (major : Nat) (s : List Char) : Except Malformed (PartialVersion × Bool) := do
  let (minor, s) ← readComponent .minor s
  match minor with
  | .absent =>
    readEnd .major s
    return (.major major, false)
  | .wildcard =>
    let (part, s) ← read.readAfterWildcard s
    readEnd part s
    return (.major major, true)
  | .number minor => readPatch major minor s

/-- Reads the bound from the text after the operator. -/
def readBound (s : List Char) : Except Malformed (PartialVersion × Bool) := do
  let (major, s) ← readNumber .major s
  readMinor major s

/-- What is read after the minor number completes the text of a bound. -/
theorem isWritten_of_readPatch {a b : Nat} {bound : PartialVersion} {hasWildcard : Bool}
    (ha : a < numberBound) (hb : b < numberBound) (h : readPatch a b s = .ok (bound, hasWildcard)) :
    bound.IsWritten (Nat.toDigits 10 a ++ '.' :: (Nat.toDigits 10 b ++ s)) hasWildcard := by
  obtain ⟨⟨patch, s'⟩, hpatch, afterPatch⟩ := bind_eq_ok_iff.mp h
  cases patch with
  | absent =>
    obtain ⟨⟨⟩, hend, made⟩ := bind_eq_ok_iff.mp afterPatch
    obtain ⟨rfl, _⟩ := readComponent_eq_absent_iff.mp hpatch
    obtain rfl := readEnd_eq_ok_iff.mp hend
    cases made
    rw [List.append_nil]
    exact .minor ha hb
  | wildcard =>
    obtain ⟨⟨⟩, hend, made⟩ := bind_eq_ok_iff.mp afterPatch
    obtain ⟨w, hw, rfl⟩ := readComponent_eq_wildcard_iff.mp hpatch
    obtain rfl := readEnd_eq_ok_iff.mp hend
    cases made
    exact .minorWildcard ha hb hw
  | number p =>
    obtain ⟨hp, rfl, _⟩ := readComponent_eq_number_iff.mp hpatch
    obtain ⟨pre, build, properPre, properBuild, rfl, made⟩ :=
      (suffixes_eq_ok_iff (f := fun pre _ => (PartialVersion.full a b p pre, false))).mp afterPatch
    cases made
    have proper : (Version.mk a b p pre build).Proper := ⟨ha, hb, hp, properPre, properBuild⟩
    have written := PartialVersion.IsWritten.full proper
    rwa [Version.toList_render] at written

/-- What is read after the major number completes the text of a bound. -/
theorem isWritten_of_readMinor {a : Nat} {bound : PartialVersion} {hasWildcard : Bool}
    (ha : a < numberBound) (h : readMinor a s = .ok (bound, hasWildcard)) :
    bound.IsWritten (Nat.toDigits 10 a ++ s) hasWildcard := by
  obtain ⟨⟨minor, s'⟩, hminor, afterMinor⟩ := bind_eq_ok_iff.mp h
  cases minor with
  | absent =>
    obtain ⟨⟨⟩, hend, made⟩ := bind_eq_ok_iff.mp afterMinor
    obtain ⟨rfl, _⟩ := readComponent_eq_absent_iff.mp hminor
    obtain rfl := readEnd_eq_ok_iff.mp hend
    cases made
    rw [List.append_nil]
    exact .major ha
  | wildcard =>
    obtain ⟨⟨part', s''⟩, hafter, afterAfter⟩ := bind_eq_ok_iff.mp afterMinor
    obtain ⟨⟨⟩, hend, made⟩ := bind_eq_ok_iff.mp afterAfter
    obtain ⟨w, hw, rfl⟩ := readComponent_eq_wildcard_iff.mp hminor
    obtain rfl := readEnd_eq_ok_iff.mp hend
    cases made
    rcases readAfterWildcard_eq_ok_iff.mp ⟨part', hafter⟩ with rfl | ⟨w', hw', rfl⟩
    · exact .majorWildcard ha hw
    · exact .majorWildcards ha hw hw'
  | number b =>
    obtain ⟨hb, rfl, _⟩ := readComponent_eq_number_iff.mp hminor
    exact isWritten_of_readPatch ha hb afterMinor

/-- Every text of a bound is read as this bound. -/
theorem readBound_of_isWritten {bound : PartialVersion} {hasWildcard : Bool}
    (h : bound.IsWritten s hasWildcard) : readBound s = .ok (bound, hasWildcard) := by
  have hend (part : Part) : readEnd part [] = .ok () := rfl
  cases h with
  | @major a ha =>
    have hmajor := readNumber_append .major ha stops_nil
    rw [List.append_nil] at hmajor
    refine bind_eq_ok_iff.mpr ⟨_, hmajor, bind_eq_ok_iff.mpr ⟨_, readComponent_nil _, ?_⟩⟩
    exact bind_eq_ok_iff.mpr ⟨_, hend _, rfl⟩
  | @majorWildcard a w ha hw =>
    refine bind_eq_ok_iff.mpr ⟨_, readNumber_append _ ha (stops_point _), ?_⟩
    refine bind_eq_ok_iff.mpr ⟨_, readComponent_wildcard _ _ hw, ?_⟩
    exact bind_eq_ok_iff.mpr ⟨_, rfl, bind_eq_ok_iff.mpr ⟨_, hend _, rfl⟩⟩
  | @majorWildcards a w w' ha hw hw' =>
    obtain ⟨_, hafter⟩ := readAfterWildcard_eq_ok_iff.mpr (Or.inr ⟨w', hw', rfl⟩)
    refine bind_eq_ok_iff.mpr ⟨_, readNumber_append _ ha (stops_point _), ?_⟩
    refine bind_eq_ok_iff.mpr ⟨_, readComponent_wildcard _ _ hw, ?_⟩
    exact bind_eq_ok_iff.mpr ⟨_, hafter, bind_eq_ok_iff.mpr ⟨_, hend _, rfl⟩⟩
  | @minor a b ha hb =>
    have hminor := readComponent_number .minor hb stops_nil
    rw [List.append_nil] at hminor
    refine bind_eq_ok_iff.mpr ⟨_, readNumber_append _ ha (stops_point _), ?_⟩
    refine bind_eq_ok_iff.mpr ⟨_, hminor, bind_eq_ok_iff.mpr ⟨_, readComponent_nil _, ?_⟩⟩
    exact bind_eq_ok_iff.mpr ⟨_, hend _, rfl⟩
  | @minorWildcard a b w ha hb hw =>
    refine bind_eq_ok_iff.mpr ⟨_, readNumber_append _ ha (stops_point _), ?_⟩
    refine bind_eq_ok_iff.mpr ⟨_, readComponent_number _ hb (stops_point _), ?_⟩
    refine bind_eq_ok_iff.mpr ⟨_, readComponent_wildcard _ _ hw, ?_⟩
    exact bind_eq_ok_iff.mpr ⟨_, hend _, rfl⟩
  | @full v proper =>
    rw [Version.toList_render]
    refine bind_eq_ok_iff.mpr ⟨_, readNumber_append _ proper.major_lt (stops_point _), ?_⟩
    refine bind_eq_ok_iff.mpr ⟨_, readComponent_number _ proper.minor_lt (stops_point _), ?_⟩
    refine bind_eq_ok_iff.mpr ⟨_, readComponent_number _ proper.patch_lt (stops_suffixes _ _), ?_⟩
    exact (suffixes_eq_ok_iff (f := fun pre _ =>
      (PartialVersion.full v.major v.minor v.patch pre, false))).mpr
      ⟨v.pre, v.build, proper.pre, proper.build, rfl, rfl⟩

/-- A bound is read from its texts and from no others. -/
theorem readBound_eq_ok_iff {bound : PartialVersion} {hasWildcard : Bool} :
    readBound s = .ok (bound, hasWildcard) ↔ bound.IsWritten s hasWildcard := by
  constructor
  · intro h
    obtain ⟨⟨a, s'⟩, hmajor, afterMajor⟩ := bind_eq_ok_iff.mp h
    obtain ⟨ha, rfl, _⟩ := readNumber_eq_ok_iff.mp hmajor
    exact isWritten_of_readMinor ha afterMajor
  · exact readBound_of_isWritten

/-! ## The comparator as a whole -/

/-- A comparator is made of its operator and the bound that follows. -/
theorem read_eq_bind_readBound (s : List Char) :
    read s = do
      let (bound, hasWildcard) ← readBound (readRelation s).2
      return ⟨(readRelation s).1.getD (bareRelation hasWildcard), bound⟩ := by
  obtain ⟨relation, s', hrelation⟩ : ∃ relation s', readRelation s = (relation, s') := ⟨_, _, rfl⟩
  unfold read readBound
  rw [hrelation, bind_assoc]
  refine bind_congr ?_
  rintro ⟨major, s⟩
  simp only [readMinor, bind_assoc]
  refine bind_congr ?_
  rintro ⟨minor, s⟩
  cases minor with
  | absent => simp only [bind_assoc, pure_bind]
  | wildcard => simp only [bind_assoc, pure_bind]
  | number minor =>
    simp only [readPatch, bind_assoc]
    refine bind_congr ?_
    rintro ⟨patch, s⟩
    cases patch <;> simp only [bind_assoc, pure_bind]

/-- A comparator is an operator, if there is one, and a version that gives the numbers of the bound. Without
an operator the relation depends on whether a wildcard stands among the numbers. -/
theorem read_eq_ok_iff {c : Comparator} : read s = .ok c ↔
    ∃ hasWildcard, c.bound.IsWritten (readRelation s).2 hasWildcard ∧
      c.relation = (readRelation s).1.getD (bareRelation hasWildcard) := by
  rw [read_eq_bind_readBound]
  constructor
  · intro h
    obtain ⟨⟨bound, hasWildcard⟩, hbound, made⟩ := bind_eq_ok_iff.mp h
    cases made
    exact ⟨hasWildcard, readBound_eq_ok_iff.mp hbound, rfl⟩
  · rintro ⟨hasWildcard, written, hrelation⟩
    obtain ⟨_, bound⟩ := c
    obtain rfl := hrelation
    exact bind_eq_ok_iff.mpr ⟨_, readBound_eq_ok_iff.mpr written, rfl⟩

/-! ## The text after the operator -/

/-- The text of a bound begins with a digit. -/
theorem begins_of_isWritten {bound : PartialVersion} {hasWildcard : Bool}
    (h : bound.IsWritten body hasWildcard) : ∃ d rest, body = d :: rest ∧ d.isDigit = true := by
  obtain ⟨a, rest, rfl⟩ : ∃ a rest, body = Nat.toDigits 10 a ++ rest := by
    cases h with
    | @major a ha => exact ⟨a, [], by rw [List.append_nil]⟩
    | majorWildcard ha hw => exact ⟨_, _, rfl⟩
    | majorWildcards ha hw hw' => exact ⟨_, _, rfl⟩
    | minor ha hb => exact ⟨_, _, rfl⟩
    | minorWildcard ha hb hw => exact ⟨_, _, rfl⟩
    | full proper => exact ⟨_, _, Version.toList_render _⟩
  obtain ⟨d, ds, hdigits, hd⟩ := exists_toDigits_eq_cons a
  exact ⟨d, ds ++ rest, by rw [hdigits, List.cons_append], hd⟩

/-- The text of a bound is made of the characters of versions, and of wildcards if it has one. -/
theorem forall_mem_of_isWritten {bound : PartialVersion} {hasWildcard : Bool}
    (h : bound.IsWritten body hasWildcard) :
    ∀ c ∈ body, Version.isVersionChar c = true ∨ hasWildcard = true ∧ isWildcard c = true := by
  have hnumber (n : Nat) : ∀ c ∈ Nat.toDigits 10 n, Version.isVersionChar c = true ∨
      hasWildcard = true ∧ isWildcard c = true :=
    fun c hc => Or.inl (Version.isVersionChar_of_mem_toDigits hc)
  have hpoint : Version.isVersionChar '.' = true := by decide
  cases h with
  | major ha => exact hnumber _
  | majorWildcard ha hw => exact List.forall_mem_append.mpr ⟨hnumber _, by simp [hpoint, hw]⟩
  | majorWildcards ha hw hw' =>
    exact List.forall_mem_append.mpr ⟨hnumber _, by simp [hpoint, hw, hw']⟩
  | minor ha hb =>
    exact List.forall_mem_append.mpr
      ⟨hnumber _, List.forall_mem_cons.mpr ⟨Or.inl hpoint, hnumber _⟩⟩
  | minorWildcard ha hb hw =>
    refine List.forall_mem_append.mpr ⟨hnumber _, List.forall_mem_cons.mpr ⟨Or.inl hpoint, ?_⟩⟩
    exact List.forall_mem_append.mpr ⟨hnumber _, by simp [hpoint, hw]⟩
  | full proper => exact fun c hc => Or.inl (proper.isVersionChar_of_mem hc)

end Comparator

end PackageLock
