import PackageLock.Proofs.Version.Written
import PackageLock.Version.Requirement

/-!
# Versions in a range

Which versions pass a comparator with a full version. Main statements: `exact` is passed by the versions that
differ from the bound in nothing but the build (`allHold_exact_iff`); `caret` is passed by others as well
unless the numbers end there (`allHold_caret_iff_of_alone`, `exists_allHold_caret`). A bound with zeros for the
numbers left out passes its own comparator unless that is `greater` or `less` (`allHold_padded_iff`).
-/

set_option autoImplicit false

namespace PackageLock

/-- The version in which the numbers left out are zero. -/
def PartialVersion.padded : PartialVersion → Version
  | .major a => .release a 0 0
  | .minor a b => .release a b 0
  | .full a b c pre => ⟨a, b, c, pre, []⟩

namespace Version

/-- The two versions differ in nothing but their builds. -/
structure EqUpToBuild (v x : Version) : Prop where
  major : v.major = x.major
  minor : v.minor = x.minor
  patch : v.patch = x.patch
  pre : v.pre = x.pre

/-- No other release lies between the version and the next one whose first number that is not zero is higher:
either there is no room between them, or the numbers end. -/
def AloneInCaretRange (x : Version) : Prop :=
  x.pre = [] ∧ (x.major = 0 ∧ x.minor = 0 ∨
    x.patch + 1 = numberBound ∧ (x.major = 0 ∨ x.minor + 1 = numberBound))

/-- The bound that gives all that can be compared of a version. -/
def bound (x : Version) : PartialVersion :=
  .full x.major x.minor x.patch x.pre

/-- A release is a version without a pre-release. -/
theorem isRelease_iff {v : Version} : v.isRelease = true ↔ v.pre = [] := by
  simp [isRelease]

/-- A release can be written if its numbers are below the bound. -/
theorem proper_release {major minor patch : Nat} (hmajor : major < numberBound)
    (hminor : minor < numberBound) (hpatch : patch < numberBound) :
    (release major minor patch).Proper :=
  ⟨hmajor, hminor, hpatch, by simp [release], by simp [release]⟩

/-- Versions that are equal up to the build are equal if the builds are. -/
theorem EqUpToBuild.eq_of_build {v x : Version} (h : v.EqUpToBuild x) (hbuild : v.build = x.build) :
    v = x := by
  cases v
  cases x
  obtain ⟨rfl, rfl, rfl, rfl⟩ := h
  obtain rfl : _ = _ := hbuild
  rfl

end Version

namespace Comparator

variable {v x : Version}

/-- An exact comparator for a full version holds of this version, in any build. -/
theorem allHold_exact_iff : allHold [⟨.exact, x.bound⟩] v = true ↔ v.EqUpToBuild x := by
  simp only [allHold, List.all_cons, List.all_nil, List.any_cons, List.any_nil, Bool.and_true,
    Bool.or_false, holds, Version.bound, PartialVersion.agrees, PartialVersion.namesPreOf,
    Bool.and_eq_true, Bool.or_eq_true, beq_iff_eq, bne_iff_ne, Version.isRelease_iff]
  constructor
  · rintro ⟨⟨⟨⟨hmajor, hminor⟩, hpatch⟩, hpre⟩, _⟩
    exact ⟨hmajor, hminor, hpatch, hpre⟩
  · rintro ⟨hmajor, hminor, hpatch, hpre⟩
    refine ⟨⟨⟨⟨hmajor, hminor⟩, hpatch⟩, hpre⟩, ?_⟩
    by_cases hrelease : v.pre = []
    · exact Or.inl hrelease
    · exact Or.inr ⟨⟨⟨hmajor.symm, hminor.symm⟩, hpatch.symm⟩, hpre ▸ hrelease⟩

/-- A release comes after all pre-releases of its numbers. -/
theorem isGE_comparePre_nil (pre : List Identifier) : (comparePre [] pre).isGE = true := by
  cases pre <;> rfl

/-- A release has reached a patch, with whatever pre-release, if its number is not less. -/
theorem patchReached_iff (hrelease : v.pre = []) (patch : Nat) (pre : List Identifier) :
    PartialVersion.patchReached v patch pre = true ↔ patch ≤ v.patch := by
  unfold PartialVersion.patchReached
  rw [hrelease]
  split
  · rw [decide_eq_true_eq]
    omega
  · simp only [isGE_comparePre_nil, true_iff]
    omega

/-- What `caret` asks of the numbers of a release. -/
theorem caretHolds_iff (hrelease : v.pre = []) : x.bound.caretHolds v = true ↔
    v.major = x.major ∧
      (0 < x.major ∧ (x.minor < v.minor ∨ v.minor = x.minor ∧ x.patch ≤ v.patch) ∨
        x.major = 0 ∧ v.minor = x.minor ∧
          (0 < x.minor ∧ x.patch ≤ v.patch ∨ x.minor = 0 ∧ v.patch = x.patch)) := by
  simp only [Version.bound, PartialVersion.caretHolds, Bool.and_eq_true, beq_iff_eq]
  refine and_congr_right fun hmajor => ?_
  split
  · split
    · rw [decide_eq_true_eq]
      omega
    · rw [patchReached_iff hrelease]
      omega
  · split
    · rw [Bool.and_eq_true, beq_iff_eq, patchReached_iff hrelease]
      omega
    · simp only [Bool.and_eq_true, beq_iff_eq, hrelease, isGE_comparePre_nil, and_true]
      omega

/-- A caret holds of a release if its range does. -/
theorem allHold_caret_iff (hrelease : v.pre = []) :
    allHold [⟨.caret, x.bound⟩] v = true ↔ x.bound.caretHolds v = true := by
  simp [allHold, holds, Version.isRelease_iff.mpr hrelease]

/-- A caret without a pre-release admits releases only. -/
theorem isRelease_of_allHold_caret (hpre : x.pre = []) (h : allHold [⟨.caret, x.bound⟩] v = true) :
    v.pre = [] := by
  simp only [allHold, List.any_cons, List.any_nil, Bool.or_false, Version.bound,
    PartialVersion.namesPreOf, hpre, bne_self_eq_false, Bool.and_false, Bool.and_eq_true,
    Version.isRelease_iff] at h
  exact h.2

/-- A version that is alone in its caret range is the only one of which the caret holds, up to the build. -/
theorem allHold_caret_iff_of_alone (alone : x.AloneInCaretRange) (proper : v.Proper) :
    allHold [⟨.caret, x.bound⟩] v = true ↔ v.EqUpToBuild x := by
  obtain ⟨hpre, hroom⟩ := alone
  constructor
  · intro h
    have hrelease := isRelease_of_allHold_caret hpre h
    obtain ⟨hmajor, hnumbers⟩ := (caretHolds_iff hrelease).mp ((allHold_caret_iff hrelease).mp h)
    have hminor := proper.minor_lt
    have hpatch := proper.patch_lt
    exact ⟨hmajor, by omega, by omega, hrelease.trans hpre.symm⟩
  · rintro ⟨hmajor, hminor, hpatch, hrelease⟩
    rw [hpre] at hrelease
    rw [allHold_caret_iff hrelease, caretHolds_iff hrelease]
    omega

/-- Unless it is alone in its range, a caret admits a release that differs from its bound. -/
theorem exists_allHold_caret (proper : x.Proper) (shared : ¬ x.AloneInCaretRange) :
    ∃ v : Version, v.Proper ∧ allHold [⟨.caret, x.bound⟩] v = true ∧ ¬ v.EqUpToBuild x := by
  have hcaret {major minor patch : Nat} (h : major = x.major ∧
      (0 < x.major ∧ (x.minor < minor ∨ minor = x.minor ∧ x.patch ≤ patch) ∨
        x.major = 0 ∧ minor = x.minor ∧
          (0 < x.minor ∧ x.patch ≤ patch ∨ x.minor = 0 ∧ patch = x.patch))) :
      allHold [⟨.caret, x.bound⟩] (.release major minor patch) = true :=
    (allHold_caret_iff rfl).mpr ((caretHolds_iff rfl).mpr h)
  by_cases hpre : x.pre = []
  · by_cases hpatch : x.patch + 1 < Version.numberBound
    · -- the next patch
      have hzero : ¬ (x.major = 0 ∧ x.minor = 0) := fun hzero => shared ⟨hpre, Or.inl hzero⟩
      refine ⟨.release x.major x.minor (x.patch + 1),
        Version.proper_release proper.major_lt proper.minor_lt hpatch, hcaret (by omega), fun h => ?_⟩
      exact absurd h.patch (Nat.succ_ne_self _)
    · -- no patch is left, but a next minor number
      have hfull : x.patch + 1 = Version.numberBound := by
        have hlt := proper.patch_lt
        omega
      have hroom : ¬ (x.major = 0 ∨ x.minor + 1 = Version.numberBound) :=
        fun hroom => shared ⟨hpre, Or.inr ⟨hfull, hroom⟩⟩
      have hminor := proper.minor_lt
      refine ⟨.release x.major (x.minor + 1) 0,
        Version.proper_release proper.major_lt (by omega) (by decide), hcaret (by omega), fun h => ?_⟩
      exact absurd h.minor (Nat.succ_ne_self _)
  · -- the release that follows the pre-release
    refine ⟨.release x.major x.minor x.patch,
      Version.proper_release proper.major_lt proper.minor_lt proper.patch_lt, hcaret (by omega),
      fun h => ?_⟩
    exact hpre h.pre.symm

/-! ## The version of the bound itself -/

/-- Identifiers are equal to themselves. -/
theorem compareIdentifiers_self (identifiers : List Identifier) :
    compareIdentifiers identifiers identifiers = .eq := by
  have hone (identifier : Identifier) : identifier.compare identifier = .eq := by
    cases identifier <;> simp [Identifier.compare]
  induction identifiers with
  | nil => rfl
  | cons identifier identifiers ih => simp [compareIdentifiers, hone, ih]

/-- A pre-release is equal to itself. -/
@[simp] theorem comparePre_self (pre : List Identifier) : comparePre pre pre = .eq := by
  cases pre with
  | nil => rfl
  | cons identifier pre => exact compareIdentifiers_self (identifier :: pre)

/-- A version has reached its own patch. -/
@[simp] theorem patchReached_self (v : Version) : PartialVersion.patchReached v v.patch v.pre = true := by
  simp [PartialVersion.patchReached]

section Padded

variable {bound : PartialVersion}

/-- A version agrees with a bound whose missing numbers it has as zeros. -/
theorem agrees_of_padded (h : v.EqUpToBuild bound.padded) : bound.agrees v = true := by
  obtain ⟨hmajor, hminor, hpatch, hpre⟩ := h
  cases bound with
  | major a => simp [PartialVersion.agrees, hmajor, hpre, PartialVersion.padded, Version.release]
  | minor a b => simp [PartialVersion.agrees, hmajor, hminor, hpre, PartialVersion.padded, Version.release]
  | full a b c pre => simp [PartialVersion.agrees, hmajor, hminor, hpatch, hpre, PartialVersion.padded]

/-- A version is at the place of a bound whose missing numbers it has as zeros. -/
theorem place_of_padded (h : v.EqUpToBuild bound.padded) : bound.place v = .eq := by
  obtain ⟨hmajor, hminor, hpatch, hpre⟩ := h
  cases bound with
  | major a => simp [PartialVersion.place, hmajor, PartialVersion.padded, Version.release]
  | minor a b => simp [PartialVersion.place, hmajor, hminor, PartialVersion.padded, Version.release]
  | full a b c pre => simp [PartialVersion.place, hmajor, hminor, hpatch, hpre, PartialVersion.padded]

/-- An exact match is in both ranges that begin with the bound. -/
theorem tildeHolds_of_agrees (h : bound.agrees v = true) : bound.tildeHolds v = true := by
  cases bound with
  | major a => exact h
  | minor a b => exact h
  | full a b c pre =>
    simp only [PartialVersion.agrees, Bool.and_eq_true, beq_iff_eq] at h
    obtain ⟨⟨⟨rfl, rfl⟩, rfl⟩, rfl⟩ := h
    simp [PartialVersion.tildeHolds]

/-- What agrees with a bound is in its caret range. -/
theorem caretHolds_of_agrees (h : bound.agrees v = true) : bound.caretHolds v = true := by
  cases bound with
  | major a =>
    obtain ⟨hmajor, _⟩ := Bool.and_eq_true_iff.mp h
    exact hmajor
  | minor a b =>
    simp only [PartialVersion.agrees, Bool.and_eq_true, beq_iff_eq] at h
    obtain ⟨⟨rfl, rfl⟩, _⟩ := h
    simp [PartialVersion.caretHolds]
  | full a b c pre =>
    simp only [PartialVersion.agrees, Bool.and_eq_true, beq_iff_eq] at h
    obtain ⟨⟨⟨rfl, rfl⟩, rfl⟩, rfl⟩ := h
    simp [PartialVersion.caretHolds]

/-- A bound names the pre-release that agrees with it, if it is one. -/
theorem optsIn_of_agrees (h : bound.agrees v = true) : (v.isRelease || bound.namesPreOf v) = true := by
  cases bound with
  | major a => simp_all [PartialVersion.agrees, Version.isRelease]
  | minor a b => simp_all [PartialVersion.agrees, Version.isRelease]
  | full a b c pre =>
    simp only [PartialVersion.agrees, Bool.and_eq_true, beq_iff_eq] at h
    obtain ⟨⟨⟨rfl, rfl⟩, rfl⟩, rfl⟩ := h
    simp [PartialVersion.namesPreOf, Version.isRelease, em]

/-- The version of the bound is in every range except those that leave out the bound itself. -/
theorem allHold_padded_iff (h : v.EqUpToBuild bound.padded) (relation : Relation) :
    allHold [⟨relation, bound⟩] v = true ↔ relation ≠ .greater ∧ relation ≠ .less := by
  have hagrees := agrees_of_padded h
  have hoptsIn := optsIn_of_agrees hagrees
  have hplace := place_of_padded h
  cases relation <;>
    simp [allHold, holds, hagrees, hoptsIn, hplace, tildeHolds_of_agrees hagrees,
      caretHolds_of_agrees hagrees]

end Padded

end Comparator

end PackageLock
