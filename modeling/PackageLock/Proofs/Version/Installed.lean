import PackageLock.Proofs.Version.Comparators
import PackageLock.Proofs.Version.Ranges
import PackageLock.Version

/-!
# Installed versions as they are written

What is recorded as an installed version may stand between blanks and carry a mark. Main statement: without
them it is written like the version in a comparator, and is the version in which the numbers left out are
zero (`exists_written_of_parseInstalled`).
-/

set_option autoImplicit false

namespace PackageLock

open Text (Stops)

namespace Version

variable {v : Version} {installed : String} {digits rest rest' : List Char} {n : Nat}

/-! ## Full versions -/

/-- A written version has no mark to drop. -/
theorem dropV_render (proper : v.Proper) : dropV v.render.toList = v.render.toList := by
  obtain ⟨d, rest, hbody, hd⟩ := Comparator.begins_of_isWritten (.full proper)
  rw [hbody]
  unfold dropV
  split
  · rename_i h
    rw [(List.cons.inj h).1] at hd
    cases hd
  · rename_i h
    rw [(List.cons.inj h).1] at hd
    cases hd
  · rfl

/-- Letters and digits lie between the digit zero and the small z. -/
theorem toNat_of_isAlphanum {c : Char} (h : c.isAlphanum = true) :
    '0'.toNat ≤ c.toNat ∧ c.toNat ≤ 'z'.toNat := by
  rcases Bool.or_eq_true_iff.mp h with halpha | hdigit
  · rcases Bool.or_eq_true_iff.mp halpha with hupper | hlower
    · obtain ⟨hA, hZ⟩ : 'A'.val ≤ c.val ∧ c.val ≤ 'Z'.val := of_decide_eq_true hupper
      exact ⟨le_trans (by decide) hA, le_trans hZ (by decide)⟩
    · obtain ⟨ha, hz⟩ := Bool.and_eq_true_iff.mp hlower
      exact ⟨le_trans (by decide) (of_decide_eq_true ha), of_decide_eq_true hz⟩
  · obtain ⟨h0, h9⟩ := Char.isDigit_iff_toNat.mp hdigit
    exact ⟨h0, le_trans h9 (by decide)⟩

/-- No character of a version is a blank. -/
theorem not_isBlank_of_isVersionChar {c : Char} (h : isVersionChar c = true) :
    Text.isBlank c = false := by
  -- all blanks are below the hyphen or above the letters
  have hrange : '+'.toNat ≤ c.toNat ∧ c.toNat ≤ 'z'.toNat := by
    simp only [isVersionChar, inRun, isIdentifierChar, Bool.or_eq_true, decide_eq_true_eq,
      beq_iff_eq] at h
    rcases h with ((h | rfl) | rfl) | rfl
    · obtain ⟨h0, hz⟩ := toNat_of_isAlphanum h
      exact ⟨le_trans (by decide) h0, hz⟩
    · decide
    · decide
    · decide
  have hplus : '+'.toNat = 0x2B := rfl
  have hz : 'z'.toNat = 0x7A := rfl
  simp only [Text.isBlank, Bool.or_eq_false_iff, Bool.and_eq_false_iff, decide_eq_false_iff_not,
    beq_eq_false_iff_ne]
  omega

/-- A written version has no blanks to trim. -/
theorem trim_render (proper : v.Proper) : Text.trim v.render.toList = v.render.toList :=
  Text.trim_eq_self fun _ hc => not_isBlank_of_isVersionChar (proper.isVersionChar_of_mem hc)

/-- A version is installed as it is written. -/
theorem parseInstalled_render (proper : v.Proper) : parseInstalled v.render = .ok v := by
  obtain ⟨d, rest, hbody, _⟩ := Comparator.begins_of_isWritten (.full proper)
  have hread : read v.render.toList = .ok v := read_eq_ok_iff.mpr ⟨proper, rfl⟩
  unfold parseInstalled
  rw [trim_render proper, dropV_render proper]
  rw [hbody] at hread ⊢
  simp only [hread]

/-- What is read as an installed version can be written. -/
theorem proper_of_parseInstalled (h : parseInstalled installed = .ok v) : v.Proper := by
  unfold parseInstalled at h
  split at h
  · cases h
  · split at h
    · rename_i hread
      cases h
      exact (read_eq_ok_iff.mp hread).1
    · split at h
      · rename_i hpadded
        cases h
        obtain ⟨s, _, hread⟩ := Option.map_eq_some_iff.mp hpadded
        exact (read_eq_ok_iff.mp hread).1
      · cases h

/-! ## Numbers left out -/

/-- Digits that stop where a written number stops are those of the number. -/
theorem toDigits_of_append_eq (hdigits : ∀ c ∈ digits, c.isDigit = true) (hrest : Stops Char.isDigit rest)
    (hrest' : Stops Char.isDigit rest') (h : digits ++ rest = Nat.toDigits 10 n ++ rest') :
    digits = Nat.toDigits 10 n ∧ rest = rest' := by
  have hrun := congrArg (List.takeWhile Char.isDigit) h
  rw [Text.takeWhile_append_of_stops hdigits hrest,
    Text.takeWhile_append_of_stops (fun c => isDigit_of_mem_toDigits) hrest'] at hrun
  refine ⟨hrun, ?_⟩
  rw [hrun] at h
  exact List.append_cancel_left h

/-- A release is written with its three numbers. -/
theorem render_release (major minor patch : Nat) : (release major minor patch).render.toList =
    Nat.toDigits 10 major ++ '.' :: (Nat.toDigits 10 minor ++ '.' :: Nat.toDigits 10 patch) := by
  rw [toList_render]
  simp [release, preSuffix, buildSuffix]

/-- What is filled up with zeros is one run of digits or two. -/
theorem exists_digits_of_padded? {s padded : List Char} (h : padded? s = some padded) :
    (∀ c ∈ s, c.isDigit = true) ∧ padded = s ++ ".0.0".toList ∨
      ∃ major minor, s = major ++ '.' :: minor ∧ (∀ c ∈ major, c.isDigit = true) ∧
        (∀ c ∈ minor, c.isDigit = true) ∧ padded = s ++ ".0".toList := by
  have hs := Text.intercalate_fields '.' s
  unfold padded? at h
  simp only at h
  split at h
  · rename_i major hfields
    split at h
    · rename_i hmajor
      cases h
      obtain rfl : major = s := by simpa [hfields] using hs
      exact Or.inl ⟨by simpa using (Bool.and_eq_true_iff.mp hmajor).2, rfl⟩
    · cases h
  · rename_i major minor hfields
    split at h
    · rename_i hboth
      cases h
      obtain rfl : major ++ '.' :: minor = s := by simpa [hfields, List.intercalate] using hs
      obtain ⟨hmajor, hminor⟩ := Bool.and_eq_true_iff.mp hboth
      exact Or.inr ⟨major, minor, rfl, by simpa using (Bool.and_eq_true_iff.mp hmajor).2,
        by simpa using (Bool.and_eq_true_iff.mp hminor).2, rfl⟩
    · cases h
  · cases h

/-- One number or two are read as the release of which they are the first numbers. -/
theorem exists_written_of_padded? {s padded : List Char} (hpadded : padded? s = some padded)
    (hread : read padded = .ok v) :
    ∃ bound : PartialVersion, bound.IsWritten s false ∧ v = bound.padded := by
  obtain ⟨proper, hrender⟩ := read_eq_ok_iff.mp hread
  rw [toList_render] at hrender
  have hunique {x : Version} (hx : x.Proper) (h : padded = x.render.toList) : v = x :=
    Except.ok.inj (hread.symm.trans (read_eq_ok_iff.mpr ⟨hx, h⟩))
  rcases exists_digits_of_padded? hpadded with ⟨hdigits, rfl⟩ | ⟨major, minor, rfl, hmajor, hminor, rfl⟩
  · obtain ⟨hs, _⟩ := toDigits_of_append_eq hdigits (stops_point _) (stops_point _) hrender
    rw [hs] at hunique ⊢
    refine ⟨.major v.major, .major proper.major_lt,
      hunique (proper_release proper.major_lt (by decide) (by decide)) ?_⟩
    rw [PartialVersion.padded, render_release]
    simp
  · rw [List.append_assoc] at hrender
    obtain ⟨hs, hrest⟩ := toDigits_of_append_eq hmajor (stops_point _) (stops_point _) hrender
    obtain ⟨hs', _⟩ :=
      toDigits_of_append_eq hminor (stops_point _) (stops_point _) (List.cons.inj hrest).2
    rw [hs, hs'] at hunique ⊢
    refine ⟨.minor v.major v.minor, .minor proper.major_lt proper.minor_lt,
      hunique (proper_release proper.major_lt proper.minor_lt (by decide)) ?_⟩
    rw [PartialVersion.padded, render_release]
    simp

/-- An installed version is written, between blanks and after its mark, as all its numbers or the first of
them, and those left out are zero. -/
theorem exists_written_of_parseInstalled (h : parseInstalled installed = .ok v) :
    ∃ bound : PartialVersion, bound.IsWritten (dropV (Text.trim installed.toList)) false ∧
      v.EqUpToBuild bound.padded := by
  unfold parseInstalled at h
  split at h
  · cases h
  · rename_i hraw
    rw [hraw]
    split at h
    · rename_i hread
      cases h
      obtain ⟨proper, hrender⟩ := read_eq_ok_iff.mp hread
      rw [hrender]
      exact ⟨v.bound, .full proper, rfl, rfl, rfl, rfl⟩
    · split at h
      · rename_i hpadded
        cases h
        obtain ⟨padded, hpadded, hread⟩ := Option.map_eq_some_iff.mp hpadded
        obtain ⟨bound, written, rfl⟩ := exists_written_of_padded? hpadded hread
        exact ⟨bound, written, rfl, rfl, rfl, rfl⟩
      · cases h

/-- What is read as a full version is read as the same installed version. -/
theorem eq_of_parseInstalled_of_read {x : Version} (h : parseInstalled installed = .ok v)
    (hread : read (dropV (Text.trim installed.toList)) = .ok x) : v = x := by
  unfold parseInstalled at h
  split at h
  · cases h
  · rename_i hraw
    rw [hraw] at hread
    rw [hread] at h
    exact (Except.ok.inj h).symm

end Version

end PackageLock
