import PackageLock.Proofs.Constraint.Admission
import PackageLock.Proofs.Version.Installed

/-!
# Constraints of one full version

A full version, with an operator or bare, against an installed one. Main statements: a bare version is an exact
match unless one of its identifiers is a wildcard (`bare_exact_iff`); `!=` is the complement of `=` unless the
two versions differ in their builds (`exclude_complement_iff`).
-/

set_option autoImplicit false

namespace PackageLock

namespace Constraint

variable {w op : String} {v x : Version} {t : Term} {installed : String}

/-! ## A version after an operator -/

/-- The text of a bound without wildcards is made of the characters of versions, also with a v before it. -/
theorem isVersionChar_of_isWritten {s : List Char} {bound : PartialVersion}
    (h : bound.IsWritten (Version.dropV s) false) : ∀ c ∈ s, Version.isVersionChar c = true := by
  obtain ⟨mark, hsplit, hmark⟩ := exists_mark s
  have hbody (c : Char) (hc : c ∈ Version.dropV s) : Version.isVersionChar c = true := by
    simpa using Comparator.forall_mem_of_isWritten h c hc
  rw [hsplit]
  refine List.forall_mem_append.mpr ⟨?_, hbody⟩
  rcases hmark with rfl | rfl | rfl <;>
    simp [Version.isVersionChar, Version.inRun, Version.isIdentifierChar]

/-- What is read as a version is made of the characters of versions, also with a v before it. -/
theorem isVersionChar_of_read (hw : Version.read (Version.dropV w.toList) = .ok x) :
    ∀ c ∈ w.toList, Version.isVersionChar c = true := by
  obtain ⟨proper, hrender⟩ := Version.read_eq_ok_iff.mp hw
  have written : x.bound.IsWritten (Version.dropV w.toList) false := by
    rw [hrender]
    exact .full proper
  exact isVersionChar_of_isWritten written

/-- No character of a version separates terms or alternatives. -/
theorem separators_of_isVersionChar {c : Char} (h : Version.isVersionChar c = true) :
    c ≠ ',' ∧ c ≠ '|' ∧ Text.isBlank c = false := by
  refine ⟨?_, ?_, Version.not_isBlank_of_isVersionChar h⟩
  · rintro rfl
    cases h
  · rintro rfl
    cases h

/-- What follows the operator is read without its mark. -/
theorem readTerm_append_iff {s : List Char} (hop : op.toList = [] ∨ op.toList ∈ operators)
    (hchars : ∀ c ∈ s, Version.isVersionChar c = true) :
    readTerm (op.toList ++ s) = .ok t ↔ Reads op.toList (Version.dropV s) t := by
  have hstops : Text.Stops isOperatorChar s := fun c hc =>
    not_isOperatorChar_of_isVersionChar (hchars c (List.mem_of_mem_head? hc))
  refine readTerm_of_leads (leads_of_stops hop hstops) (List.forall_mem_append.mpr ⟨fun c hc => ?_, ?_⟩)
  · exact (separators_of_isOperatorChar (isOperatorChar_of_mem hop hc)).2
  · exact fun c hc => Version.not_isBlank_of_isVersionChar (hchars c hc)

/-- A version is read, after an operator or by itself, without the blanks around it. -/
theorem isCompatible_append_iff (hop : op.toList = [] ∨ op.toList ∈ operators)
    (hchars : ∀ c ∈ Text.trim w.toList, Version.isVersionChar c = true)
    (hne : Text.trim w.toList ≠ []) : isCompatible (op ++ w) installed = true ↔
      ∃ t, readTerm (op.toList ++ Text.trim w.toList) = .ok t ∧
        ∃ v, Version.parseInstalled installed = .ok v ∧ Term.allHold [t] v = true := by
  refine isCompatible_operator_append_iff (fun c => isOperatorChar_of_mem hop)
    (fun c hc => separators_of_isVersionChar (hchars c hc)) ?_
  obtain ⟨c, rest, hcons⟩ := List.exists_cons_of_ne_nil hne
  rw [hcons] at hchars ⊢
  simp [not_isOperatorChar_of_isVersionChar (hchars c List.mem_cons_self)]

/-- The version after the operator is read in the way in which a version by itself is read there. -/
theorem isCompatible_append (hw : Version.read (Version.dropV w.toList) = .ok x)
    (hop : op.toList = [] ∨ op.toList ∈ operators) (hreads : Reads op.toList x.render.toList t) :
    isCompatible (op ++ w) installed = true ↔
      ∃ v, Version.parseInstalled installed = .ok v ∧ Term.allHold [t] v = true := by
  have hchars := isVersionChar_of_read hw
  have hne : w.toList ≠ [] := by
    intro hnil
    rw [hnil] at hw
    cases hw
  rw [← (Version.read_eq_ok_iff.mp hw).2] at hreads
  have hread := (readTerm_append_iff hop hchars).mpr hreads
  have htrim : Text.trim w.toList = w.toList :=
    Text.trim_eq_self fun c hc => Version.not_isBlank_of_isVersionChar (hchars c hc)
  rw [← htrim] at hchars hne hread
  rw [isCompatible_append_iff hop hchars hne, hread]
  simp

/-- A single comparator holds as a term if it holds by itself. -/
theorem allHold_compare (c : Comparator) (v : Version) :
    Term.allHold [.compare c] v = Comparator.allHold [c] v := rfl

/-- An exclusion holds of every release but the one that it names. -/
theorem allHold_exclude_iff (hrelease : v.isRelease = true) :
    Term.allHold [.exclude x] v = true ↔ v ≠ x := by
  simp [Term.allHold, Term.holds, hrelease]

/-- Before a full version, an operator relates the installed version to it. -/
theorem isCompatible_relation {relation : Relation}
    (hw : Version.read (Version.dropV w.toList) = .ok x) (hop : (op.toList, relation) ∈ relations)
    (hdouble : op.toList ≠ ['=', '=']) : isCompatible (op ++ w) installed = true ↔
      ∃ v, Version.parseInstalled installed = .ok v ∧
        Comparator.allHold [⟨relation, x.bound⟩] v = true := by
  have hread := read_append_of_isWritten hop hdouble (.full (Version.read_eq_ok_iff.mp hw).1)
  exact isCompatible_append hw (Or.inr (mem_operators_of_mem hop)) (.bound hop hdouble hread)

/-- An equals sign before a full version asks for this version, in any build. -/
theorem isCompatible_equal (hw : Version.read (Version.dropV w.toList) = .ok x) :
    isCompatible ("=" ++ w) installed = true ↔
      ∃ v, Version.parseInstalled installed = .ok v ∧ v.EqUpToBuild x := by
  have hop : ("=".toList, Relation.exact) ∈ relations := by decide
  rw [isCompatible_relation hw hop (by decide)]
  simp only [Comparator.allHold_exact_iff]

/-- A caret before a full version asks for its caret range. -/
theorem isCompatible_caret (hw : Version.read (Version.dropV w.toList) = .ok x) :
    isCompatible ("^" ++ w) installed = true ↔
      ∃ v, Version.parseInstalled installed = .ok v ∧
        Comparator.allHold [⟨.caret, x.bound⟩] v = true :=
  isCompatible_relation hw (by decide) (by decide)

/-- An inequality before a full version excludes this version. -/
theorem isCompatible_notEqual (hw : Version.read (Version.dropV w.toList) = .ok x) :
    isCompatible ("!=" ++ w) installed = true ↔
      ∃ v, Version.parseInstalled installed = .ok v ∧ Term.allHold [.exclude x] v = true := by
  have hread : Version.read x.render.toList = .ok x :=
    Version.read_eq_ok_iff.mpr ⟨(Version.read_eq_ok_iff.mp hw).1, rfl⟩
  exact isCompatible_append hw (by decide) (.exclude hread)

/-! ## A full version without an operator -/

/-- A full version without an operator asks for what it is read as. -/
theorem isCompatible_bare (hw : Version.read (Version.dropV w.toList) = .ok x)
    (hreads : Reads [] x.render.toList t) : isCompatible w installed = true ↔
      ∃ v, Version.parseInstalled installed = .ok v ∧ Term.allHold [t] v = true := by
  have hbare : isCompatible ("" ++ w) installed = true ↔
      ∃ v, Version.parseInstalled installed = .ok v ∧ Term.allHold [t] v = true :=
    isCompatible_append hw (Or.inl rfl) hreads
  rwa [String.empty_append] at hbare

/-- A full version without an operator asks for the same as with an equals sign if none of its fields is a
wildcard. -/
theorem isCompatible_eq_of_plain (hw : Version.read (Version.dropV w.toList) = .ok x)
    (plain : ∀ field ∈ Text.fields (· == '.') (Version.dropV w.toList), isWildcardField field = false)
    (installed : String) : isCompatible w installed = isCompatible ("=" ++ w) installed := by
  obtain ⟨proper, hrender⟩ := Version.read_eq_ok_iff.mp hw
  rw [hrender] at plain
  have hread := read_equal_of_isWritten (.full proper)
  have hreads : Reads [] x.render.toList (.compare ⟨.exact, x.bound⟩) := .bare plain hread
  rw [Bool.eq_iff_iff, isCompatible_equal hw, isCompatible_bare hw hreads]
  simp only [allHold_compare, Comparator.allHold_exact_iff]

/-- A full version without an operator asks for the same as with a caret if one of its fields is a wildcard.
-/
theorem isCompatible_eq_caret_of_wildcard (hw : Version.read (Version.dropV w.toList) = .ok x)
    (wild : ∃ field ∈ Text.fields (· == '.') (Version.dropV w.toList), isWildcardField field = true)
    (installed : String) : isCompatible w installed = isCompatible ("^" ++ w) installed := by
  obtain ⟨proper, hrender⟩ := Version.read_eq_ok_iff.mp hw
  rw [hrender] at wild
  have hreads : Reads [] x.render.toList (.compare ⟨.caret, x.bound⟩) :=
    .asItStands (not_isWildcardField_of_isWritten (.full proper)) wild (read_of_isWritten (.full proper))
  rw [Bool.eq_iff_iff, isCompatible_caret hw, isCompatible_bare hw hreads]
  rfl

/-- A caret range admits the same installed versions as its bound if and only if it holds no other release. -/
theorem isCompatible_caret_eq_equal_iff (hw : Version.read (Version.dropV w.toList) = .ok x) :
    (∀ installed, isCompatible ("^" ++ w) installed = isCompatible ("=" ++ w) installed) ↔
      x.AloneInCaretRange := by
  have hiff (installed : String) :
      isCompatible ("^" ++ w) installed = isCompatible ("=" ++ w) installed ↔
        ((∃ v, Version.parseInstalled installed = .ok v ∧
            Comparator.allHold [⟨.caret, x.bound⟩] v = true) ↔
          ∃ v, Version.parseInstalled installed = .ok v ∧ v.EqUpToBuild x) := by
    rw [Bool.eq_iff_iff, isCompatible_caret hw, isCompatible_equal hw]
  simp only [hiff]
  constructor
  · intro h
    by_contra shared
    obtain ⟨v, proper, hcaret, hother⟩ :=
      Comparator.exists_allHold_caret (Version.read_eq_ok_iff.mp hw).1 shared
    have hinstalled := Version.parseInstalled_render proper
    obtain ⟨v', hv', heq⟩ := (h v.render).mp ⟨v, hinstalled, hcaret⟩
    obtain rfl := Except.ok.inj (hinstalled.symm.trans hv')
    exact hother heq
  · intro alone installed
    refine exists_congr fun v => and_congr_right fun hinstalled => ?_
    exact Comparator.allHold_caret_iff_of_alone alone (Version.proper_of_parseInstalled hinstalled)

/-- A bare version is matched by the versions that differ from it in their builds only, as if `=` stood before
it. But if a field of it is a lone wildcard, which can only be an identifier of its pre-release or build, then
it is read as if `^` stood before it, and is an exact match only where no other release is in the range. -/
theorem bare_exact_iff (hw : Version.read (Version.dropV w.toList) = .ok x) :
    (∀ installed, isCompatible ("=" ++ w) installed = true ↔
      ∃ v, Version.parseInstalled installed = .ok v ∧ v.EqUpToBuild x) ∧
    ((∃ field ∈ Text.fields (· == '.') (Version.dropV w.toList), isWildcardField field = true) →
      ∀ installed, isCompatible w installed = isCompatible ("^" ++ w) installed) ∧
    ((∀ installed, isCompatible w installed = isCompatible ("=" ++ w) installed) ↔
      (∀ field ∈ Text.fields (· == '.') (Version.dropV w.toList), isWildcardField field = false) ∨
        x.AloneInCaretRange) := by
  refine ⟨fun installed => isCompatible_equal hw, isCompatible_eq_caret_of_wildcard hw, ?_⟩
  by_cases plain : ∀ field ∈ Text.fields (· == '.') (Version.dropV w.toList),
      isWildcardField field = false
  · exact ⟨fun _ => Or.inl plain, fun _ => isCompatible_eq_of_plain hw plain⟩
  · have wild : ∃ field ∈ Text.fields (· == '.') (Version.dropV w.toList),
        isWildcardField field = true := by
      simpa using plain
    simp only [isCompatible_eq_caret_of_wildcard hw wild, isCompatible_caret_eq_equal_iff hw, plain,
      false_or]

/-- The wildcard in the build of the first version makes no difference, since no release but itself has its
numbers; the second one has none. -/
theorem bare_exact_of_build :
    Version.read (Version.dropV "0.0.3+a.x".toList) =
        .ok ⟨0, 0, 3, [], ["a", "x"]⟩ ∧
      Version.read (Version.dropV "v1.2.3-ax".toList) = .ok ⟨1, 2, 3, [.word "ax"], []⟩ ∧
      (∀ installed, isCompatible "0.0.3+a.x" installed = isCompatible ("=" ++ "0.0.3+a.x") installed) ∧
      ∀ installed, isCompatible "v1.2.3-ax" installed = isCompatible ("=" ++ "v1.2.3-ax") installed := by
  have hbuild : Version.read (Version.dropV "0.0.3+a.x".toList) =
      .ok ⟨0, 0, 3, [], ["a", "x"]⟩ := by decide
  have hpre : Version.read (Version.dropV "v1.2.3-ax".toList) =
      .ok ⟨1, 2, 3, [.word "ax"], []⟩ := by decide
  exact ⟨hbuild, hpre, (bare_exact_iff hbuild).2.2.mpr (Or.inr ⟨rfl, Or.inl ⟨rfl, rfl⟩⟩),
    (bare_exact_iff hpre).2.2.mpr (Or.inl (by decide))⟩

/-- A wildcard as an identifier of the pre-release turns an exact match into a range. -/
theorem not_exact_of_wildcard_identifier :
    Version.read (Version.dropV "1.2.3-a.x".toList) =
        .ok ⟨1, 2, 3, [.word "a", .word "x"], []⟩ ∧
      isCompatible "1.2.3-a.x" "1.2.4" = true ∧ isCompatible ("=" ++ "1.2.3-a.x") "1.2.4" = false := by
  decide

/-! ## Excluding a version -/

/-- Of two versions that differ in their builds only, one satisfies both `=` and `!=` with the other; otherwise
`!=` is the complement of `=` on releases. -/
theorem exclude_complement_iff (hw : Version.read (Version.dropV w.toList) = .ok x)
    (hinstalled : Version.parseInstalled installed = .ok v) (hrelease : v.isRelease = true) :
    (isCompatible ("!=" ++ w) installed = true ↔ v ≠ x) ∧
    (isCompatible ("=" ++ w) installed = true ↔ v.EqUpToBuild x) ∧
    ((isCompatible ("!=" ++ w) installed = true ↔ ¬ isCompatible ("=" ++ w) installed = true) ↔
      ¬ (v.EqUpToBuild x ∧ v.build ≠ x.build)) := by
  have hexclude : isCompatible ("!=" ++ w) installed = true ↔ v ≠ x := by
    simp [isCompatible_notEqual hw, hinstalled, allHold_exclude_iff hrelease]
  have hequal : isCompatible ("=" ++ w) installed = true ↔ v.EqUpToBuild x := by
    simp [isCompatible_equal hw, hinstalled]
  refine ⟨hexclude, hequal, ?_⟩
  rw [hexclude, hequal]
  constructor
  · rintro hcomplement ⟨heq, hbuild⟩
    exact hcomplement.mp (fun h => hbuild (h ▸ rfl)) heq
  · intro hbuild
    constructor
    · intro hne heq
      exact hne (heq.eq_of_build (not_not.mp fun h => hbuild ⟨heq, h⟩))
    · rintro hother rfl
      exact hother ⟨rfl, rfl, rfl, rfl⟩

/-- A version of two numbers between blanks is excluded by an inequality just if it does not satisfy the
equality. -/
theorem exclude_complement_of_short :
    Version.read (Version.dropV "v1.2.0".toList) = .ok (.release 1 2 0) ∧
      Version.parseInstalled " v1.2 " = .ok (.release 1 2 0) ∧
      (Version.release 1 2 0).isRelease = true ∧
      (isCompatible ("!=" ++ "v1.2.0") " v1.2 " = true ↔
        ¬ isCompatible ("=" ++ "v1.2.0") " v1.2 " = true) := by
  have hread : Version.read (Version.dropV "v1.2.0".toList) = .ok (.release 1 2 0) := by decide
  have hinstalled : Version.parseInstalled " v1.2 " = .ok (.release 1 2 0) := by decide
  refine ⟨hread, hinstalled, rfl, (exclude_complement_iff hread hinstalled rfl).2.2.mpr ?_⟩
  rintro ⟨_, hbuild⟩
  exact hbuild rfl

/-- An installed version with a build satisfies both a version and its exclusion. -/
theorem not_complement_of_build :
    Version.parseInstalled "1.2.3+b" = .ok ⟨1, 2, 3, [], ["b"]⟩ ∧
      isCompatible ("!=" ++ "1.2.3") "1.2.3+b" = true ∧
      isCompatible ("=" ++ "1.2.3") "1.2.3+b" = true := by
  decide

end Constraint

end PackageLock
