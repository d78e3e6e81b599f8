import PackageLock.Proofs.Constraint.Exactness

/-!
# Installed versions as constraints on themselves

A recorded version is read in one way as what is installed, where numbers left out are zero, and in another
as a bound, where they are left open. Both readings accept the same texts, and the bound is met by the
version itself. Main statement: which operators an installed version satisfies with itself behind them
(`isCompatible_self`).
-/

set_option autoImplicit false

namespace PackageLock.Constraint

variable {w op : String} {v : Version} {t : Term} {body : List Char} {bound : PartialVersion}

/-! ## One text, two readings -/

/-- An operator for a relation and a bound without wildcards are read as the comparator of both. -/
theorem reads_relation_iff {relation : Relation} {op : List Char} (hop : (op, relation) ∈ relations)
    (written : bound.IsWritten body false) : Reads op body t ↔ t = .compare ⟨relation, bound⟩ := by
  by_cases hdouble : op = ['=', '=']
  · subst hdouble
    obtain rfl : relation = .exact := by simpa [relations] using hop
    simp [reads_equal_iff, read_equal_of_isWritten written]
  · simp [reads_bound_iff hop hdouble, read_append_of_isWritten hop hdouble written]

/-- Without an operator the bound is exact, or the range from it on if an identifier is a wildcard. -/
theorem exists_reads_bare_iff (written : bound.IsWritten body false) :
    ∃ relation, (relation = .exact ∨ relation = .caret) ∧
      ∀ t, Reads [] body t ↔ t = .compare ⟨relation, bound⟩ := by
  by_cases plain : ∀ field ∈ Text.fields (· == '.') body, isWildcardField field = false
  · have hread := read_equal_of_isWritten written
    exact ⟨.exact, Or.inl rfl, fun t => by simp [reads_bare_iff plain, hread]⟩
  · have wild : ∃ field ∈ Text.fields (· == '.') body, isWildcardField field = true := by
      simpa using plain
    have lone := not_isWildcardField_of_isWritten written
    have hread := read_of_isWritten written
    exact ⟨.caret, Or.inr rfl, fun t => by
      simp [reads_asItStands_iff lone wild, hread, Comparator.bareRelation]⟩

/-! ## A version behind an operator -/

/-- A version under an operator is compatible with itself if the term that is read holds of it. -/
theorem isCompatible_self_iff (h : Version.parseInstalled w = .ok v)
    (hop : op.toList = [] ∨ op.toList ∈ operators) : isCompatible (op ++ w) w = true ↔
      ∃ t, Reads op.toList (Version.dropV (Text.trim w.toList)) t ∧ Term.allHold [t] v = true := by
  obtain ⟨bound, written, _⟩ := Version.exists_written_of_parseInstalled h
  have hchars := isVersionChar_of_isWritten written
  have hne : Text.trim w.toList ≠ [] := by
    intro hnil
    obtain ⟨d, rest, hcons, _⟩ := Comparator.begins_of_isWritten written
    rw [hnil] at hcons
    cases hcons
  rw [isCompatible_append_iff hop hchars hne]
  simp [readTerm_append_iff hop hchars, h]

/-- Of the operators for relations only the two that are strict exclude the version itself. -/
theorem isCompatible_relation_self {relation : Relation} (h : Version.parseInstalled w = .ok v)
    (hop : (op.toList, relation) ∈ relations) :
    isCompatible (op ++ w) w = true ↔ relation ≠ .greater ∧ relation ≠ .less := by
  obtain ⟨bound, written, hv⟩ := Version.exists_written_of_parseInstalled h
  rw [isCompatible_self_iff h (Or.inr (mem_operators_of_mem hop))]
  simp only [reads_relation_iff hop written, exists_eq_left, allHold_compare,
    Comparator.allHold_padded_iff hv]

/-- Without an operator every installed version is compatible with itself. -/
theorem isCompatible_bare_self (h : Version.parseInstalled w = .ok v) :
    isCompatible ("" ++ w) w = true := by
  obtain ⟨bound, written, hv⟩ := Version.exists_written_of_parseInstalled h
  obtain ⟨relation, hrelation, hreads⟩ := exists_reads_bare_iff written
  refine (isCompatible_self_iff h (Or.inl rfl)).mpr ⟨_, (hreads _).mpr rfl, ?_⟩
  rw [allHold_compare, Comparator.allHold_padded_iff hv]
  rcases hrelation with rfl | rfl <;> decide

/-- What is excluded has to be a full version, and it is the one that is installed. -/
theorem not_isCompatible_notEqual_self (h : Version.parseInstalled w = .ok v) :
    ¬ isCompatible ("!=" ++ w) w = true := by
  intro hcompatible
  obtain ⟨t, hreads, hholds⟩ := (isCompatible_self_iff h (by decide)).mp hcompatible
  obtain ⟨x, hread, rfl⟩ := reads_exclude_iff.mp hreads
  obtain rfl := Version.eq_of_parseInstalled_of_read h hread
  simp [Term.allHold, Term.holds] at hholds

/-- Every text that is read as an installed version satisfies itself as a constraint, and with each operator
that includes its bound before it; with an operator that leaves the bound out it does not. This holds with or
without a mark, numbers left out, a pre-release, a build, and blanks around it. -/
theorem isCompatible_self (h : Version.parseInstalled w = .ok v) :
    (∀ op ∈ ["", "=", "==", ">=", "<=", "~", "^"], isCompatible (op ++ w) w = true) ∧
      ∀ op ∈ ["<", ">", "!="], isCompatible (op ++ w) w = false := by
  have including : ∀ op ∈ ["=", "==", ">=", "<=", "~", "^"], ∃ known ∈ relations,
      known.1 = op.toList ∧ known.2 ≠ .greater ∧ known.2 ≠ .less := by decide
  constructor
  · intro op hop
    rcases List.mem_cons.mp hop with rfl | hop
    · exact isCompatible_bare_self h
    · obtain ⟨⟨_, relation⟩, hknown, rfl, hrelation⟩ := including op hop
      exact (isCompatible_relation_self h hknown).mpr hrelation
  · intro op hop
    rw [Bool.eq_false_iff]
    simp only [List.mem_cons, List.not_mem_nil, or_false] at hop
    rcases hop with rfl | rfl | rfl
    · have hless : ("<".toList, Relation.less) ∈ relations := by decide
      simp [isCompatible_relation_self h hless]
    · have hgreater : (">".toList, Relation.greater) ∈ relations := by decide
      simp [isCompatible_relation_self h hgreater]
    · exact not_isCompatible_notEqual_self h

/-- A mark, blanks, a number left out, a pre-release and a build make no difference. -/
theorem isCompatible_self_of_partial :
    Version.parseInstalled " v1.2 " = .ok (.release 1 2 0) ∧
      isCompatible (">=" ++ " v1.2 ") " v1.2 " = true ∧ isCompatible (">" ++ " v1.2 ") " v1.2 " = false ∧
    Version.parseInstalled "1.2.3-x.1+b" = .ok ⟨1, 2, 3, [.word "x", .numeric 1], ["b"]⟩ ∧
      isCompatible ("" ++ "1.2.3-x.1+b") "1.2.3-x.1+b" = true ∧
      isCompatible ("!=" ++ "1.2.3-x.1+b") "1.2.3-x.1+b" = false := by
  have hpartial : Version.parseInstalled " v1.2 " = .ok (.release 1 2 0) := by decide
  have hfull : Version.parseInstalled "1.2.3-x.1+b" =
      .ok ⟨1, 2, 3, [.word "x", .numeric 1], ["b"]⟩ := by decide
  exact ⟨hpartial, (isCompatible_self hpartial).1 ">=" (by decide),
    (isCompatible_self hpartial).2 ">" (by decide), hfull, (isCompatible_self hfull).1 "" (by decide),
    (isCompatible_self hfull).2 "!=" (by decide)⟩

end PackageLock.Constraint
