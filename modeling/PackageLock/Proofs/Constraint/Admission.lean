import PackageLock.Proofs.Constraint.Operators
import PackageLock.Proofs.Constraint.Terms
import PackageLock.Proofs.Text.Reading

/-!
# What a constraint admits

An alternative keeps what its terms ask for in two lists; here they are judged as the terms that were read
(`Term.allHold`). Main statements: a constraint can be parsed if and only if every term of every alternative
can be read and no alternative is without terms (`parse_eq_ok_iff`), and a version is admitted if and only if
it passes the terms of an alternative (`admits_iff`). An operator and the version after it are judged as the
one term they are (`isCompatible_operator_append_iff`).
-/

set_option autoImplicit false

namespace PackageLock.Constraint

open Text (bind_eq_ok_iff mapM_eq_ok_iff forall₂_exists_iff forall₂_append_left_iff
  exists_mem_of_forall₂ exists_mem_of_mapM)

variable {v : Version} {t : Term} {parsed : List Term} {part : List Char} {alternative : Alternative}
  {constraint : Constraint} {text : String}

/-! ## Terms as conditions -/

/-- Whether the version passes what the term asks for, the opt-in of pre-releases apart. -/
def Term.holds (v : Version) : Term → Bool
  | .any => true
  | .compare c => c.holds v
  | .exclude w => v != w

/-- The term opts in to the pre-releases of the version's own three numbers. -/
def Term.optsIn (v : Version) : Term → Bool
  | .compare c => c.bound.namesPreOf v
  | _ => false

/-- Whether the version passes all terms of an alternative. -/
def Term.allHold (parsed : List Term) (v : Version) : Bool :=
  parsed.all (·.holds v) && (v.isRelease || parsed.any (·.optsIn v))

/-- Terms hold of a version if each of them does and, for a pre-release, one of them opts in to it. -/
theorem Term.allHold_eq_true_iff : Term.allHold parsed v = true ↔
    (∀ t ∈ parsed, t.holds v = true) ∧ (v.isRelease = true ∨ ∃ t ∈ parsed, t.optsIn v = true) := by
  simp [Term.allHold]

/-- A term opts in to a pre-release if it is a comparator whose bound names a pre-release of the same
numbers. -/
theorem Term.optsIn_eq_true_iff :
    t.optsIn v = true ↔ ∃ c, t = .compare c ∧ c.bound.namesPreOf v = true := by
  cases t <;> simp [Term.optsIn]

/-- An alternative to which terms have been added holds of a version if it did before and all the terms
hold. -/
theorem all_holds_foldl_addTo (parsed : List Term) (alternative : Alternative) (v : Version) :
    ((parsed.foldl Term.addTo alternative).comparators.all (·.holds v) &&
        !(parsed.foldl Term.addTo alternative).excluded.contains v) =
      (alternative.comparators.all (·.holds v) && !alternative.excluded.contains v &&
        parsed.all (·.holds v)) := by
  induction parsed generalizing alternative with
  | nil => simp
  | cons t parsed ih =>
    rw [List.foldl_cons, ih, List.all_cons, ← Bool.and_assoc]
    congr 1
    cases t with
    | any => simp [Term.addTo, Term.holds]
    | compare c =>
      simp only [Term.addTo, Term.holds, List.all_append, List.all_cons, List.all_nil, Bool.and_true]
      exact Bool.and_right_comm ..
    | exclude w =>
      simp only [Term.addTo, Term.holds, List.contains_append, List.contains_cons, List.contains_nil,
        Bool.or_false, Bool.not_or, Bool.and_assoc]
      rfl

/-- An alternative to which terms have been added names a pre-release if it did before or one of the terms
opts in to it. -/
theorem any_namesPreOf_foldl_addTo (parsed : List Term) (alternative : Alternative) (v : Version) :
    (parsed.foldl Term.addTo alternative).comparators.any (·.bound.namesPreOf v) =
      (alternative.comparators.any (·.bound.namesPreOf v) || parsed.any (·.optsIn v)) := by
  induction parsed generalizing alternative with
  | nil => simp
  | cons t parsed ih =>
    rw [List.foldl_cons, ih, List.any_cons, ← Bool.or_assoc]
    congr 1
    cases t <;> simp [Term.addTo, Term.optsIn]

/-- The two lists of an alternative mean what its terms mean. -/
theorem admits_foldl_addTo (parsed : List Term) (v : Version) :
    (parsed.foldl Term.addTo ⟨[], []⟩).admits v = Term.allHold parsed v := by
  have hall := all_holds_foldl_addTo parsed ⟨[], []⟩ v
  have hany := any_namesPreOf_foldl_addTo parsed ⟨[], []⟩ v
  simp only [List.all_nil, List.contains_nil, Bool.not_false, Bool.and_true, Bool.true_and] at hall
  simp only [List.any_nil, Bool.false_or] at hany
  rw [Alternative.admits, Comparator.allHold, Term.allHold, hany, ← hall]
  exact Bool.and_right_comm ..

/-! ## Parsing -/

/-- Parsing a term succeeds with what reading it gives. -/
theorem parseTerm_eq_ok_iff {term : List Char} : parseTerm term = .ok t ↔ readTerm term = .ok t := by
  unfold parseTerm
  split
  · rename_i hread
    simp [hread]
  · rename_i hread
    simp [hread]

/-- The alternative that asks for these terms. -/
def alternativeOf (parsed : List Term) : Alternative :=
  parsed.foldl Term.addTo ⟨[], []⟩

/-- The alternative that is made of terms admits the versions of which they hold. -/
theorem admits_alternativeOf (parsed : List Term) (v : Version) :
    (alternativeOf parsed).admits v = Term.allHold parsed v :=
  admits_foldl_addTo parsed v

/-- An alternative is parsed if its text has terms and all of them are read; it is then made of these. -/
theorem parseAlternative_eq_ok_iff : parseAlternative part = .ok alternative ↔
    ∃ parsed, (terms part ≠ [] ∧ (terms part).mapM readTerm = .ok parsed) ∧
      alternative = alternativeOf parsed := by
  unfold parseAlternative
  split
  · rename_i hterms
    simp [hterms]
  · rename_i term rest hterms
    rw [hterms, bind_eq_ok_iff]
    refine exists_congr fun parsed => and_congr ?_ ⟨fun h => (Except.ok.inj h).symm, fun h => by rw [h]; rfl⟩
    simp only [mapM_eq_ok_iff, parseTerm_eq_ok_iff]
    exact (and_iff_right (List.cons_ne_nil _ _)).symm

/-- The terms of each alternative of a text, as they are read. An alternative has at least one. -/
def IsReading (text : List Char) (readings : List (List Term)) : Prop :=
  List.Forall₂ (fun texts parsed => texts ≠ [] ∧ texts.mapM readTerm = .ok parsed)
    ((alternativeTexts text).map terms) readings

/-- Blanks around a constraint have no part in its reading. -/
theorem isReading_trim {text : List Char} {readings : List (List Term)} :
    IsReading (Text.trim text) readings ↔ IsReading text readings := by
  rw [IsReading, map_terms_trim, IsReading]

/-- A bar left over where alternatives are parted would stand in a term, and no term with a bar is read. -/
theorem IsReading.forall_mem {text : List Char} {readings : List (List Term)}
    (h : IsReading text readings) : ∀ part ∈ alternativeTexts text, part ≠ [] ∧ '|' ∉ part := by
  intro part hpart
  obtain ⟨parsed, _, hne, hread⟩ := (exists_mem_of_forall₂ h).1 _ (List.mem_map_of_mem hpart)
  constructor
  · rintro rfl
    exact hne terms_nil
  · intro hbar
    obtain ⟨term, hterm, hbar⟩ := exists_term_of_mem hbar (by decide) not_isBlank_bar
    obtain ⟨t, _, ht⟩ := (exists_mem_of_mapM hread).1 term hterm
    exact bar_notMem_of_readTerm ht (fun c hc => (of_mem_terms hterm hc).2.2) hbar

/-- Bars put the readings of two texts side by side, and nothing else can be read around them. -/
theorem isReading_append_bars {before after : List Char} {readings : List (List Term)} :
    IsReading (before ++ '|' :: '|' :: after) readings ↔
      ∃ front back, IsReading before front ∧ IsReading after back ∧ readings = front ++ back := by
  rcases alternativeTexts_append_bars before after with hparts | ⟨⟨part, hpart, hbar⟩, part', hpart', hbad⟩
  · rw [IsReading, hparts, List.map_append, forall₂_append_left_iff]
    rfl
  · constructor
    · intro h
      obtain ⟨hne, hnotbar⟩ := h.forall_mem part' (List.mem_of_mem_tail hpart')
      exact absurd hbad (by simp [hne, hnotbar])
    · rintro ⟨front, back, hfront, _⟩
      exact absurd hbar (hfront.forall_mem part hpart).2

/-- A text without double bars is read as one alternative. -/
theorem isReading_iff_of_single {text : List Char} {readings : List (List Term)}
    (h : ¬ ['|', '|'] <:+: text) : IsReading text readings ↔
      ∃ parsed, (terms text ≠ [] ∧ (terms text).mapM readTerm = .ok parsed) ∧ readings = [parsed] := by
  rw [IsReading, alternativeTexts_eq_singleton h, List.map_singleton, List.forall₂_cons_left_iff]
  simp

/-- An operator and the version after it are read as one term, whatever blanks there are between and around
them. -/
theorem isReading_operator_append {op text : List Char} {readings : List (List Term)}
    (hop : ∀ c ∈ op, isOperatorChar c = true)
    (plain : ∀ c ∈ Text.trim text, c ≠ ',' ∧ c ≠ '|' ∧ Text.isBlank c = false)
    (hversion : (Text.trim text).all isOperatorChar = false) : IsReading (op ++ text) readings ↔
      ∃ t, readTerm (op ++ Text.trim text) = .ok t ∧ readings = [[t]] := by
  have hbar : '|' ∉ op ++ text := by
    obtain ⟨before, after, htext, hbefore, hafter⟩ := Text.exists_trim text
    rw [htext]
    simp only [List.mem_append, not_or]
    exact ⟨fun hc => absurd (hop _ hc) (by decide), fun hc => absurd (hbefore _ hc) (by decide),
      fun hc => (plain _ hc).2.1 rfl, fun hc => absurd (hafter _ hc) (by decide)⟩
  rw [isReading_iff_of_single fun hbars => hbar (hbars.mem (by simp)),
    terms_operator_append hop (fun c hc => ⟨(plain c hc).1, (plain c hc).2.2⟩) hversion]
  constructor
  · rintro ⟨parsed, ⟨_, hread⟩, rfl⟩
    obtain ⟨t, _, ht, hnil, rfl⟩ := List.forall₂_cons_left_iff.mp (mapM_eq_ok_iff.mp hread)
    obtain rfl := List.forall₂_nil_left_iff.mp hnil
    exact ⟨t, ht, rfl⟩
  · rintro ⟨t, ht, rfl⟩
    exact ⟨[t], ⟨List.cons_ne_nil _ _, mapM_eq_ok_iff.mpr (.cons ht .nil)⟩, rfl⟩

/-- A text can be parsed if and only if each term of each alternative can be read; the constraint is made of
the terms and of nothing else. -/
theorem parse_eq_ok_iff : parse text = .ok constraint ↔
    ∃ readings, IsReading text.toList readings ∧ constraint = ⟨readings.map alternativeOf⟩ := by
  have hparts (s : List Char) (alternatives : List Alternative) :
      (alternativeTexts s).mapM parseAlternative = .ok alternatives ↔
        ∃ readings, IsReading s readings ∧ alternatives = readings.map alternativeOf := by
    simp only [mapM_eq_ok_iff, parseAlternative_eq_ok_iff, forall₂_exists_iff, IsReading,
      List.forall₂_map_left_iff]
  simp only [← @isReading_trim text.toList]
  unfold parse
  split
  · rename_i hblank
    simp [hblank, IsReading, alternativeTexts, terms_nil, List.forall₂_cons_left_iff]
  · rename_i c rest htrim
    rw [htrim, bind_eq_ok_iff]
    constructor
    · rintro ⟨alternatives, hread, made⟩
      obtain ⟨readings, hreadings, rfl⟩ := (hparts _ _).mp hread
      exact ⟨readings, hreadings, (Except.ok.inj made).symm⟩
    · rintro ⟨readings, hreadings, rfl⟩
      exact ⟨_, (hparts _ _).mpr ⟨readings, hreadings, rfl⟩, rfl⟩

/-- A constraint admits a version if the terms of one of its alternatives hold. -/
theorem admits_iff (readings : List (List Term)) (v : Version) :
    admits ⟨readings.map alternativeOf⟩ v = true ↔
      ∃ parsed ∈ readings, Term.allHold parsed v = true := by
  simp [admits, admits_alternativeOf]

/-- A constraint of one alternative admits the versions of which its terms hold. -/
theorem admits_singleton (parsed : List Term) (v : Version) :
    admits ⟨[alternativeOf parsed]⟩ v = Term.allHold parsed v := by
  simp [admits, admits_alternativeOf]

/-- Whether terms hold is told by their texts: each of them is read as a term that holds, and one of them
opts in to the version if it is a pre-release. -/
theorem allHold_iff_of_mapM {texts : List (List Char)} (h : texts.mapM readTerm = .ok parsed) :
    Term.allHold parsed v = true ↔
      (∀ term ∈ texts, ∃ t, readTerm term = .ok t ∧ t.holds v = true) ∧
        (v.isRelease = true ∨ ∃ term ∈ texts, ∃ t, readTerm term = .ok t ∧ t.optsIn v = true) := by
  obtain ⟨htexts, hparsed⟩ := exists_mem_of_mapM h
  rw [Term.allHold_eq_true_iff]
  refine and_congr ⟨fun hall term hterm => ?_, fun hall t ht => ?_⟩
    (or_congr_right ⟨?_, ?_⟩)
  · obtain ⟨t, ht, hread⟩ := htexts term hterm
    exact ⟨t, hread, hall t ht⟩
  · obtain ⟨term, hterm, hread⟩ := hparsed t ht
    obtain ⟨t', hread', hholds⟩ := hall term hterm
    obtain rfl := Except.ok.inj (hread.symm.trans hread')
    exact hholds
  · rintro ⟨t, ht, hin⟩
    obtain ⟨term, hterm, hread⟩ := hparsed t ht
    exact ⟨term, hterm, t, hread, hin⟩
  · rintro ⟨term, hterm, t, hread, hin⟩
    obtain ⟨t', ht', hread'⟩ := htexts term hterm
    obtain rfl := Except.ok.inj (hread.symm.trans hread')
    exact ⟨t, ht', hin⟩

/-- A version is admitted if and only if it passes all terms of an alternative, each by itself, and is a
release or opted in to by one of them. -/
theorem admits_iff_of_parse (hparse : parse text = .ok constraint) (v : Version) :
    constraint.admits v = true ↔ ∃ part ∈ alternativeTexts text.toList,
      (∀ term ∈ terms part, ∃ t, readTerm term = .ok t ∧ t.holds v = true) ∧
        (v.isRelease = true ∨ ∃ term ∈ terms part, ∃ t, readTerm term = .ok t ∧ t.optsIn v = true) := by
  obtain ⟨readings, hreading, rfl⟩ := parse_eq_ok_iff.mp hparse
  obtain ⟨htexts, hreadings⟩ := exists_mem_of_forall₂ hreading
  rw [admits_iff]
  constructor
  · rintro ⟨parsed, hparsed, hall⟩
    obtain ⟨_, htext, _, hread⟩ := hreadings parsed hparsed
    obtain ⟨part, hpart, rfl⟩ := List.mem_map.mp htext
    exact ⟨part, hpart, (allHold_iff_of_mapM hread).mp hall⟩
  · rintro ⟨part, hpart, hall⟩
    obtain ⟨parsed, hparsed, _, hread⟩ := htexts _ (List.mem_map_of_mem hpart)
    exact ⟨parsed, hparsed, (allHold_iff_of_mapM hread).mpr hall⟩

/-- Every term of a constraint that is parsed is read. -/
theorem exists_readTerm_of_parse (hparse : parse text = .ok constraint) :
    ∀ part ∈ alternativeTexts text.toList, ∀ term ∈ terms part, ∃ t, readTerm term = .ok t := by
  intro part hpart term hterm
  obtain ⟨readings, hreading, _⟩ := parse_eq_ok_iff.mp hparse
  obtain ⟨parsed, _, _, hread⟩ := (exists_mem_of_forall₂ hreading).1 _ (List.mem_map_of_mem hpart)
  obtain ⟨t, _, ht⟩ := (exists_mem_of_mapM hread).1 term hterm
  exact ⟨t, ht⟩

/-! ## Judging an installed version -/

/-- Compatible are a constraint that is parsed and an installed version that it admits. -/
theorem isCompatible_eq_true_iff {installed : String} : isCompatible text installed = true ↔
    ∃ constraint v, parse text = .ok constraint ∧ Version.parseInstalled installed = .ok v ∧
      constraint.admits v = true := by
  unfold isCompatible
  cases hparse : parse text with
  | error e => simp
  | ok constraint =>
    unfold check
    cases hinstalled : Version.parseInstalled installed <;> simp

/-- An operator before one version is one term: the version is trimmed and read with the operator. -/
theorem isCompatible_operator_append_iff {op w installed : String}
    (hop : ∀ c ∈ op.toList, isOperatorChar c = true)
    (plain : ∀ c ∈ Text.trim w.toList, c ≠ ',' ∧ c ≠ '|' ∧ Text.isBlank c = false)
    (hversion : (Text.trim w.toList).all isOperatorChar = false) :
    isCompatible (op ++ w) installed = true ↔
      ∃ t, readTerm (op.toList ++ Text.trim w.toList) = .ok t ∧
        ∃ v, Version.parseInstalled installed = .ok v ∧ Term.allHold [t] v = true := by
  rw [isCompatible_eq_true_iff]
  simp only [parse_eq_ok_iff, String.toList_append, isReading_operator_append hop plain hversion]
  constructor
  · rintro ⟨_, v, ⟨_, ⟨t, hread, rfl⟩, rfl⟩, hinstalled, hadmits⟩
    exact ⟨t, hread, v, hinstalled, (admits_singleton [t] v).symm.trans hadmits⟩
  · rintro ⟨t, hread, v, hinstalled, hholds⟩
    exact ⟨_, v, ⟨_, ⟨t, hread, rfl⟩, rfl⟩, hinstalled, (admits_singleton [t] v).trans hholds⟩

end PackageLock.Constraint
