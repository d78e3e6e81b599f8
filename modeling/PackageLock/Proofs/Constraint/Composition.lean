import PackageLock.Proofs.Constraint.Admission

/-!
# Constraints made of constraints

Bars put the alternatives of two constraints side by side, a comma or a blank the terms of two alternatives.
Main statement: `parse_compose`. Side by side, alternatives admit what one of them admits. Terms side by side
admit what both sides admit, and nothing else among releases; a pre-release needs the opt-in of one side only,
so that the combination may admit what only one side does by itself.
-/

set_option autoImplicit false

namespace PackageLock.Constraint

variable {v : Version} {t : Term} {front back parsed : List Term} {before after text : List Char} {c : Char}

/-! ## Terms side by side -/

/-- Terms that hold on both sides hold side by side. -/
theorem Term.allHold_append (hfront : Term.allHold front v = true) (hback : Term.allHold back v = true) :
    Term.allHold (front ++ back) v = true := by
  rw [Term.allHold_eq_true_iff] at *
  refine ⟨List.forall_mem_append.mpr ⟨hfront.1, hback.1⟩, hfront.2.imp_right ?_⟩
  rintro ⟨t, ht, hin⟩
  exact ⟨t, List.mem_append_left _ ht, hin⟩

/-- Terms that hold of a release side by side hold on both sides. -/
theorem Term.allHold_of_append_of_isRelease (hrelease : v.isRelease = true)
    (h : Term.allHold (front ++ back) v = true) :
    Term.allHold front v = true ∧ Term.allHold back v = true := by
  simp only [Term.allHold_eq_true_iff, List.forall_mem_append] at *
  exact ⟨⟨h.1.1, Or.inl hrelease⟩, ⟨h.1.2, Or.inl hrelease⟩⟩

/-- Terms that hold side by side hold on one of the sides: for a pre-release, on that of a term that opts in
to it. -/
theorem Term.allHold_of_append (h : Term.allHold (front ++ back) v = true) :
    Term.allHold front v = true ∨ Term.allHold back v = true := by
  simp only [Term.allHold_eq_true_iff, List.forall_mem_append] at *
  obtain ⟨⟨hfront, hback⟩, hrelease | ⟨t, ht, hin⟩⟩ := h
  · exact Or.inl ⟨hfront, Or.inl hrelease⟩
  · rcases List.mem_append.mp ht with ht | ht
    · exact Or.inl ⟨hfront, Or.inr ⟨t, ht, hin⟩⟩
    · exact Or.inr ⟨hback, Or.inr ⟨t, ht, hin⟩⟩

/-! ## Texts side by side -/

/-- In a text that is read as one alternative there is no bar at all. -/
theorem bar_notMem_of_isReading {readings : List (List Term)} (single : ¬ ['|', '|'] <:+: text)
    (h : IsReading text readings) : '|' ∉ text :=
  (h.forall_mem text (by simp [alternativeTexts_eq_singleton single])).2

/-- Two texts without bars that are joined at a separator of terms are read as one alternative, the terms of
both. -/
theorem isReading_append (hc : c ≠ '|') (hterms : terms (before ++ c :: after) = terms before ++ terms after)
    (hbefore : '|' ∉ before) (hafter : '|' ∉ after) (hfront : (terms before).mapM readTerm = .ok front)
    (hback : terms after ≠ [] ∧ (terms after).mapM readTerm = .ok back) :
    IsReading (before ++ c :: after) [front ++ back] := by
  have single : ¬ ['|', '|'] <:+: before ++ c :: after := by
    intro hbars
    have hbar : '|' ∈ before ++ c :: after := hbars.mem (by simp)
    simp [hbefore, hafter, hc.symm] at hbar
  refine (isReading_iff_of_single single).mpr ⟨front ++ back, ⟨?_, ?_⟩, rfl⟩
  · rw [hterms]
    exact List.append_ne_nil_of_right_ne_nil _ hback.1
  · rw [hterms, Text.mapM_eq_ok_iff]
    exact List.rel_append (Text.mapM_eq_ok_iff.mp hfront) (Text.mapM_eq_ok_iff.mp hback.2)

/-- No operator at the end of a text that can be read waits for a version in the next one. -/
theorem terms_append_blank_of_mapM (hc : Text.isBlank c = true)
    (h : (terms before).mapM readTerm = .ok front) (after : List Char) :
    terms (before ++ c :: after) = terms before ++ terms after := by
  refine terms_append_blank hc (fun term hterm => ?_) after
  obtain ⟨t, _, hread⟩ := (Text.exists_mem_of_mapM h).1 term hterm
  exact not_all_isOperatorChar_of_readTerm hread fun c hc => (of_mem_terms hterm hc).2.2

/-! ## Opting in to pre-releases -/

/-- The term is a comparator with a pre-release of the version's own three numbers, which stands at its end
after an operator and a mark. -/
def NamesPreRelease (v : Version) (term : List Char) : Prop :=
  ∃ (lead : List Char) (named : Version) (relation : Relation), term = lead ++ named.render.toList ∧
    (∀ c ∈ lead, isOperatorChar c = true ∨ c = 'v' ∨ c = 'V') ∧
    readTerm term =
      .ok (.compare ⟨relation, .full named.major named.minor named.patch named.pre⟩) ∧
    named.major = v.major ∧ named.minor = v.minor ∧ named.patch = v.patch ∧ named.pre ≠ []

/-- A term that opts in to a pre-release names it in its text. -/
theorem namesPreRelease_of_optsIn {term : List Char} (h : readTerm term = .ok t)
    (unblanked : ∀ c ∈ term, Text.isBlank c = false) (hin : t.optsIn v = true) :
    NamesPreRelease v term := by
  obtain ⟨⟨relation, bound⟩, rfl, hnames⟩ := Term.optsIn_eq_true_iff.mp hin
  obtain ⟨lead, body, hsplit, hlead, written⟩ := exists_written_of_readTerm h unblanked
  cases written with
  | compare written =>
    cases written with
    | @full named proper =>
      simp only [PartialVersion.namesPreOf, Bool.and_eq_true, beq_iff_eq, bne_iff_ne] at hnames
      obtain ⟨⟨⟨hmajor, hminor⟩, hpatch⟩, hpre⟩ := hnames
      exact ⟨lead, named, relation, hsplit, hlead, h, hmajor, hminor, hpatch, hpre⟩
    | _ => cases hnames

/-- A pre-release that is admitted is named by a term of an alternative that admits it. -/
theorem exists_namesPreRelease_of_admits {text : String} {constraint : Constraint}
    (hparse : parse text = .ok constraint) (hadmits : constraint.admits v = true)
    (hpre : v.isRelease = false) :
    ∃ part ∈ alternativeTexts text.toList, ∃ alternative, parseAlternative part = .ok alternative ∧
      alternative.admits v = true ∧ ∃ term ∈ terms part, NamesPreRelease v term := by
  obtain ⟨readings, hreading, rfl⟩ := parse_eq_ok_iff.mp hparse
  obtain ⟨parsed, hparsed, hall⟩ := (admits_iff readings v).mp hadmits
  obtain ⟨_, htexts, hread⟩ := (Text.exists_mem_of_forall₂ hreading).2 parsed hparsed
  obtain ⟨part, hpart, rfl⟩ := List.mem_map.mp htexts
  refine ⟨part, hpart, alternativeOf parsed, parseAlternative_eq_ok_iff.mpr ⟨parsed, hread, rfl⟩, ?_⟩
  refine ⟨(admits_alternativeOf parsed v).trans hall, ?_⟩
  obtain ⟨_, hrelease | ⟨t, ht, hin⟩⟩ := Term.allHold_eq_true_iff.mp hall
  · rw [hpre] at hrelease
    cases hrelease
  · obtain ⟨term, hterm, hread⟩ := (Text.exists_mem_of_mapM hread.2).2 t ht
    exact ⟨term, hterm, namesPreRelease_of_optsIn hread (fun c hc => (of_mem_terms hterm hc).2.2) hin⟩

/-! ## Constraints side by side -/

/-- The characters of two texts with double bars between them. -/
theorem toList_append_bars (a b : String) :
    (a ++ "||" ++ b).toList = a.toList ++ '|' :: '|' :: b.toList := by
  simp

/-- Constraints joined by double bars are parsed if both of them are, and the alternatives of both stand
side by side. -/
theorem parse_append_bars {a b : String} {constraint : Constraint} :
    parse (a ++ "||" ++ b) = .ok constraint ↔ ∃ first second, parse a = .ok first ∧
      parse b = .ok second ∧ constraint = ⟨first.alternatives ++ second.alternatives⟩ := by
  simp only [parse_eq_ok_iff, toList_append_bars, isReading_append_bars]
  constructor
  · rintro ⟨_, ⟨front, back, hfront, hback, rfl⟩, rfl⟩
    exact ⟨_, _, ⟨front, hfront, rfl⟩, ⟨back, hback, rfl⟩, by rw [List.map_append]⟩
  · rintro ⟨_, _, ⟨front, hfront, rfl⟩, ⟨back, hback, rfl⟩, rfl⟩
    exact ⟨_, ⟨front, back, hfront, hback, rfl⟩, by rw [List.map_append]⟩

/-- Alternatives side by side admit what one of them admits. -/
theorem admits_append (first second : Constraint) (v : Version) :
    admits ⟨first.alternatives ++ second.alternatives⟩ v = (first.admits v || second.admits v) :=
  List.any_append

/-- Two constraints without bars, joined by a comma or a blank, are one constraint with the terms of both. -/
theorem exists_parse_append {a b : String} {first second : Constraint}
    (singleA : ¬ ['|', '|'] <:+: a.toList) (singleB : ¬ ['|', '|'] <:+: b.toList)
    (hfirst : parse a = .ok first) (hsecond : parse b = .ok second) :
    ∃ combined, parse (a ++ "," ++ b) = .ok combined ∧ parse (a ++ " " ++ b) = .ok combined ∧
      ∃ front back, first = ⟨[alternativeOf front]⟩ ∧ second = ⟨[alternativeOf back]⟩ ∧
        combined = ⟨[alternativeOf (front ++ back)]⟩ := by
  obtain ⟨readings, hreading, rfl⟩ := parse_eq_ok_iff.mp hfirst
  obtain ⟨readings', hreading', rfl⟩ := parse_eq_ok_iff.mp hsecond
  have hbefore := bar_notMem_of_isReading singleA hreading
  have hafter := bar_notMem_of_isReading singleB hreading'
  obtain ⟨front, ⟨_, hfront⟩, rfl⟩ := (isReading_iff_of_single singleA).mp hreading
  obtain ⟨back, hback, rfl⟩ := (isReading_iff_of_single singleB).mp hreading'
  have hcomma : IsReading (a ++ "," ++ b).toList [front ++ back] := by
    have h := isReading_append (by decide) (terms_append_comma a.toList b.toList) hbefore hafter hfront hback
    simpa using h
  have hblank : IsReading (a ++ " " ++ b).toList [front ++ back] := by
    have hterms := terms_append_blank_of_mapM (c := ' ') (by decide) hfront b.toList
    have h := isReading_append (by decide) hterms hbefore hafter hfront hback
    simpa using h
  exact ⟨_, parse_eq_ok_iff.mpr ⟨_, hcomma, rfl⟩, parse_eq_ok_iff.mpr ⟨_, hblank, rfl⟩, front, back,
    rfl, rfl, rfl⟩

/-- Constraints compose: bars join them to their disjunction, a comma or a blank to their conjunction up to the
opt-in of pre-releases, and a pre-release is admitted only by an alternative that names one of its numbers. -/
theorem parse_compose :
    (∀ a b : String,
      ((∃ constraint, parse (a ++ "||" ++ b) = .ok constraint) ↔
        (∃ first, parse a = .ok first) ∧ ∃ second, parse b = .ok second) ∧
      ∀ constraint first second, parse (a ++ "||" ++ b) = .ok constraint → parse a = .ok first →
        parse b = .ok second →
          ∀ v, constraint.admits v = true ↔ first.admits v = true ∨ second.admits v = true) ∧
    (∀ (a b : String) (first second : Constraint), ¬ ['|', '|'] <:+: a.toList →
      ¬ ['|', '|'] <:+: b.toList → parse a = .ok first → parse b = .ok second →
        ∃ byComma byBlank, parse (a ++ "," ++ b) = .ok byComma ∧
          parse (a ++ " " ++ b) = .ok byBlank ∧ ∀ v,
            byComma.admits v = byBlank.admits v ∧
            (first.admits v = true → second.admits v = true → byComma.admits v = true) ∧
            (v.isRelease = true → byComma.admits v = true →
              first.admits v = true ∧ second.admits v = true) ∧
            (v.isRelease = false → byComma.admits v = true →
              first.admits v = true ∨ second.admits v = true)) ∧
    (∀ (text : String) (constraint : Constraint) (v : Version), parse text = .ok constraint →
      constraint.admits v = true → v.isRelease = false →
        ∃ part ∈ alternativeTexts text.toList, ∃ alternative,
          parseAlternative part = .ok alternative ∧ alternative.admits v = true ∧
            ∃ term ∈ terms part, NamesPreRelease v term) := by
  refine ⟨fun a b => ⟨?_, ?_⟩, ?_, ?_⟩
  · constructor
    · rintro ⟨_, h⟩
      obtain ⟨first, second, hfirst, hsecond, _⟩ := parse_append_bars.mp h
      exact ⟨⟨first, hfirst⟩, ⟨second, hsecond⟩⟩
    · rintro ⟨⟨first, hfirst⟩, ⟨second, hsecond⟩⟩
      exact ⟨_, parse_append_bars.mpr ⟨first, second, hfirst, hsecond, rfl⟩⟩
  · intro constraint first second h hfirst hsecond v
    have hboth := parse_append_bars.mpr ⟨first, second, hfirst, hsecond, rfl⟩
    obtain rfl := Except.ok.inj (h.symm.trans hboth)
    rw [admits_append, Bool.or_eq_true]
  · intro a b first second singleA singleB hfirst hsecond
    obtain ⟨combined, hcomma, hblank, front, back, rfl, rfl, rfl⟩ :=
      exists_parse_append singleA singleB hfirst hsecond
    refine ⟨_, _, hcomma, hblank, fun v => ⟨rfl, ?_⟩⟩
    simp only [admits_singleton]
    exact ⟨Term.allHold_append, Term.allHold_of_append_of_isRelease,
      fun _ => Term.allHold_of_append⟩
  · intro text constraint v
    exact exists_namesPreRelease_of_admits

/-- A pre-release that only one side opts in to is admitted by both sides together. -/
theorem parse_compose_of_beta :
    ∃ (first second byComma : Constraint) (beta : Version), parse ">=1.0.0-beta" = .ok first ∧
      parse "!=1.5.0" = .ok second ∧ parse (">=1.0.0-beta" ++ "," ++ "!=1.5.0") = .ok byComma ∧
      beta.isRelease = false ∧ second.admits beta = false ∧ byComma.admits beta = true ∧
      first.admits beta = true ∧
      (∃ constraint, parse (">=1.0.0-beta" ++ "||" ++ "!=1.5.0") = .ok constraint ∧
        constraint.admits beta = true) ∧
      ∃ part ∈ alternativeTexts (">=1.0.0-beta" ++ "," ++ "!=1.5.0").toList,
        ∃ term ∈ terms part, NamesPreRelease beta term := by
  obtain ⟨hbars, hjoined, hnamed⟩ := parse_compose
  have hfirst : parse ">=1.0.0-beta" =
      .ok ⟨[⟨[⟨.greaterEq, .full 1 0 0 [.word "beta"]⟩], []⟩]⟩ := by decide
  have hsecond : parse "!=1.5.0" = .ok ⟨[⟨[], [.release 1 5 0]⟩]⟩ := by decide
  have hcombined : parse (">=1.0.0-beta" ++ "," ++ "!=1.5.0") =
      .ok ⟨[⟨[⟨.greaterEq, .full 1 0 0 [.word "beta"]⟩], [.release 1 5 0]⟩]⟩ := by decide
  have single (s : List Char) (h : '|' ∉ s) : ¬ ['|', '|'] <:+: s :=
    fun hbars => h (hbars.mem (by simp))
  obtain ⟨byComma, _, hcomma, _, hjoin⟩ :=
    hjoined ">=1.0.0-beta" "!=1.5.0" _ _ (single _ (by decide)) (single _ (by decide)) hfirst hsecond
  obtain rfl := Except.ok.inj (hcombined.symm.trans hcomma)
  obtain ⟨_, _, _, heither⟩ := hjoin ⟨1, 0, 0, [.word "beta", .numeric 2], []⟩
  have hfirstAdmits := (heither (by decide) (by decide)).resolve_right (by decide)
  obtain ⟨constraint, hconstraint⟩ := (hbars _ _).1.mpr ⟨⟨_, hfirst⟩, ⟨_, hsecond⟩⟩
  obtain ⟨part, hpart, _, _, _, hnames⟩ :=
    hnamed _ _ ⟨1, 0, 0, [.word "beta", .numeric 2], []⟩ hcombined (by decide) (by decide)
  exact ⟨_, _, _, ⟨1, 0, 0, [.word "beta", .numeric 2], []⟩, hfirst, hsecond, hcombined, by decide,
    by decide, by decide, hfirstAdmits,
    ⟨constraint, hconstraint,
      ((hbars _ _).2 _ _ _ hconstraint hfirst hsecond _).mpr (Or.inl hfirstAdmits)⟩,
    part, hpart, hnames⟩

end PackageLock.Constraint
