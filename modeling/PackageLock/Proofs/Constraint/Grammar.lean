import PackageLock.Proofs.Constraint.Admission

/-!
# The grammar of terms

What a term asks for by its operator and its version (`Asks`), against what it is read as. The two are the same
for every term of every constraint but two kinds (`Slips`): a second operator after the mark is joined to the
first one, and a full version without an operator becomes a range if a dotted field of it, which can only be
an identifier of its pre-release or build, is a wildcard. Main statement: `asks_iff_of_parse`.
-/

set_option autoImplicit false

namespace PackageLock.Constraint

variable {op body : List Char} {t : Term} {bound : PartialVersion}

/-- What a term asks for that begins with the operator `op` and goes on, after the mark, with `body`. -/
inductive Asks : List Char → List Char → Term → Prop where
  /-- The lone wildcard asks for nothing. -/
  | any {w : Char} (hw : Comparator.isWildcard w = true) : Asks [] [w] .any
  /-- A bare version is meant exactly. -/
  | bare {body : List Char} {bound : PartialVersion} (written : bound.IsWritten body false) :
      Asks [] body (.compare ⟨.exact, bound⟩)
  /-- A bare version with a wildcard among its numbers is matched by what agrees with the others. -/
  | wildcard {body : List Char} {bound : PartialVersion} (written : bound.IsWritten body true) :
      Asks [] body (.compare ⟨.wildcard, bound⟩)
  | exclude {v : Version} (proper : v.Proper) : Asks ['!', '='] v.render.toList (.exclude v)
  /-- Before a bound stands the operator that is meant. -/
  | bounded {op body : List Char} {relation : Relation} {bound : PartialVersion} {hasWildcard : Bool}
      (hop : (op, relation) ∈ relations) (written : bound.IsWritten body hasWildcard) :
      Asks op body (.compare ⟨relation, bound⟩)

/-- The terms that are read as something else than they ask for: after the mark stands one more operator, or a
dotted field of a full version without an operator is a wildcard and nothing else. -/
def Slips (op body : List Char) : Prop :=
  (∃ c rest, body = c :: rest ∧ isOperatorChar c = true) ∨
    op = [] ∧ (∃ v : Version, v.Proper ∧ body = v.render.toList) ∧
      ∃ field ∈ Text.fields (· == '.') body, isWildcardField field = true

/-- What is asked is written in the text after the operator. -/
theorem Asks.isWritten (h : Asks op body t) : t.IsWritten body := by
  cases h with
  | any hw => exact .any hw
  | bare written => exact .compare written
  | wildcard written => exact .compare written
  | exclude proper => exact .exclude proper
  | bounded hop written => exact .compare written

/-! ## Wildcards among the fields of a version -/

/-- In the text of a bound with a wildcard one of the fields is a wildcard. -/
theorem exists_wildcardField_of_isWritten (h : bound.IsWritten body true) :
    ∃ field ∈ Text.fields (· == '.') body, isWildcardField field = true := by
  have hlast {w : Char} (hw : Comparator.isWildcard w = true) (before : List Char) :
      [w] ∈ Text.fields (· == '.') (before ++ '.' :: [w]) := by
    have hfields : Text.fields (· == '.') [w] = [[w]] := fields_of_isWildcardField hw
    rw [Text.fields_append_separator (by decide), hfields]
    simp
  cases h with
  | @majorWildcard a w ha hw => exact ⟨[w], hlast hw _, hw⟩
  | @majorWildcards a w w' ha hw hw' =>
    refine ⟨[w'], ?_, hw'⟩
    simpa using hlast hw' (Nat.toDigits 10 a ++ ['.', w])
  | @minorWildcard a b w ha hb hw =>
    refine ⟨[w], ?_, hw⟩
    simpa using hlast hw (Nat.toDigits 10 a ++ '.' :: Nat.toDigits 10 b)

/-- A field of digits is no wildcard. -/
theorem not_isWildcardField_of_isDigit (h : ∀ c ∈ body, c.isDigit = true) :
    isWildcardField body = false := by
  rw [Bool.eq_false_iff]
  intro hwild
  obtain ⟨w, hw, rfl⟩ := isWildcardField_eq_true_iff.mp hwild
  rw [Comparator.not_isWildcard_of_isDigit (h w (by simp))] at hw
  cases hw

/-- A written number is no wildcard. -/
theorem not_isWildcardField_toDigits (n : Nat) : isWildcardField (Nat.toDigits 10 n) = false :=
  not_isWildcardField_of_isDigit fun _ => Version.isDigit_of_mem_toDigits

/-- A written number is a single field. -/
theorem fields_toDigits (n : Nat) : Text.fields (· == '.') (Nat.toDigits 10 n) = [Nat.toDigits 10 n] := by
  refine Text.fields_eq_singleton fun c hc => ?_
  rw [beq_eq_false_iff_ne]
  rintro rfl
  cases Version.isDigit_of_mem_toDigits hc

/-- Without a wildcard among the numbers, a wildcard field can only stand in a pre-release or a build. -/
theorem isFull_of_wildcardField (h : bound.IsWritten body false)
    (wild : ∃ field ∈ Text.fields (· == '.') body, isWildcardField field = true) :
    ∃ v : Version, v.Proper ∧ body = v.render.toList := by
  obtain ⟨field, hfield, hwild⟩ := wild
  cases h with
  | major ha =>
    rw [fields_toDigits, List.mem_singleton] at hfield
    rw [hfield, not_isWildcardField_toDigits] at hwild
    cases hwild
  | minor ha hb =>
    rw [Text.fields_append_separator (by decide), fields_toDigits, fields_toDigits] at hfield
    rcases List.mem_append.mp hfield with hfield | hfield <;>
    · rw [List.mem_singleton.mp hfield, not_isWildcardField_toDigits] at hwild
      cases hwild
  | @full v proper => exact ⟨v, proper, rfl⟩

/-! ## What is asked for and what is read -/

/-- What is read without a slip is asked for. -/
theorem asks_of_reads (h : Reads op body t) (hslips : ¬ Slips op body) : Asks op body t := by
  have hbegins : ∃ c rest, body = c :: rest ∧ isOperatorChar c = false := by
    cases body with
    | nil => exact absurd h not_reads_nil
    | cons c rest =>
      exact ⟨c, rest, rfl, Bool.eq_false_iff.mpr fun hc => hslips (Or.inl ⟨c, rest, rfl, hc⟩)⟩
  obtain ⟨c, rest, hbody, hc⟩ := hbegins
  cases h with
  | any hw => exact .any hw
  | @asItStands body comparator lone wild hread =>
    obtain ⟨hasWildcard, written, hrelation⟩ := Comparator.read_eq_ok_iff.mp hread
    rw [hbody, readRelation_of_bare hc, ← hbody] at written
    rw [hbody, readRelation_of_bare hc] at hrelation
    obtain ⟨relation, bound⟩ := comparator
    obtain rfl : relation = _ := hrelation
    cases hasWildcard with
    | false =>
      exact absurd (Or.inr ⟨rfl, isFull_of_wildcardField written wild, wild⟩) hslips
    | true => exact .wildcard written
  | @bare body comparator plain hread =>
    obtain ⟨hasWildcard, written, hrelation⟩ := Comparator.read_eq_ok_iff.mp hread
    obtain ⟨relation, bound⟩ := comparator
    obtain rfl : relation = .exact := hrelation
    cases hasWildcard with
    | false => exact .bare written
    | true =>
      obtain ⟨field, hfield, hwild⟩ := exists_wildcardField_of_isWritten written
      rw [plain field hfield] at hwild
      cases hwild
  | exclude hread =>
    obtain ⟨proper, hrender⟩ := Version.read_eq_ok_iff.mp hread
    rw [hrender]
    exact .exclude proper
  | @equal body comparator hread =>
    obtain ⟨hasWildcard, written, hrelation⟩ := Comparator.read_eq_ok_iff.mp hread
    obtain ⟨relation, bound⟩ := comparator
    obtain rfl : relation = .exact := hrelation
    exact .bounded (by decide) written
  | @bound op body relation comparator hop hdouble hread =>
    obtain ⟨hasWildcard, written, hrelation⟩ := Comparator.read_eq_ok_iff.mp hread
    rw [hbody, readRelation_of_mem hop hdouble hc, ← hbody] at written
    rw [hbody, readRelation_of_mem hop hdouble hc] at hrelation
    obtain ⟨relation', bound⟩ := comparator
    obtain rfl : relation' = relation := hrelation
    exact .bounded hop written

/-- Where what is read is what is asked for, there is no slip. -/
theorem not_slips_of_asks (hreads : Reads op body t) (h : Asks op body t) : ¬ Slips op body := by
  rintro (⟨c, rest, rfl, hc⟩ | ⟨rfl, ⟨v, proper, hbody⟩, wild⟩)
  · obtain ⟨c', rest', hcons, hc'⟩ := h.isWritten.exists_cons
    rw [(List.cons.inj hcons).1, hc'] at hc
    cases hc
  · have lone : isWildcardField body = false := by
      rw [hbody]
      exact not_isWildcardField_of_isWritten (.full proper)
    obtain ⟨c, hread, rfl⟩ := (reads_asItStands_iff lone wild).mp hreads
    rw [hbody, read_of_isWritten (.full proper)] at hread
    obtain rfl := Except.ok.inj hread
    cases h with
    | bounded hop written => simp [relations] at hop

/-- What is asked for is what is judged: a version is admitted by judging the terms one by one, and a term is
read as what it asks for by its longest operator and the version after its mark, unless it slips. -/
theorem asks_iff_of_parse {text : String} {constraint : Constraint}
    (hparse : parse text = .ok constraint) :
    (∀ v, constraint.admits v = true ↔ ∃ part ∈ alternativeTexts text.toList,
      (∀ term ∈ terms part, ∃ t, readTerm term = .ok t ∧ t.holds v = true) ∧
        (v.isRelease = true ∨
          ∃ term ∈ terms part, ∃ t, readTerm term = .ok t ∧ t.optsIn v = true)) ∧
    ∀ part ∈ alternativeTexts text.toList, ∀ term ∈ terms part, ∃ op rest t,
      Leads op rest term ∧ readTerm term = .ok t ∧
        (Asks op (Version.dropV rest) t ↔ ¬ Slips op (Version.dropV rest)) ∧
        (¬ Slips op (Version.dropV rest) → ∃ c body, Version.dropV rest = c :: body ∧
          (c.isDigit = true ∨ Comparator.isWildcard c = true)) := by
  refine ⟨admits_iff_of_parse hparse, fun part hpart term hterm => ?_⟩
  obtain ⟨t, hread⟩ := exists_readTerm_of_parse hparse part hpart term hterm
  obtain ⟨op, hleads, _⟩ := exists_leads term
  have hreads := (readTerm_of_leads hleads fun c hc => (of_mem_terms hterm hc).2.2).mp hread
  exact ⟨op, _, t, hleads, hread, ⟨not_slips_of_asks hreads, asks_of_reads hreads⟩,
    fun hslips => (asks_of_reads hreads hslips).isWritten.begins⟩

/-- The operator stands apart from its version, which carries a mark. -/
theorem asks_iff_of_parse_of_lower :
    ∃ constraint, parse ">= v1.2, !=1.5.0 || 2.x" = .ok constraint ∧
      ['>', '=', 'v', '1', '.', '2'] ∈ terms ">= v1.2, !=1.5.0 ".toList ∧
      Asks ['>', '='] ['1', '.', '2'] (.compare ⟨.greaterEq, .minor 1 2⟩) := by
  have hparse : parse ">= v1.2, !=1.5.0 || 2.x" =
      .ok ⟨[⟨[⟨.greaterEq, .minor 1 2⟩], [.release 1 5 0]⟩, ⟨[⟨.wildcard, .major 2⟩], []⟩]⟩ := by
    decide
  have hterm : ['>', '=', 'v', '1', '.', '2'] ∈ terms ">= v1.2, !=1.5.0 ".toList := by decide
  obtain ⟨op, rest, t, hleads, hread, hasks, _⟩ :=
    (asks_iff_of_parse hparse).2 ">= v1.2, !=1.5.0 ".toList (by decide) _ hterm
  obtain ⟨rfl, rfl⟩ := hleads.unique (leads_of_pair (by decide) ['v', '1', '.', '2'])
  have hcompare : readTerm ['>', '=', 'v', '1', '.', '2'] =
      .ok (.compare ⟨.greaterEq, .minor 1 2⟩) := by decide
  obtain rfl := Except.ok.inj (hread.symm.trans hcompare)
  refine ⟨_, hparse, hterm, hasks.mpr ?_⟩
  rintro (⟨c, rest, hbody, hc⟩ | ⟨hop, _⟩)
  · obtain ⟨rfl, _⟩ := List.cons.inj hbody
    cases hc
  · cases hop

/-- An equality sign after the mark turns an open bound into a closed one. -/
theorem not_asks_of_second_operator :
    ∃ constraint t, parse ">v=1" = .ok constraint ∧ terms ">v=1".toList = [">v=1".toList] ∧
      Leads ['>'] ['v', '=', '1'] ">v=1".toList ∧ readTerm ">v=1".toList = .ok t ∧
      ¬ Asks ['>'] (Version.dropV ['v', '=', '1']) t ∧
      constraint.admits (.release 1 0 0) = true ∧
      (Term.compare ⟨.greater, .major 1⟩).holds (.release 1 0 0) = false := by
  have hparse : parse ">v=1" = .ok ⟨[⟨[⟨.greaterEq, .major 1⟩], []⟩]⟩ := by decide
  have hread : readTerm ">v=1".toList = .ok (.compare ⟨.greaterEq, .major 1⟩) := by decide
  have hleads : Leads ['>'] ['v', '=', '1'] ">v=1".toList :=
    leads_of_single (by decide) fun r hr => by cases hr
  refine ⟨_, _, hparse, by decide, hleads, hread, fun hasks => ?_, by decide, by decide⟩
  obtain ⟨c, rest, hbody, hc⟩ := hasks.isWritten.exists_cons
  obtain ⟨rfl, _⟩ := List.cons.inj hbody
  cases hc

end PackageLock.Constraint
