import PackageLock.Constraint
import PackageLock.Proofs.Version.Comparators

/-!
# Operators and versions of terms

A term is cut after the longest operator with which it begins (`Leads`), and what follows without its mark is
read as a version, as a part of one or as a wildcard. Main statements: the ways in which a term without blanks
is read (`readTerm_of_leads`), and that it ends in the version that it has been read as
(`exists_written_of_readTerm`).
-/

set_option autoImplicit false

namespace PackageLock.Constraint

variable {term op rest body : List Char} {t : Term} {c : Char}

/-! ## The operator -/

/-- The operators that stand before a bound, with their relations. -/
def relations : List (List Char × Relation) :=
  [(['=', '='], .exact), (['>', '='], .greaterEq), (['<', '='], .lessEq), (['='], .exact),
    (['>'], .greater), (['<'], .less), (['~'], .tilde), (['^'], .caret)]

/-- All operators. -/
def operators : List (List Char) :=
  ['!', '='] :: relations.map Prod.fst

/-- An operator that stands for a relation is one of the operators. -/
theorem mem_operators_of_mem {relation : Relation} (h : (op, relation) ∈ relations) : op ∈ operators :=
  List.mem_cons_of_mem _ (List.mem_map.mpr ⟨_, h, rfl⟩)

/-- The term begins with the operator `op`, the longest there is at its start, and goes on with `rest`. The
operator is empty if the term begins with none. -/
structure Leads (op rest term : List Char) : Prop where
  split : term = op ++ rest
  known : op = [] ∨ op ∈ operators
  longest : ∀ other ∈ operators, other <+: term → other.length ≤ op.length

/-- A term begins with one operator only. -/
theorem Leads.unique {op' rest' : List Char} (h : Leads op rest term) (h' : Leads op' rest' term) :
    op = op' ∧ rest = rest' := by
  have hle {op op' rest rest' : List Char} (h : Leads op rest term) (h' : Leads op' rest' term) :
      op.length ≤ op'.length := by
    rcases h.known with rfl | hknown
    · exact Nat.zero_le _
    · exact h'.longest op hknown ⟨rest, h.split.symm⟩
  exact List.append_inj (h.split.symm.trans h'.split) (Nat.le_antisymm (hle h h') (hle h' h))

/-- The operator that a text spells. -/
def Operator.ofText : List Char → Operator
  | [] => .none
  | ['='] => .equal
  | ['=', '='] => .equal
  | ['!', '='] => .notEqual
  | op => .bound op

/-- A term begins with an operator of two characters if these are its first two. -/
theorem leads_of_pair {d : Char} (h : [c, d] ∈ operators) (rest : List Char) :
    Leads [c, d] rest (c :: d :: rest) := by
  have hlength : ∀ other ∈ operators, other.length ≤ 2 := by decide
  exact ⟨rfl, Or.inr h, fun other hother _ => hlength other hother⟩

/-- A term begins with an operator of one character if no equals sign follows that would make a longer one
of it. -/
theorem leads_of_single (h : [c] ∈ operators) (hrest : ∀ r, rest = '=' :: r → [c, '='] ∉ operators) :
    Leads [c] rest (c :: rest) := by
  have hshape : ∀ other ∈ operators, other.length = 1 ∨ other.tail = ['='] := by decide
  refine ⟨rfl, Or.inr h, fun other hother hbegins => ?_⟩
  rcases hshape other hother with hone | htail
  · exact hone.le
  · cases other with
    | nil => cases htail
    | cons d other =>
      obtain rfl : other = ['='] := htail
      obtain ⟨r, hr⟩ := hbegins
      obtain ⟨rfl, htail⟩ := List.cons.inj hr
      exact absurd hother (hrest r htail.symm)

/-- Operators are made of the characters of operators. -/
theorem isOperatorChar_of_mem (hop : op = [] ∨ op ∈ operators) (hc : c ∈ op) :
    isOperatorChar c = true := by
  have hall : ∀ op ∈ operators, ∀ c ∈ op, isOperatorChar c = true := by
    simp [operators, relations, isOperatorChar]
  rcases hop with rfl | hop
  · cases hc
  · exact hall op hop c hc

/-- Before a text that goes on without operators, an operator is not part of a longer one. -/
theorem leads_of_stops (hop : op = [] ∨ op ∈ operators) (hrest : Text.Stops isOperatorChar rest) :
    Leads op rest (op ++ rest) := by
  refine ⟨rfl, hop, fun other hother hbegins => ?_⟩
  obtain ⟨more, hsplit⟩ := hbegins
  have hrun := congrArg (List.takeWhile isOperatorChar) hsplit
  rw [List.takeWhile_append_of_pos fun c => isOperatorChar_of_mem (Or.inr hother),
    Text.takeWhile_append_of_stops (fun c => isOperatorChar_of_mem hop) hrest] at hrun
  rw [← hrun, List.length_append]
  exact Nat.le_add_right _ _

/-- The operator that is cut from a term is the one with which it begins. -/
theorem exists_leads (term : List Char) :
    ∃ op, Leads op (cutOperator term).2 term ∧ (cutOperator term).1 = Operator.ofText op := by
  unfold cutOperator
  split
  · exact ⟨_, leads_of_pair (by decide) _, rfl⟩
  · exact ⟨_, leads_of_pair (by decide) _, rfl⟩
  · exact ⟨_, leads_of_pair (by decide) _, rfl⟩
  · exact ⟨_, leads_of_pair (by decide) _, rfl⟩
  · rename_i single
    exact ⟨['='], leads_of_single (by decide) fun r hr => absurd hr (single r), rfl⟩
  · rename_i single
    exact ⟨['>'], leads_of_single (by decide) fun r hr => absurd hr (single r), rfl⟩
  · rename_i single
    exact ⟨['<'], leads_of_single (by decide) fun r hr => absurd hr (single r), rfl⟩
  · exact ⟨['~'], leads_of_single (by decide) fun r hr => by decide, rfl⟩
  · exact ⟨['^'], leads_of_single (by decide) fun r hr => by decide, rfl⟩
  · rename_i h₁ h₂ h₃ h₄ h₅ h₆ h₇ h₈ h₉
    refine ⟨[], ⟨rfl, Or.inl rfl, fun other hother hbegins => ?_⟩, rfl⟩
    obtain ⟨r, rfl⟩ := hbegins
    simp only [operators, relations, List.map_cons, List.map_nil, List.mem_cons, List.not_mem_nil,
      or_false] at hother
    rcases hother with rfl | rfl | rfl | rfl | rfl | rfl | rfl | rfl | rfl
    · exact absurd rfl (h₂ r)
    · exact absurd rfl (h₁ r)
    · exact absurd rfl (h₃ r)
    · exact absurd rfl (h₄ r)
    · exact absurd rfl (h₅ r)
    · exact absurd rfl (h₆ r)
    · exact absurd rfl (h₇ r)
    · exact absurd rfl (h₈ r)
    · exact absurd rfl (h₉ r)

/-- From a term that begins with an operator this operator is cut. -/
theorem cutOperator_eq (h : Leads op rest term) : cutOperator term = (Operator.ofText op, rest) := by
  obtain ⟨op', h', htext⟩ := exists_leads term
  obtain ⟨rfl, rfl⟩ := h.unique h'
  rw [← htext]

/-! ## What follows the operator -/

/-- How a term is read, of which `op` is the operator and `body` what follows it without the mark. -/
inductive Reads : List Char → List Char → Term → Prop where
  /-- The lone wildcard adds nothing. -/
  | any {w : Char} (hw : Comparator.isWildcard w = true) : Reads [] [w] .any
  /-- Without an operator a wildcard field anywhere lets the version be read as it stands. -/
  | asItStands {body : List Char} {c : Comparator} (lone : isWildcardField body = false)
      (wild : ∃ field ∈ Text.fields (· == '.') body, isWildcardField field = true)
      (hread : Comparator.read body = .ok c) : Reads [] body (.compare c)
  /-- Without an operator and a wildcard field the version is read as an exact one. -/
  | bare {body : List Char} {c : Comparator}
      (plain : ∀ field ∈ Text.fields (· == '.') body, isWildcardField field = false)
      (hread : Comparator.read ('=' :: body) = .ok c) : Reads [] body (.compare c)
  | exclude {body : List Char} {v : Version} (hread : Version.read body = .ok v) :
      Reads ['!', '='] body (.exclude v)
  /-- One equality sign is as good as two. -/
  | equal {body : List Char} {c : Comparator} (hread : Comparator.read ('=' :: body) = .ok c) :
      Reads ['=', '='] body (.compare c)
  /-- The operator and the version are put together again and read as one. -/
  | bound {op body : List Char} {relation : Relation} {c : Comparator}
      (hop : (op, relation) ∈ relations) (hdouble : op ≠ ['=', '='])
      (hread : Comparator.read (op ++ body) = .ok c) : Reads op body (.compare c)

/-- A comparator is made into the term that compares with it. -/
theorem comparator_eq_ok_iff {text : List Char} :
    readTerm.comparator text = .ok t ↔ ∃ c, Comparator.read text = .ok c ∧ t = .compare c := by
  unfold readTerm.comparator
  split
  · rename_i c hread
    simp [hread, eq_comm]
  · rename_i cause hread
    simp [hread]

/-- An operator with nothing after it is not read. -/
theorem not_reads_nil : ¬ Reads op [] t := by
  intro h
  cases h with
  | asItStands lone wild hread => cases hread
  | bare plain hread => cases hread
  | exclude hread => cases hread
  | equal hread => cases hread
  | bound hop hdouble hread =>
    simp only [relations, List.mem_cons, Prod.mk.injEq, List.not_mem_nil, or_false] at hop
    rcases hop with ⟨rfl, _⟩ | ⟨rfl, _⟩ | ⟨rfl, _⟩ | ⟨rfl, _⟩ | ⟨rfl, _⟩ | ⟨rfl, _⟩ | ⟨rfl, _⟩ |
      ⟨rfl, _⟩ <;> cases hread

/-- A field is a wildcard if it is a single character that is one. -/
theorem isWildcardField_eq_true_iff :
    isWildcardField body = true ↔ ∃ w, Comparator.isWildcard w = true ∧ body = [w] := by
  constructor
  · intro h
    unfold isWildcardField at h
    split at h
    · exact ⟨_, h, rfl⟩
    · cases h
  · rintro ⟨w, hw, rfl⟩
    exact hw

/-- A wildcard is a single field. -/
theorem fields_of_isWildcardField (h : isWildcardField body = true) :
    Text.fields (· == '.') body = [body] := by
  obtain ⟨w, hw, rfl⟩ := isWildcardField_eq_true_iff.mp h
  apply Text.fields_eq_singleton
  rintro c hc
  rw [List.mem_singleton.mp hc, beq_eq_false_iff_ne]
  rintro rfl
  cases hw

/-- Without an operator a lone wildcard is read as the term that holds of everything. -/
theorem reads_any_iff (h : isWildcardField body = true) : Reads [] body t ↔ t = .any := by
  constructor
  · intro hreads
    cases hreads with
    | any hw => rfl
    | asItStands lone wild hread =>
      rw [h] at lone
      cases lone
    | bare plain hread =>
      have hplain := plain body (by simp [fields_of_isWildcardField h])
      rw [h] at hplain
      cases hplain
    | bound hop hdouble hread => simp [relations] at hop
  · rintro rfl
    obtain ⟨w, hw, rfl⟩ := isWildcardField_eq_true_iff.mp h
    exact .any hw

/-- Without an operator a version with a wildcard among its fields is read as it stands. -/
theorem reads_asItStands_iff (lone : isWildcardField body = false)
    (wild : ∃ field ∈ Text.fields (· == '.') body, isWildcardField field = true) :
    Reads [] body t ↔ ∃ c, Comparator.read body = .ok c ∧ t = .compare c := by
  constructor
  · intro h
    cases h with
    | any hw => simp [isWildcardField, hw] at lone
    | asItStands lone wild hread => exact ⟨_, hread, rfl⟩
    | bare plain hread =>
      obtain ⟨field, hfield, hwild⟩ := wild
      rw [plain field hfield] at hwild
      cases hwild
    | bound hop hdouble hread => simp [relations] at hop
  · rintro ⟨c, hread, rfl⟩
    exact .asItStands lone wild hread

/-- Without an operator a version without wildcards among its fields is read with an equals sign before it.
-/
theorem reads_bare_iff
    (plain : ∀ field ∈ Text.fields (· == '.') body, isWildcardField field = false) :
    Reads [] body t ↔ ∃ c, Comparator.read ('=' :: body) = .ok c ∧ t = .compare c := by
  constructor
  · intro h
    cases h with
    | @any w hw =>
      have hfields : Text.fields (· == '.') [w] = [[w]] := fields_of_isWildcardField hw
      have hplain := plain [w] (by simp [hfields])
      simp [isWildcardField, hw] at hplain
    | asItStands lone wild hread =>
      obtain ⟨field, hfield, hwild⟩ := wild
      rw [plain field hfield] at hwild
      cases hwild
    | bare plain hread => exact ⟨_, hread, rfl⟩
    | bound hop hdouble hread => simp [relations] at hop
  · rintro ⟨c, hread, rfl⟩
    exact .bare plain hread

/-- After the sign of inequality a full version is read, and excluded. -/
theorem reads_exclude_iff :
    Reads ['!', '='] body t ↔ ∃ v, Version.read body = .ok v ∧ t = .exclude v := by
  constructor
  · intro h
    cases h with
    | exclude hread => exact ⟨_, hread, rfl⟩
    | bound hop hdouble hread => simp [relations] at hop
  · rintro ⟨v, hread, rfl⟩
    exact .exclude hread

/-- Two equals signs are read as one. -/
theorem reads_equal_iff :
    Reads ['=', '='] body t ↔ ∃ c, Comparator.read ('=' :: body) = .ok c ∧ t = .compare c := by
  constructor
  · intro h
    cases h with
    | equal hread => exact ⟨_, hread, rfl⟩
    | bound hop hdouble hread => exact absurd rfl hdouble
  · rintro ⟨c, hread, rfl⟩
    exact .equal hread

/-- An operator that stands for a relation is read with the bound after it. -/
theorem reads_bound_iff {relation : Relation} (hop : (op, relation) ∈ relations)
    (hdouble : op ≠ ['=', '=']) :
    Reads op body t ↔ ∃ c, Comparator.read (op ++ body) = .ok c ∧ t = .compare c := by
  constructor
  · intro h
    cases h with
    | any hw => simp [relations] at hop
    | asItStands lone wild hread => simp [relations] at hop
    | bare plain hread => simp [relations] at hop
    | exclude hread => simp [relations] at hop
    | equal hread => exact absurd rfl hdouble
    | bound hop hdouble hread => exact ⟨_, hread, rfl⟩
  · rintro ⟨c, hread, rfl⟩
    exact .bound hop hdouble hread

/-- A term is read by its operator and by what follows, without the mark of a version. -/
theorem readTerm_of_leads (h : Leads op rest term) (unblanked : ∀ c ∈ term, Text.isBlank c = false) :
    readTerm term = .ok t ↔ Reads op (Version.dropV rest) t := by
  have htrim : Text.trim rest = rest :=
    Text.trim_eq_self fun c hc => unblanked c (by simp [h.split, hc])
  unfold readTerm
  rw [cutOperator_eq h]
  simp only [htrim]
  cases Version.dropV rest with
  | nil => simp [not_reads_nil]
  | cons c body =>
    simp only
    rcases h.known with rfl | hknown
    · simp only [Operator.ofText]
      split
      · rename_i hlone
        rw [reads_any_iff hlone]
        simp [eq_comm]
      · rename_i hlone
        split
        · rename_i hwild
          rw [comparator_eq_ok_iff, reads_asItStands_iff (by simpa using hlone) (by simpa using hwild)]
        · rename_i hwild
          rw [comparator_eq_ok_iff, reads_bare_iff (by simpa using hwild)]
    · simp only [operators, relations, List.map_cons, List.map_nil, List.mem_cons, List.not_mem_nil,
        or_false] at hknown
      rcases hknown with rfl | rfl | rfl | rfl | rfl | rfl | rfl | rfl | rfl
      · simp only [Operator.ofText]
        rw [reads_exclude_iff]
        cases hread : Version.read (c :: body) with
        | ok v => simp [eq_comm]
        | error cause => simp
      · rw [reads_equal_iff]
        exact comparator_eq_ok_iff
      all_goals
        rw [reads_bound_iff (by simp [relations]; rfl) (by decide)]
        exact comparator_eq_ok_iff

/-! ## The version in a term -/

/-- The texts of the version, or the wildcard, that a term has been read as. -/
inductive Term.IsWritten : List Char → Term → Prop where
  | any {w : Char} (hw : Comparator.isWildcard w = true) : IsWritten [w] .any
  | compare {body : List Char} {c : Comparator} {hasWildcard : Bool}
      (written : c.bound.IsWritten body hasWildcard) : IsWritten body (.compare c)
  | exclude {v : Version} (proper : v.Proper) : IsWritten v.render.toList (.exclude v)

/-- The characters of versions are none of operators. -/
theorem not_isOperatorChar_of_isVersionChar (h : Version.isVersionChar c = true) :
    isOperatorChar c = false := by
  rw [Bool.eq_false_iff]
  intro hc
  simp only [isOperatorChar, Bool.or_eq_true, beq_iff_eq] at hc
  rcases hc with ((((rfl | rfl) | rfl) | rfl) | rfl) | rfl <;> cases h

/-- Wildcards are no characters of operators. -/
theorem not_isOperatorChar_of_isWildcard (h : Comparator.isWildcard c = true) :
    isOperatorChar c = false := by
  simp only [Comparator.isWildcard, Bool.or_eq_true, beq_iff_eq] at h
  rcases h with (rfl | rfl) | rfl <;> decide

/-- The text of a version or a wildcard begins with a digit or a wildcard. -/
theorem Term.IsWritten.begins (h : t.IsWritten body) :
    ∃ c rest, body = c :: rest ∧ (c.isDigit = true ∨ Comparator.isWildcard c = true) := by
  cases h with
  | any hw => exact ⟨_, _, rfl, Or.inr hw⟩
  | compare written =>
    obtain ⟨d, rest, hbody, hd⟩ := Comparator.begins_of_isWritten written
    exact ⟨d, rest, hbody, Or.inl hd⟩
  | exclude proper =>
    obtain ⟨d, rest, hbody, hd⟩ := Comparator.begins_of_isWritten (.full proper)
    exact ⟨d, rest, hbody, Or.inl hd⟩

/-- The text of a version is made of the characters of versions and of wildcards. -/
theorem Term.IsWritten.forall_mem (h : t.IsWritten body) :
    ∀ c ∈ body, Version.isVersionChar c = true ∨ Comparator.isWildcard c = true := by
  cases h with
  | any hw => exact fun c hc => Or.inr (List.mem_singleton.mp hc ▸ hw)
  | compare written => exact fun c hc => (Comparator.forall_mem_of_isWritten written c hc).imp_right And.right
  | exclude proper => exact fun c hc => Or.inl (proper.isVersionChar_of_mem hc)

/-- The text of a version does not begin with the character of an operator. -/
theorem Term.IsWritten.exists_cons (h : t.IsWritten body) :
    ∃ c rest, body = c :: rest ∧ isOperatorChar c = false := by
  obtain ⟨c, rest, rfl, _⟩ := h.begins
  rcases h.forall_mem c List.mem_cons_self with hversion | hwildcard
  · exact ⟨c, rest, rfl, not_isOperatorChar_of_isVersionChar hversion⟩
  · exact ⟨c, rest, rfl, not_isOperatorChar_of_isWildcard hwildcard⟩

/-- The text of a bound does not begin with the character of an operator. -/
theorem exists_cons_of_isWritten {bound : PartialVersion} {hasWildcard : Bool}
    (h : bound.IsWritten body hasWildcard) : ∃ c rest, body = c :: rest ∧ isOperatorChar c = false := by
  have written : (Term.compare ⟨.exact, bound⟩).IsWritten body := .compare h
  exact written.exists_cons

/-- Where no operator stands no relation is read. -/
theorem readRelation_of_bare (h : isOperatorChar c = false) :
    Comparator.readRelation (c :: rest) = (none, c :: rest) := by
  unfold Comparator.readRelation
  split
  all_goals first | rfl | exact absurd h (by simp_all [isOperatorChar])

/-- Before what does not look like an operator the relation of the operator is read. -/
theorem readRelation_of_mem {relation : Relation} (hop : (op, relation) ∈ relations)
    (hdouble : op ≠ ['=', '=']) (h : isOperatorChar c = false) :
    Comparator.readRelation (op ++ c :: rest) = (some relation, c :: rest) := by
  have hsingle : ∀ s, c :: rest = '=' :: s → False := by
    rintro s hs
    rw [(List.cons.inj hs).1] at h
    cases h
  simp only [relations, List.mem_cons, Prod.mk.injEq, List.not_mem_nil, or_false] at hop
  rcases hop with ⟨rfl, rfl⟩ | ⟨rfl, rfl⟩ | ⟨rfl, rfl⟩ | ⟨rfl, rfl⟩ | ⟨rfl, rfl⟩ | ⟨rfl, rfl⟩ |
    ⟨rfl, rfl⟩ | ⟨rfl, rfl⟩
  · exact absurd rfl hdouble
  · rfl
  · rfl
  · rfl
  · exact Comparator.readRelation.eq_3 _ hsingle
  · exact Comparator.readRelation.eq_5 _ hsingle
  · rfl
  · rfl

/-- A version is read as a caret range if it is read as it stands and has no wildcard in the place of a
number. -/
theorem read_of_isWritten {bound : PartialVersion} {hasWildcard : Bool}
    (h : bound.IsWritten body hasWildcard) :
    Comparator.read body = .ok ⟨Comparator.bareRelation hasWildcard, bound⟩ := by
  obtain ⟨c, rest, hbody, hc⟩ := exists_cons_of_isWritten h
  have hrelation : Comparator.readRelation body = (none, body) := by
    rw [hbody]
    exact readRelation_of_bare hc
  rw [Comparator.read_eq_ok_iff]
  simp only [hrelation]
  exact ⟨hasWildcard, h, rfl⟩

/-- An operator and the text of a bound are read as the comparator of both. -/
theorem read_append_of_isWritten {bound : PartialVersion} {hasWildcard : Bool} {relation : Relation}
    (hop : (op, relation) ∈ relations) (hdouble : op ≠ ['=', '='])
    (h : bound.IsWritten body hasWildcard) : Comparator.read (op ++ body) = .ok ⟨relation, bound⟩ := by
  obtain ⟨c, rest, hbody, hc⟩ := exists_cons_of_isWritten h
  have hrelation : Comparator.readRelation (op ++ body) = (some relation, body) := by
    rw [hbody]
    exact readRelation_of_mem hop hdouble hc
  rw [Comparator.read_eq_ok_iff]
  simp only [hrelation]
  exact ⟨hasWildcard, h, rfl⟩

/-- An equals sign and the text of a bound are read as the comparator for exactly this bound. -/
theorem read_equal_of_isWritten {bound : PartialVersion} {hasWildcard : Bool}
    (h : bound.IsWritten body hasWildcard) : Comparator.read ('=' :: body) = .ok ⟨.exact, bound⟩ := by
  have happend : '=' :: body = ['='] ++ body := rfl
  rw [happend]
  exact read_append_of_isWritten (by decide) (by decide) h

/-- The text of a bound is no lone wildcard. -/
theorem not_isWildcardField_of_isWritten {bound : PartialVersion} {hasWildcard : Bool}
    (h : bound.IsWritten body hasWildcard) : isWildcardField body = false := by
  rw [Bool.eq_false_iff]
  intro hlone
  obtain ⟨w, hw, hsingle⟩ := isWildcardField_eq_true_iff.mp hlone
  obtain ⟨d, rest, hcons, hd⟩ := Comparator.begins_of_isWritten h
  rw [hsingle] at hcons
  rw [(List.cons.inj hcons).1, Comparator.not_isWildcard_of_isDigit hd] at hw
  cases hw

/-- A relation is read from characters of operators, and these are cut off. -/
theorem readRelation_split (s : List Char) :
    ∃ lead, s = lead ++ (Comparator.readRelation s).2 ∧ ∀ c ∈ lead, isOperatorChar c = true := by
  unfold Comparator.readRelation
  split
  · exact ⟨['='], rfl, by simp [isOperatorChar]⟩
  · exact ⟨['>', '='], rfl, by simp [isOperatorChar]⟩
  · exact ⟨['>'], rfl, by simp [isOperatorChar]⟩
  · exact ⟨['<', '='], rfl, by simp [isOperatorChar]⟩
  · exact ⟨['<'], rfl, by simp [isOperatorChar]⟩
  · exact ⟨['~'], rfl, by simp [isOperatorChar]⟩
  · exact ⟨['^'], rfl, by simp [isOperatorChar]⟩
  · exact ⟨[], rfl, by simp⟩

/-- What is read as a comparator is a run of operator characters and a version, wherever in the run the text
is cut. -/
theorem exists_written_of_read {comparator : Comparator} (op body : List Char)
    (hop : ∀ c ∈ op, isOperatorChar c = true) (h : Comparator.read (op ++ body) = .ok comparator) :
    ∃ lead rest, body = lead ++ rest ∧ (∀ c ∈ lead, isOperatorChar c = true) ∧
      (Term.compare comparator).IsWritten rest := by
  obtain ⟨hasWildcard, written, _⟩ := Comparator.read_eq_ok_iff.mp h
  obtain ⟨lead, hsplit, hlead⟩ := readRelation_split (op ++ body)
  obtain ⟨c, rest, hrest, hc⟩ := (Term.IsWritten.compare written).exists_cons
  have hstops : Text.Stops isOperatorChar (Comparator.readRelation (op ++ body)).2 := by
    rw [hrest]
    exact Text.stops_cons_iff.mpr hc
  have hdrop : body.dropWhile isOperatorChar = (Comparator.readRelation (op ++ body)).2 := by
    rw [← List.dropWhile_append_of_pos hop, hsplit, Text.dropWhile_append_of_stops hlead hstops,
      ← hsplit]
  refine ⟨body.takeWhile isOperatorChar, _, List.takeWhile_append_dropWhile.symm,
    fun c => List.mem_takeWhile_imp, ?_⟩
  rw [hdrop]
  exact .compare written

/-- In a term that is read, the text of a version follows after characters of operators. -/
theorem exists_written_of_reads (h : Reads op body t) :
    ∃ lead rest, body = lead ++ rest ∧ (∀ c ∈ lead, isOperatorChar c = true) ∧ t.IsWritten rest := by
  cases h with
  | any hw => exact ⟨[], _, rfl, by simp, .any hw⟩
  | asItStands lone wild hread => exact exists_written_of_read [] body (by simp) hread
  | bare plain hread => exact exists_written_of_read ['='] body (by simp [isOperatorChar]) hread
  | exclude hread =>
    obtain ⟨proper, hbody⟩ := Version.read_eq_ok_iff.mp hread
    exact ⟨[], body, rfl, by simp, hbody ▸ .exclude proper⟩
  | equal hread => exact exists_written_of_read ['='] body (by simp [isOperatorChar]) hread
  | bound hop hdouble hread =>
    have hknown := mem_operators_of_mem hop
    exact exists_written_of_read op body (fun c => isOperatorChar_of_mem (Or.inr hknown)) hread

/-- The mark of a version is one letter at most, a small or a capital v. -/
theorem exists_mark (s : List Char) :
    ∃ mark, s = mark ++ Version.dropV s ∧ (mark = [] ∨ mark = ['v'] ∨ mark = ['V']) := by
  unfold Version.dropV
  split
  · exact ⟨['v'], rfl, by simp⟩
  · exact ⟨['V'], rfl, by simp⟩
  · exact ⟨[], rfl, by simp⟩

/-- A term that can be read ends in the version it has been read as, and nothing but operators and a mark
stands before it. -/
theorem exists_written_of_readTerm (h : readTerm term = .ok t)
    (unblanked : ∀ c ∈ term, Text.isBlank c = false) :
    ∃ lead body, term = lead ++ body ∧
      (∀ c ∈ lead, isOperatorChar c = true ∨ c = 'v' ∨ c = 'V') ∧ t.IsWritten body := by
  obtain ⟨op, hleads, _⟩ := exists_leads term
  obtain ⟨lead, body, hbody, hlead, written⟩ :=
    exists_written_of_reads ((readTerm_of_leads hleads unblanked).mp h)
  obtain ⟨mark, hrest, hmark⟩ := exists_mark (cutOperator term).2
  have hsplit : term = (op ++ (mark ++ lead)) ++ body := by
    rw [List.append_assoc, List.append_assoc, ← hbody, ← hrest]
    exact hleads.split
  refine ⟨op ++ (mark ++ lead), body, hsplit, fun c hc => ?_, written⟩
  rcases List.mem_append.mp hc with hc | hc
  · exact Or.inl (isOperatorChar_of_mem hleads.known hc)
  · rcases List.mem_append.mp hc with hc | hc
    · rcases hmark with rfl | rfl | rfl
      · cases hc
      · exact Or.inr (Or.inl (List.mem_singleton.mp hc))
      · exact Or.inr (Or.inr (List.mem_singleton.mp hc))
    · exact Or.inl (hlead c hc)

/-- A term that is read does not consist of operators alone. -/
theorem not_all_isOperatorChar_of_readTerm (h : readTerm term = .ok t)
    (unblanked : ∀ c ∈ term, Text.isBlank c = false) : term.all isOperatorChar = false := by
  obtain ⟨lead, body, rfl, _, written⟩ := exists_written_of_readTerm h unblanked
  obtain ⟨c, rest, rfl, hc⟩ := written.exists_cons
  exact List.all_eq_false.mpr ⟨c, by simp, by simp [hc]⟩

/-- In a term that is read there is no bar. -/
theorem bar_notMem_of_readTerm (h : readTerm term = .ok t)
    (unblanked : ∀ c ∈ term, Text.isBlank c = false) : '|' ∉ term := by
  obtain ⟨lead, body, rfl, hlead, written⟩ := exists_written_of_readTerm h unblanked
  intro hbar
  rcases List.mem_append.mp hbar with hbar | hbar
  · exact absurd (hlead _ hbar) (by decide)
  · exact absurd (written.forall_mem _ hbar) (by decide)

end PackageLock.Constraint
