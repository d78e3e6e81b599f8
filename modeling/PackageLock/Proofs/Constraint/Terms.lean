import PackageLock.Constraint
import PackageLock.Proofs.Text.Splitting

/-!
# Alternatives and terms of a text

How the terms of a text follow from those of its parts. Two bars between two texts put their alternatives side
by side, unless a bar that is left over shows in one of them (`alternativeTexts_append_bars`). A comma or a
blank puts their terms side by side (`terms_append_comma`, `terms_append_blank`), the blank only if no operator
of the first text waits for its version. A version and the operators before it are one term
(`terms_operators_append`). Nothing but commas and blanks is lost between terms (`flatten_terms`).
-/

set_option autoImplicit false

namespace PackageLock.Constraint

variable {text before after term pending : List Char} {words more parts : List (List Char)} {c : Char}

/-! ## Words joined to terms -/

/-- A word that does not consist of operators is not empty. -/
theorem ne_nil_of_not_operators {word : List Char} (h : word.all isOperatorChar = false) : word ≠ [] := by
  rintro rfl
  cases h

/-- Joining operators to the words after them loses no character. -/
theorem flatten_joinOperators (pending : List Char) (words : List (List Char)) :
    (joinOperators pending words).flatten = pending ++ words.flatten := by
  induction words generalizing pending with
  | nil =>
    rw [joinOperators]
    cases pending <;> simp
  | cons word rest ih =>
    rw [joinOperators]
    split <;> simp [ih]

/-- Words that follow are read by themselves, unless operators before them still wait for a version. -/
theorem joinOperators_append (hpending : pending.all isOperatorChar = true)
    (h : ∀ term ∈ joinOperators pending words, term.all isOperatorChar = false)
    (more : List (List Char)) :
    joinOperators pending (words ++ more) = joinOperators pending words ++ joinOperators [] more := by
  induction words generalizing pending with
  | nil =>
    cases pending with
    | nil => rfl
    | cons c pending =>
      have hleft := h (c :: pending) (by simp [joinOperators])
      rw [hpending] at hleft
      cases hleft
  | cons word rest ih =>
    rw [List.cons_append]
    rw [joinOperators] at h ⊢
    rw [joinOperators]
    split at h
    · rename_i hword
      rw [if_pos hword, if_pos hword]
      exact ih (by simp [List.all_append, hpending, hword]) h
    · rename_i hword
      rw [if_neg hword, if_neg hword, List.cons_append]
      rw [ih rfl fun term hterm => h term (List.mem_cons_of_mem _ hterm)]

/-- Operators wait for the word after them. -/
theorem joinOperators_operators_append {operators : List (List Char)}
    (h : ∀ op ∈ operators, op.all isOperatorChar = true) (pending : List Char)
    (more : List (List Char)) :
    joinOperators pending (operators ++ more) = joinOperators (pending ++ operators.flatten) more := by
  induction operators generalizing pending with
  | nil => simp
  | cons op operators ih =>
    obtain ⟨hop, hoperators⟩ := List.forall_mem_cons.mp h
    rw [List.cons_append, joinOperators, if_pos hop, ih hoperators, List.flatten_cons,
      List.append_assoc]

/-- A version takes the operators before it and leaves none to the words after it. -/
theorem joinOperators_version_append {version : List Char} (h : version.all isOperatorChar = false)
    (pending : List Char) (words more : List (List Char)) :
    joinOperators pending (words ++ [version] ++ more) =
      joinOperators pending (words ++ [version]) ++ joinOperators [] more := by
  induction words generalizing pending with
  | nil => simp [joinOperators, h]
  | cons word words ih =>
    simp only [List.cons_append, joinOperators, ih]
    split <;> rfl

/-! ## Terms -/

/-- A comma is no blank. -/
theorem not_isBlank_comma : Text.isBlank ',' = false := by
  decide

/-- A bar is no blank. -/
theorem not_isBlank_bar : Text.isBlank '|' = false := by
  decide

/-- A blank is none of the other characters. -/
theorem ne_of_isBlank {d : Char} (hc : Text.isBlank c = true) (hd : Text.isBlank d = false) :
    c ≠ d := by
  rintro rfl
  rw [hd] at hc
  cases hc

/-- No character of an operator separates terms. -/
theorem separators_of_isOperatorChar {c : Char} (h : isOperatorChar c = true) :
    c ≠ ',' ∧ Text.isBlank c = false := by
  simp only [isOperatorChar, Bool.or_eq_true, beq_iff_eq] at h
  rcases h with ((((rfl | rfl) | rfl) | rfl) | rfl) | rfl <;> decide

/-- A blank is no character of an operator. -/
theorem not_isOperatorChar_of_isBlank (h : Text.isBlank c = true) : isOperatorChar c = false := by
  rw [← Bool.not_eq_true]
  intro hop
  rw [(separators_of_isOperatorChar hop).2] at h
  cases h

/-- The terms of a text have all its characters, commas and blanks apart. -/
theorem flatten_terms (text : List Char) :
    (terms text).flatten = text.filter fun c => !(c == ',') && !Text.isBlank c := by
  have hchunks (chunks : List (List Char)) :
      (chunks.flatMap fun chunk => joinOperators [] (Text.words chunk)).flatten =
        chunks.flatten.filter fun c => !Text.isBlank c := by
    induction chunks with
    | nil => rfl
    | cons chunk chunks ih =>
      rw [List.flatMap_cons, List.flatten_append, ih, flatten_joinOperators, Text.flatten_words]
      simp
  rw [terms, hchunks, Text.flatten_fields, List.filter_filter]
  congr 1
  funext c
  exact Bool.and_comm _ _

/-- The characters of a term are characters of the text, and none of them separates terms. -/
theorem of_mem_terms (hterm : term ∈ terms text) (hc : c ∈ term) :
    c ∈ text ∧ c ≠ ',' ∧ Text.isBlank c = false := by
  have hmem : c ∈ (terms text).flatten := List.mem_flatten.mpr ⟨term, hterm, hc⟩
  rw [flatten_terms] at hmem
  simpa using List.mem_filter.mp hmem

/-- Each character of a text that does not separate terms is in one of them. -/
theorem exists_term_of_mem (hc : c ∈ text) (comma : c ≠ ',') (blank : Text.isBlank c = false) :
    ∃ term ∈ terms text, c ∈ term := by
  have hmem : c ∈ (terms text).flatten := by
    rw [flatten_terms]
    exact List.mem_filter.mpr ⟨hc, by simp [comma, blank]⟩
  exact List.mem_flatten.mp hmem

/-- A comma separates the terms before it from those after it. -/
theorem terms_append_comma (before after : List Char) :
    terms (before ++ ',' :: after) = terms before ++ terms after := by
  rw [terms, Text.fields_append_separator (by decide), List.flatMap_append]
  rfl

/-- A blank parts two texts if nothing of the chunk before it joins the words after it. -/
theorem terms_append_blank_of_last (hc : Text.isBlank c = true)
    (h : ∀ front last, Text.fields (· == ',') before = front ++ [last] → ∀ more,
      joinOperators [] (Text.words last ++ more) =
        joinOperators [] (Text.words last) ++ joinOperators [] more) (after : List Char) :
    terms (before ++ c :: after) = terms before ++ terms after := by
  have hcomma : (c == ',') = false := beq_eq_false_iff_ne.mpr (ne_of_isBlank hc not_isBlank_comma)
  obtain ⟨front, last, first, back, hbefore, hafter, happend⟩ :=
    Text.exists_fields_append_cons (· == ',') hcomma before after
  simp only [terms, hbefore, hafter, happend, List.flatMap_append, List.flatMap_cons,
    List.flatMap_nil, Text.words_append_blank hc, h front last hbefore, List.append_assoc,
    List.append_nil]

/-- A blank separates terms if none of those before it consists of operators. -/
theorem terms_append_blank (hc : Text.isBlank c = true)
    (h : ∀ term ∈ terms before, term.all isOperatorChar = false) (after : List Char) :
    terms (before ++ c :: after) = terms before ++ terms after := by
  refine terms_append_blank_of_last hc (fun front last hbefore => ?_) after
  refine joinOperators_append rfl fun term hterm => h term ?_
  exact List.mem_flatMap.mpr ⟨last, by simp [hbefore], hterm⟩

/-- A blank after a version separates terms. -/
theorem terms_version_append_blank {version : List Char} (hc : Text.isBlank c = true)
    (plain : ∀ c ∈ version, c ≠ ',' ∧ Text.isBlank c = false)
    (hversion : version.all isOperatorChar = false) (before after : List Char) :
    terms (before ++ version ++ c :: after) = terms (before ++ version) ++ terms after := by
  have hne := ne_nil_of_not_operators hversion
  refine terms_append_blank_of_last hc (fun front last hlast more => ?_) after
  -- the last chunk ends with the version, and so does its last word
  obtain ⟨front', last', _, happend⟩ := Text.exists_fields_append
    (fun c hc => beq_eq_false_iff_ne.mpr (plain c hc).1) before
  obtain ⟨_, hlast⟩ := List.append_inj' (hlast.symm.trans happend) rfl
  obtain ⟨words, word, hwords, _⟩ :=
    Text.exists_words_append hne (fun c hc => (plain c hc).2) last'
  rw [(List.cons.inj hlast).1, hwords]
  exact joinOperators_version_append (by simp [hversion]) [] words more

/-- In an empty text there are no terms. -/
theorem terms_nil : terms [] = [] := rfl

/-- A blank at the beginning has no part in the terms. -/
theorem terms_cons_blank (hc : Text.isBlank c = true) (text : List Char) :
    terms (c :: text) = terms text := by
  have happend : terms ([] ++ c :: text) = terms [] ++ terms text :=
    terms_append_blank hc (by simp [terms_nil]) text
  rwa [terms_nil] at happend

/-- A blank at the end has no part in the terms. -/
theorem terms_concat_blank (hc : Text.isBlank c = true) (text : List Char) :
    terms (text ++ [c]) = terms text := by
  have hcomma : (c == ',') = false := beq_eq_false_iff_ne.mpr (ne_of_isBlank hc not_isBlank_comma)
  obtain ⟨front, last, first, back, htext, hnil, happend⟩ :=
    Text.exists_fields_append_cons (· == ',') hcomma text []
  obtain ⟨rfl, rfl⟩ : first = [] ∧ back = [] := by simpa [Text.fields] using hnil.symm
  simp only [terms, htext, happend, List.flatMap_append, List.flatMap_cons,
    Text.words_append_blank hc, Text.words_nil, List.append_nil]

/-- Blanks at the end have no part in the terms. -/
theorem terms_append_blanks (h : ∀ c ∈ after, Text.isBlank c = true) (text : List Char) :
    terms (text ++ after) = terms text := by
  induction after using List.reverseRecOn with
  | nil => rw [List.append_nil]
  | append_singleton after c ih =>
    rw [← List.append_assoc, terms_concat_blank (h c (by simp))]
    exact ih fun d hd => h d (List.mem_append_left _ hd)

/-- The terms of a text without commas are its words, with operators joined to the words after them. -/
theorem terms_of_not_mem (comma : ',' ∉ text) : terms text = joinOperators [] (Text.words text) := by
  have hfields : Text.fields (· == ',') text = [text] := by
    refine Text.fields_eq_singleton fun c hc => beq_eq_false_iff_ne.mpr ?_
    rintro rfl
    exact comma hc
  simp [terms, hfields]

/-- A version is one term with the operators before it, wherever blanks stand between and around these. -/
theorem terms_operators_append {version : List Char}
    (hbefore : ∀ c ∈ before, isOperatorChar c = true ∨ Text.isBlank c = true)
    (plain : ∀ c ∈ version, c ≠ ',' ∧ Text.isBlank c = false)
    (hversion : version.all isOperatorChar = false) :
    terms (before ++ version) = [before.filter isOperatorChar ++ version] := by
  have hne := ne_nil_of_not_operators hversion
  have comma : ',' ∉ before ++ version := by
    rw [List.mem_append, not_or]
    exact ⟨fun h => by simpa [isOperatorChar, not_isBlank_comma] using hbefore _ h,
      fun h => (plain _ h).1 rfl⟩
  obtain ⟨operators, last, hwords, hoperators⟩ :=
    Text.exists_words_append hne (fun c hc => (plain c hc).2) before
  have hops : ∀ op ∈ operators, op.all isOperatorChar = true := by
    intro op hop
    refine List.all_eq_true.mpr fun c hc => ?_
    obtain ⟨hmem, blank⟩ := hoperators op hop c hc
    exact (hbefore c hmem).resolve_right (by simp [blank])
  have hjoin : joinOperators [] (operators ++ [last ++ version]) =
      [(operators ++ [last ++ version]).flatten] := by
    rw [joinOperators_operators_append hops, joinOperators, if_neg (by simp [hversion])]
    simp [joinOperators]
  have hfilter : before.filter (fun c => !Text.isBlank c) = before.filter isOperatorChar := by
    refine List.filter_congr fun c hc => ?_
    rcases hbefore c hc with h | h
    · simp [h, (separators_of_isOperatorChar h).2]
    · simp [h, not_isOperatorChar_of_isBlank h]
  have hplain : version.filter (fun c => !Text.isBlank c) = version :=
    List.filter_eq_self.mpr fun c hc => by simp [(plain c hc).2]
  rw [terms_of_not_mem comma, hwords, hjoin, ← hwords, Text.flatten_words, List.filter_append,
    hfilter, hplain]

/-- An operator and the version after it are one term, whatever blanks there are between and around them. -/
theorem terms_operator_append {op : List Char} (hop : ∀ c ∈ op, isOperatorChar c = true)
    (plain : ∀ c ∈ Text.trim text, c ≠ ',' ∧ Text.isBlank c = false)
    (hversion : (Text.trim text).all isOperatorChar = false) :
    terms (op ++ text) = [op ++ Text.trim text] := by
  obtain ⟨before, after, htext, hbefore, hafter⟩ := Text.exists_trim text
  generalize Text.trim text = version at *
  have hfilter : (op ++ before).filter isOperatorChar = op := by
    have hnone : before.filter isOperatorChar = [] :=
      List.filter_eq_nil_iff.mpr fun c hc => by simp [not_isOperatorChar_of_isBlank (hbefore c hc)]
    rw [List.filter_append, List.filter_eq_self.mpr hop, hnone, List.append_nil]
  have hstart : ∀ c ∈ op ++ before, isOperatorChar c = true ∨ Text.isBlank c = true :=
    List.forall_mem_append.mpr ⟨fun c hc => Or.inl (hop c hc), fun c hc => Or.inr (hbefore c hc)⟩
  rw [htext, ← List.append_assoc before, ← List.append_assoc op, terms_append_blanks hafter,
    ← List.append_assoc, terms_operators_append hstart plain hversion, hfilter]

/-! ## Alternatives -/

/-- Every text has an alternative. -/
theorem alternativeTexts_ne_nil : alternativeTexts text ≠ [] := by
  unfold alternativeTexts
  split
  · simp
  · simp
  · split <;> simp

/-- Double bars end an alternative. -/
theorem alternativeTexts_bars (text : List Char) :
    alternativeTexts ('|' :: '|' :: text) = [] :: alternativeTexts text := by
  rw [alternativeTexts]

/-- A character that is no bar belongs to the first alternative. -/
theorem alternativeTexts_cons (h : c ≠ '|') (text : List Char) :
    alternativeTexts (c :: text) = (alternativeTexts text).modifyHead (List.cons c) := by
  rw [alternativeTexts.eq_3 _ _ fun _ hc _ => h hc]
  split
  · rename_i hnil
    exact absurd hnil alternativeTexts_ne_nil
  · rename_i hcons
    rw [hcons]
    rfl

/-- A text without double bars is one alternative. -/
theorem alternativeTexts_eq_singleton (h : ¬ ['|', '|'] <:+: text) : alternativeTexts text = [text] := by
  induction text using alternativeTexts.induct with
  | case1 => rfl
  | case2 rest ih => exact absurd (List.prefix_append ['|', '|'] rest).isInfix h
  | case3 c rest single hnil ih => exact absurd hnil alternativeTexts_ne_nil
  | case4 c rest single part parts hcons ih =>
    rw [alternativeTexts.eq_3 _ _ single, ih fun hrest => h (List.infix_cons hrest)]

/-- A bar at the beginning leaves an alternative that is empty or that has a bar. -/
theorem exists_bad_part_of_bar (text : List Char) :
    ∃ part ∈ alternativeTexts ('|' :: text), part = [] ∨ '|' ∈ part := by
  by_cases hbar : ∃ rest, text = '|' :: rest
  · obtain ⟨rest, rfl⟩ := hbar
    exact ⟨[], by simp [alternativeTexts_bars], Or.inl rfl⟩
  · rw [alternativeTexts.eq_3 _ _ fun rest _ hrest => hbar ⟨rest, hrest⟩]
    split
    · rename_i hnil
      exact absurd hnil alternativeTexts_ne_nil
    · exact ⟨_, List.mem_cons_self, Or.inr List.mem_cons_self⟩

/-- Bars between two texts part their alternatives. Otherwise the first text ends in a bar that pairs with
one of them, and then a bar or nothing at all is left in the place of a later alternative. -/
theorem alternativeTexts_append_bars (before after : List Char) :
    alternativeTexts (before ++ '|' :: '|' :: after) =
        alternativeTexts before ++ alternativeTexts after ∨
      (∃ part ∈ alternativeTexts before, '|' ∈ part) ∧
        ∃ part ∈ (alternativeTexts (before ++ '|' :: '|' :: after)).tail, part = [] ∨ '|' ∈ part := by
  induction before using alternativeTexts.induct with
  | case1 => exact Or.inl (alternativeTexts_bars after)
  | case2 rest ih =>
    simp only [List.cons_append, alternativeTexts_bars]
    rcases ih with hrest | ⟨⟨part, hpart, hbar⟩, part', hpart', hleft⟩
    · exact Or.inl (by rw [hrest])
    · exact Or.inr ⟨⟨part, List.mem_cons_of_mem _ hpart, hbar⟩, part', List.mem_of_mem_tail hpart', hleft⟩
  | case3 c rest single hnil ih => exact absurd hnil alternativeTexts_ne_nil
  | case4 c rest single part parts hcons ih =>
    by_cases hend : c = '|' ∧ rest = []
    · obtain ⟨rfl, rfl⟩ := hend
      refine Or.inr ⟨⟨['|'], by decide, by simp⟩, ?_⟩
      simp only [List.cons_append, List.nil_append, alternativeTexts_bars, List.tail_cons]
      exact exists_bad_part_of_bar after
    · have single' : ∀ rest', c = '|' → rest ++ '|' :: '|' :: after = '|' :: rest' → False := by
        intro rest' hc heq
        cases rest with
        | nil => exact hend ⟨hc, rfl⟩
        | cons d rest => exact single rest hc (by rw [(List.cons.inj heq).1])
      rw [alternativeTexts.eq_3 _ _ single, List.cons_append, alternativeTexts.eq_3 _ _ single']
      rcases ih with hrest | ⟨⟨part', hpart', hbar⟩, part'', hpart'', hleft⟩
      · left
        rw [hrest, hcons]
        rfl
      · right
        rw [hcons] at hpart' ⊢
        constructor
        · rcases List.mem_cons.mp hpart' with rfl | hpart'
          · exact ⟨_, List.mem_cons_self, List.mem_cons_of_mem _ hbar⟩
          · exact ⟨_, List.mem_cons_of_mem _ hpart', hbar⟩
        · split
          · rename_i hnil
            exact absurd hnil alternativeTexts_ne_nil
          · rename_i hmore
            rw [hmore] at hpart''
            exact ⟨part'', hpart'', hleft⟩

/-- A character at the end that is no bar belongs to the last alternative. -/
theorem exists_alternativeTexts_concat (hc : c ≠ '|') (text : List Char) :
    ∃ front last, alternativeTexts text = front ++ [last] ∧
      alternativeTexts (text ++ [c]) = front ++ [last ++ [c]] := by
  induction text using alternativeTexts.induct with
  | case1 => exact ⟨[], [], rfl, by rw [List.nil_append, alternativeTexts_cons hc]; rfl⟩
  | case2 rest ih =>
    obtain ⟨front, last, hrest, hconcat⟩ := ih
    refine ⟨[] :: front, last, ?_, ?_⟩
    · rw [alternativeTexts_bars, hrest]
      rfl
    · rw [List.cons_append, List.cons_append, alternativeTexts_bars, hconcat]
      rfl
  | case3 d rest single hnil ih => exact absurd hnil alternativeTexts_ne_nil
  | case4 d rest single part parts hcons ih =>
    obtain ⟨front, last, hrest, hconcat⟩ := ih
    have single' : ∀ rest', d = '|' → rest ++ [c] = '|' :: rest' → False := by
      intro rest' hd heq
      cases rest with
      | nil => exact hc (List.cons.inj heq).1
      | cons e rest => exact single rest hd (by rw [(List.cons.inj heq).1])
    rw [alternativeTexts.eq_3 _ _ single, List.cons_append, alternativeTexts.eq_3 _ _ single', hrest,
      hconcat]
    cases front with
    | nil => exact ⟨[], d :: last, rfl, rfl⟩
    | cons first front => exact ⟨(d :: first) :: front, last, rfl, rfl⟩

/-- Blanks around a text belong to no term. -/
theorem map_terms_trim (text : List Char) :
    (alternativeTexts (Text.trim text)).map terms = (alternativeTexts text).map terms := by
  have hbar {c : Char} (hc : Text.isBlank c = true) : c ≠ '|' := ne_of_isBlank hc not_isBlank_bar
  have hstart : (alternativeTexts (text.dropWhile Text.isBlank)).map terms =
      (alternativeTexts text).map terms := by
    induction text with
    | nil => rfl
    | cons c text ih =>
      rw [List.dropWhile_cons]
      split
      · rename_i hc
        rw [ih, alternativeTexts_cons (hbar hc)]
        cases alternativeTexts text with
        | nil => rfl
        | cons part parts => simp [terms_cons_blank hc]
      · rfl
  rw [← hstart, Text.trim_eq_rdropWhile]
  induction text.dropWhile Text.isBlank using List.reverseRecOn with
  | nil => rfl
  | append_singleton text c ih =>
    rw [List.rdropWhile_concat]
    split
    · rename_i hc
      obtain ⟨front, last, htext, hconcat⟩ := exists_alternativeTexts_concat (hbar hc) text
      rw [ih, htext, hconcat]
      simp [terms_concat_blank hc]
    · rfl

end PackageLock.Constraint
