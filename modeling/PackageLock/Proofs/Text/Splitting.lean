import PackageLock.Proofs.Text.Fields

/-!
# Splitting text at separators

`fields` is the library's `List.splitOnP` (`fields_eq_splitOnP`). A text that is put together at a separator
has the fields of both parts (`fields_append_separator`); put together at any other character, the last
field of the one part and the first of the other become one (`exists_fields_append_cons`). Nothing but
separators is lost (`flatten_fields`, `flatten_words`), and a text is words with blanks between them in one
way only (`spaced_iff`).
-/

set_option autoImplicit false

namespace PackageLock.Text

variable {separates : Char → Bool} {s before after : List Char} {parts : List (List Char)} {c : Char}

/-! ## Fields -/

/-- The fields are what the list library splits a text into. -/
theorem fields_eq_splitOnP (separates : Char → Bool) (s : List Char) :
    fields separates s = s.splitOnP separates := by
  induction s with
  | nil => rfl
  | cons c rest ih =>
    rw [fields, ih, List.splitOnP_cons_eq_if_modifyHead]
    split
    · rfl
    · obtain ⟨part, parts, hrest⟩ :=
        List.exists_cons_of_ne_nil (List.splitOnP_ne_nil separates rest)
      rw [hrest]
      rfl

/-- Every text has a field. -/
theorem fields_ne_nil : fields separates s ≠ [] := by
  rw [fields_eq_splitOnP]
  exact List.splitOnP_ne_nil separates s

/-- A separator parts the fields before it from those after it. -/
theorem fields_append_separator (h : separates c = true) (before after : List Char) :
    fields separates (before ++ c :: after) = fields separates before ++ fields separates after := by
  simp only [fields_eq_splitOnP]
  exact List.splitOnP_append_cons before after h

/-- A text without separators is one field. -/
theorem fields_eq_singleton (h : ∀ c ∈ s, separates c = false) : fields separates s = [s] := by
  rw [fields_eq_splitOnP]
  exact List.splitOnP_eq_singleton h

/-- The fields of a text with the separator between them are the text. -/
theorem intercalate_fields (c : Char) (s : List Char) : [c].intercalate (fields (· == c) s) = s := by
  rw [fields_eq_splitOnP]
  exact List.intercalate_splitOn c

/-- Parts that have no separator are cut where they were joined. -/
theorem fields_intercalate (h : ∀ part ∈ parts, c ∉ part) (hne : parts ≠ []) :
    fields (· == c) ([c].intercalate parts) = parts := by
  rw [fields_eq_splitOnP]
  exact List.splitOn_intercalate c h hne

/-- A character of joined parts is the separator, or it is in one of the parts. -/
theorem mem_intercalate {d : Char} (h : d ∈ [c].intercalate parts) : d = c ∨ ∃ part ∈ parts, d ∈ part := by
  induction parts with
  | nil => simp at h
  | cons part parts ih =>
    cases parts with
    | nil => exact Or.inr ⟨part, by simp, by simpa using h⟩
    | cons next parts =>
      rw [List.intercalate_cons_cons, List.append_assoc] at h
      rcases List.mem_append.mp h with hpart | hrest
      · exact Or.inr ⟨part, by simp, hpart⟩
      · rcases List.mem_cons.mp hrest with rfl | hrest
        · exact Or.inl rfl
        · rcases ih hrest with rfl | ⟨other, hother, hd⟩
          · exact Or.inl rfl
          · exact Or.inr ⟨other, List.mem_cons_of_mem _ hother, hd⟩

/-- A character that is no separator joins the last field before it with the first one after it. -/
theorem exists_fields_append_cons (separates : Char → Bool) (h : separates c = false)
    (before after : List Char) :
    ∃ front last first back, fields separates before = front ++ [last] ∧
      fields separates after = first :: back ∧
      fields separates (before ++ c :: after) = front ++ (last ++ c :: first) :: back := by
  induction before with
  | nil =>
    obtain ⟨first, back, hafter⟩ := List.exists_cons_of_ne_nil (fields_ne_nil (s := after))
    exact ⟨[], [], first, back, rfl, hafter, by simp [fields, h, hafter]⟩
  | cons d before ih =>
    obtain ⟨front, last, first, back, hbefore, hafter, happend⟩ := ih
    by_cases hd : separates d = true
    · exact ⟨[] :: front, last, first, back, by simp [fields, hd, hbefore], hafter,
        by simp [fields, hd, happend]⟩
    · cases front with
      | nil =>
        exact ⟨[], d :: last, first, back, by simp [fields, hd, hbefore], hafter,
          by simp [fields, hd, happend]⟩
      | cons part front =>
        exact ⟨(d :: part) :: front, last, first, back, by simp [fields, hd, hbefore], hafter,
          by simp [fields, hd, happend]⟩

/-- The fields have all characters of a text but the separators. -/
theorem flatten_fields (separates : Char → Bool) (s : List Char) :
    (fields separates s).flatten = s.filter fun c => !separates c := by
  induction s with
  | nil => rfl
  | cons c rest ih =>
    obtain ⟨part, parts, hrest⟩ := List.exists_cons_of_ne_nil (fields_ne_nil (s := rest))
    rw [hrest] at ih
    by_cases hc : separates c = true
    · simp [fields, hc, hrest, ← ih]
    · simp [fields, hc, hrest, ← ih]

/-- The characters of a field are characters of the text, and none of them separates. -/
theorem mem_of_mem_fields {part : List Char} (hpart : part ∈ fields separates s) (hc : c ∈ part) :
    c ∈ s ∧ separates c = false := by
  have hmem : c ∈ (fields separates s).flatten := List.mem_flatten.mpr ⟨part, hpart, hc⟩
  rw [flatten_fields] at hmem
  simpa using List.mem_filter.mp hmem

/-- A run without separators at the end of a text goes on with its last field. -/
theorem exists_fields_append {word : List Char} (h : ∀ c ∈ word, separates c = false)
    (before : List Char) : ∃ front last, fields separates before = front ++ [last] ∧
      fields separates (before ++ word) = front ++ [last ++ word] := by
  cases word with
  | nil =>
    have hne : fields separates before ≠ [] := fields_ne_nil
    exact ⟨_, _, (List.dropLast_append_getLast hne).symm,
      by simp only [List.append_nil, List.dropLast_append_getLast hne]⟩
  | cons d word =>
    obtain ⟨hd, hword⟩ := List.forall_mem_cons.mp h
    obtain ⟨front, last, first, back, hbefore, hfields, happend⟩ :=
      exists_fields_append_cons separates hd before word
    rw [fields_eq_singleton hword] at hfields
    obtain ⟨rfl, rfl⟩ := List.cons.inj hfields
    exact ⟨front, last, hbefore, happend⟩

/-! ## Words -/

/-- An empty text has no words. -/
theorem words_nil : words [] = [] := rfl

/-- No word is empty. -/
theorem ne_nil_of_mem_words {word : List Char} (h : word ∈ words s) : word ≠ [] := by
  simpa using List.of_mem_filter h

/-- A blank parts the words before it from those after it. -/
theorem words_append_blank (h : isBlank c = true) (before after : List Char) :
    words (before ++ c :: after) = words before ++ words after := by
  rw [words, fields_append_separator h, List.filter_append]
  rfl

/-- Blanks at the beginning have no part in the words. -/
theorem words_blanks_append (h : ∀ c ∈ before, isBlank c = true) (after : List Char) :
    words (before ++ after) = words after := by
  induction before with
  | nil => rfl
  | cons c before ih =>
    have hfirst := words_append_blank (h c List.mem_cons_self) [] (before ++ after)
    rw [words_nil, List.nil_append, List.nil_append] at hfirst
    rw [List.cons_append, hfirst]
    exact ih fun d hd => h d (List.mem_cons_of_mem c hd)

/-- A text without blanks is one word. -/
theorem words_eq_singleton (hne : s ≠ []) (h : ∀ c ∈ s, isBlank c = false) : words s = [s] := by
  rw [words, fields_eq_singleton h]
  simp [hne]

/-- Characters that are no blanks go on with the last word. -/
theorem exists_words_append {word : List Char} (hne : word ≠ []) (h : ∀ c ∈ word, isBlank c = false)
    (before : List Char) : ∃ front last, words (before ++ word) = front ++ [last ++ word] ∧
      ∀ other ∈ front, ∀ c ∈ other, c ∈ before ∧ isBlank c = false := by
  obtain ⟨front, last, hbefore, happend⟩ := exists_fields_append h before
  refine ⟨front.filter fun word => !word.isEmpty, last, by simp [words, happend, hne], ?_⟩
  intro other hother c hc
  have hfield : other ∈ fields isBlank before := by
    rw [hbefore]
    exact List.mem_append_left _ (List.mem_of_mem_filter hother)
  exact mem_of_mem_fields hfield hc

/-- A word before a blank, or before the end, is the first. -/
theorem words_append_apart {word rest : List Char} (hne : word ≠ [])
    (hword : ∀ c ∈ word, isBlank c = false) (apart : ∀ c, rest.head? = some c → isBlank c = true) :
    words (word ++ rest) = word :: words rest := by
  cases rest with
  | nil => rw [List.append_nil, words_eq_singleton hne hword, words_nil]
  | cons c rest =>
    have hc : isBlank c = true := apart c rfl
    have hrest : words ([c] ++ rest) = words rest := words_blanks_append (by simpa using hc) rest
    rw [words_append_blank hc, words_eq_singleton hne hword, List.singleton_append,
      ← hrest, List.singleton_append]

/-- The words of a text, in order, with blanks between them and maybe around them. -/
inductive Spaced : List Char → List (List Char) → Prop where
  | blanks {s : List Char} (hs : ∀ c ∈ s, isBlank c = true) : Spaced s []
  | word {before word rest : List Char} {more : List (List Char)}
      (hbefore : ∀ c ∈ before, isBlank c = true) (hne : word ≠ [])
      (hword : ∀ c ∈ word, isBlank c = false) (apart : ∀ c, rest.head? = some c → isBlank c = true)
      (hrest : Spaced rest more) : Spaced (before ++ (word ++ rest)) (word :: more)

/-- A text is spaced in one way, by its words. -/
theorem Spaced.eq_words (h : Spaced s parts) : parts = words s := by
  induction h with
  | @blanks s hs =>
    have hnil := words_blanks_append hs []
    rw [List.append_nil, words_nil] at hnil
    exact hnil.symm
  | word hbefore hne hword apart hrest ih =>
    rw [words_blanks_append hbefore, words_append_apart hne hword apart, ih]

/-- Every text is spaced in some way. -/
theorem exists_spaced (s : List Char) : ∃ parts, Spaced s parts := by
  have hnone : ∀ c ∈ ([] : List Char), isBlank c = true := by simp
  induction s with
  | nil => exact ⟨[], .blanks hnone⟩
  | cons c s ih =>
    obtain ⟨parts, hparts⟩ := ih
    by_cases hc : isBlank c = true
    · cases hparts with
      | blanks hs => exact ⟨[], .blanks (List.forall_mem_cons.mpr ⟨hc, hs⟩)⟩
      | word hbefore hne hword apart hrest =>
        exact ⟨_, .word (List.forall_mem_cons.mpr ⟨hc, hbefore⟩) hne hword apart hrest⟩
    · rw [Bool.not_eq_true] at hc
      by_cases apart : ∀ d, s.head? = some d → isBlank d = true
      · have hword : ∀ d ∈ [c], isBlank d = false := by simpa using hc
        exact ⟨_, .word hnone (List.cons_ne_nil c []) hword apart hparts⟩
      · -- the character belongs to the first word of the rest
        cases hparts with
        | blanks hs => exact absurd (fun d hd => hs d (List.mem_of_mem_head? hd)) apart
        | @word before word rest more hbefore hne hword apart' hrest =>
          cases before with
          | nil =>
            have hword' : ∀ d ∈ c :: word, isBlank d = false := List.forall_mem_cons.mpr ⟨hc, hword⟩
            exact ⟨_, .word hnone (List.cons_ne_nil c word) hword' apart' hrest⟩
          | cons b before =>
            refine absurd (fun d hd => hbefore d ?_) apart
            obtain rfl := Option.some.inj hd
            exact List.mem_cons_self

/-- The words of a text are the parts between its blanks. -/
theorem spaced_iff : Spaced s parts ↔ parts = words s := by
  constructor
  · exact Spaced.eq_words
  · rintro rfl
    obtain ⟨parts, hparts⟩ := exists_spaced s
    exact hparts.eq_words ▸ hparts

/-- The words have all characters of a text but the blanks. -/
theorem flatten_words (s : List Char) : (words s).flatten = s.filter fun c => !isBlank c := by
  rw [← flatten_fields, words]
  induction fields isBlank s with
  | nil => rfl
  | cons field rest ih => cases field <;> simp [ih]

end PackageLock.Text
