import PackageLock.Proofs.Constraint.Terms

/-!
# How the terms of a text are laid out

A text is written as chunks with commas between them, a chunk as words with blanks between and around them,
and a term as words that are nothing but operators and, behind them, a word that is not. Only at the end of a
chunk such operators may stand by themselves. `LaidOut` says this without regard to how terms are found, and
there is one way to lay out a text. Main statement: `terms_lose_nothing`. No character but commas and blanks is
lost, and a version has before it in its term just the operators written since the version before it.
-/

set_option autoImplicit false

namespace PackageLock.Constraint

variable {chunk text before after version earlier between : List Char} {words found : List (List Char)}

/-! ## Words joined to terms -/

/-- The terms to which the words of a chunk are joined. -/
inductive Joined : List (List Char) → List (List Char) → Prop where
  | nil : Joined [] []
  /-- Operators with no version after them, at the end of the chunk. -/
  | operators {words : List (List Char)} (hne : words ≠ [])
      (hwords : ∀ word ∈ words, word.all isOperatorChar = true) : Joined words [words.flatten]
  /-- A version with the operators before it. -/
  | version {operators : List (List Char)} {version : List Char} {words found : List (List Char)}
      (hoperators : ∀ word ∈ operators, word.all isOperatorChar = true)
      (hversion : version.all isOperatorChar = false) (rest : Joined words found) :
      Joined (operators ++ version :: words) ((operators.flatten ++ version) :: found)

/-- Words that are not empty have a character between them, if there are any. -/
theorem flatten_ne_nil (hsome : words ≠ []) (hne : ∀ word ∈ words, word ≠ []) : words.flatten ≠ [] := by
  obtain ⟨word, hword⟩ := List.exists_mem_of_ne_nil words hsome
  exact List.flatten_ne_nil_iff.mpr ⟨word, hword, hne word hword⟩

/-- Words are joined in one way, the one in which the constraint joins them. -/
theorem Joined.eq_joinOperators (h : Joined words found) (hne : ∀ word ∈ words, word ≠ []) :
    found = joinOperators [] words := by
  induction h with
  | nil => rfl
  | @operators words hsome hwords =>
    have hjoin := joinOperators_operators_append hwords [] []
    rw [List.append_nil] at hjoin
    rw [hjoin, List.nil_append, joinOperators, if_neg (by simpa using flatten_ne_nil hsome hne)]
  | version hoperators hversion rest ih =>
    rw [joinOperators_operators_append hoperators, joinOperators, if_neg (by simp [hversion]),
      List.nil_append, ih fun word hword => hne word (by simp [hword])]

/-- All words can be joined to terms. -/
theorem exists_joined (words : List (List Char)) : ∃ found, Joined words found := by
  induction words with
  | nil => exact ⟨[], .nil⟩
  | cons word words ih =>
    obtain ⟨found, hfound⟩ := ih
    by_cases hword : word.all isOperatorChar = true
    · cases hfound with
      | nil => exact ⟨_, .operators (List.cons_ne_nil word []) (by simpa using hword)⟩
      | operators hne hwords =>
        exact ⟨_, .operators (List.cons_ne_nil word words) (List.forall_mem_cons.mpr ⟨hword, hwords⟩)⟩
      | version hoperators hversion rest =>
        exact ⟨_, .version (List.forall_mem_cons.mpr ⟨hword, hoperators⟩) hversion rest⟩
    · rw [Bool.not_eq_true] at hword
      have hnone : ∀ op ∈ ([] : List (List Char)), op.all isOperatorChar = true := by simp
      exact ⟨_, .version hnone hword hfound⟩

/-- Terms that are joined from words are not empty. -/
theorem Joined.ne_nil (h : Joined words found) (hne : ∀ word ∈ words, word ≠ []) :
    ∀ term ∈ found, term ≠ [] := by
  induction h with
  | nil => simp
  | operators hsome hwords => exact List.forall_mem_singleton.mpr (flatten_ne_nil hsome hne)
  | version hoperators hversion rest ih =>
    refine List.forall_mem_cons.mpr ⟨?_, ih fun word hword => hne word (by simp [hword])⟩
    exact List.append_ne_nil_of_right_ne_nil _ (ne_nil_of_not_operators hversion)

/-! ## Chunks between commas -/

/-- The terms of a chunk. -/
def IsChunk (chunk : List Char) (found : List (List Char)) : Prop :=
  ',' ∉ chunk ∧ ∃ words, Text.Spaced chunk words ∧ Joined words found

/-- The terms of a text, which are those of its chunks. -/
inductive LaidOut : List Char → List (List Char) → Prop where
  | chunk {chunk : List Char} {found : List (List Char)} (hchunk : IsChunk chunk found) :
      LaidOut chunk found
  | comma {chunk text : List Char} {found more : List (List Char)} (hchunk : IsChunk chunk found)
      (htext : LaidOut text more) : LaidOut (chunk ++ ',' :: text) (found ++ more)

/-- The terms of a chunk are those that are cut from it. -/
theorem isChunk_iff : IsChunk chunk found ↔ ',' ∉ chunk ∧ found = terms chunk := by
  refine and_congr_right fun comma => ?_
  simp only [Text.spaced_iff, exists_eq_left, terms_of_not_mem comma]
  constructor
  · intro h
    exact h.eq_joinOperators fun _ => Text.ne_nil_of_mem_words
  · rintro rfl
    obtain ⟨found, hfound⟩ := exists_joined (Text.words chunk)
    exact hfound.eq_joinOperators (fun _ => Text.ne_nil_of_mem_words) ▸ hfound

/-- The terms of a chunk are not empty. -/
theorem IsChunk.ne_nil (h : IsChunk chunk found) : ∀ term ∈ found, term ≠ [] := by
  obtain ⟨_, words, hwords, hfound⟩ := h
  obtain rfl := hwords.eq_words
  exact hfound.ne_nil fun _ => Text.ne_nil_of_mem_words

/-- A text can be laid out in one way only. -/
theorem laidOut_iff : LaidOut text found ↔ found = terms text := by
  constructor
  · intro h
    induction h with
    | chunk hchunk => exact (isChunk_iff.mp hchunk).2
    | comma hchunk htext ih => rw [terms_append_comma, ih, (isChunk_iff.mp hchunk).2]
  · rintro rfl
    have hcomma : ∀ part ∈ Text.fields (· == ',') text, ',' ∉ part := fun part hpart hmem => by
      simpa using (Text.mem_of_mem_fields hpart hmem).2
    rw [← Text.intercalate_fields ',' text]
    generalize Text.fields (· == ',') text = parts at hcomma
    induction parts with
    | nil => exact .chunk (isChunk_iff.mpr ⟨by simp, rfl⟩)
    | cons part parts ih =>
      obtain ⟨hpart, hparts⟩ := List.forall_mem_cons.mp hcomma
      have hchunk : IsChunk part (terms part) := isChunk_iff.mpr ⟨hpart, rfl⟩
      cases parts with
      | nil => simpa using LaidOut.chunk hchunk
      | cons next parts =>
        rw [List.intercalate_cons_cons, List.append_assoc, List.singleton_append, terms_append_comma]
        exact .comma hchunk (ih hparts)

/-- No term of a text is empty. -/
theorem LaidOut.ne_nil (h : LaidOut text found) : ∀ term ∈ found, term ≠ [] := by
  induction h with
  | chunk hchunk => exact hchunk.ne_nil
  | comma hchunk htext ih => exact List.forall_mem_append.mpr ⟨hchunk.ne_nil, ih⟩

/-! ## Where a version stands -/

/-- Between `before` and `after` stands a whole word, which is not made of operators alone. -/
structure IsVersionAt (before version after : List Char) : Prop where
  plain : ∀ c ∈ version, c ≠ ',' ∧ Text.isBlank c = false
  proper : version.all isOperatorChar = false
  starts : ∀ c, before.getLast? = some c → c = ',' ∨ Text.isBlank c = true
  stops : ∀ c, after.head? = some c → c = ',' ∨ Text.isBlank c = true

/-- The text `earlier` is followed by `rest`, and leaves it no operators: it is empty, or a comma or a version
stands at its end. -/
inductive Parted : List Char → List Char → Prop where
  | start {rest : List Char} : Parted [] rest
  | comma {before rest : List Char} : Parted (before ++ [',']) rest
  | version {before version rest : List Char} (h : IsVersionAt before version rest) :
      Parted (before ++ version) rest

/-- A comma at the beginning of a text has no part in its terms. -/
theorem terms_cons_comma (text : List Char) : terms (',' :: text) = terms text := by
  have happend := terms_append_comma [] text
  rwa [terms_nil, List.nil_append, List.nil_append] at happend

/-- Where a text is parted, the terms on both sides are cut by themselves. -/
theorem Parted.terms_append {rest : List Char} (h : Parted earlier rest) :
    terms (earlier ++ rest) = terms earlier ++ terms rest := by
  cases h with
  | start => rw [terms_nil, List.nil_append, List.nil_append]
  | @comma before =>
    rw [List.append_assoc, List.singleton_append, terms_append_comma, terms_append_comma, terms_nil,
      List.append_nil]
  | @version before version _ h =>
    cases rest with
    | nil => rw [terms_nil, List.append_nil, List.append_nil]
    | cons c rest =>
      rcases h.stops c rfl with rfl | hc
      · rw [terms_append_comma, terms_cons_comma]
      · rw [terms_version_append_blank hc h.plain h.proper, terms_cons_blank hc]

/-- What stands before a place in a text: something that leaves no operators, operators and blanks after it, and
the beginning of a word. -/
structure Reached (before earlier between word : List Char) : Prop where
  eq_append : before = earlier ++ between ++ word
  operators : ∀ c ∈ between, isOperatorChar c = true ∨ Text.isBlank c = true
  plain : ∀ c ∈ word, c ≠ ',' ∧ Text.isBlank c = false
  starts : ∀ c, (earlier ++ between).getLast? = some c → c = ',' ∨ Text.isBlank c = true
  parted : ∀ rest, Parted earlier (between ++ rest)

/-- After a comma nothing that came before counts any more. -/
theorem reached_concat_comma (before : List Char) : Reached (before ++ [',']) (before ++ [',']) [] [] :=
  ⟨by simp, by simp, by simp, by simp, fun _ => .comma⟩

variable {word : List Char} {c : Char}

/-- A character that is neither a comma nor a blank goes on with the word. -/
theorem Reached.concat_plain (h : Reached before earlier between word) (comma : c ≠ ',')
    (blank : Text.isBlank c = false) : Reached (before ++ [c]) earlier between (word ++ [c]) where
  eq_append := by simp [h.eq_append]
  operators := h.operators
  plain := List.forall_mem_append.mpr ⟨h.plain, by simp [comma, blank]⟩
  starts := h.starts
  parted := h.parted

/-- A word of operators alone goes on to wait for its version. -/
theorem Reached.concat_blank_of_operators (h : Reached before earlier between word)
    (blank : Text.isBlank c = true) (hword : word.all isOperatorChar = true) :
    Reached (before ++ [c]) earlier (between ++ (word ++ [c])) [] where
  eq_append := by simp [h.eq_append]
  operators := by
    rw [List.forall_mem_append, List.forall_mem_append]
    exact ⟨h.operators, fun d hd => Or.inl (List.all_eq_true.mp hword d hd), by simp [blank]⟩
  plain := by simp
  starts := by simp [blank]
  parted rest := by
    rw [List.append_assoc]
    exact h.parted _

/-- A blank after a word that is no operator ends a term. -/
theorem Reached.concat_blank_of_version (h : Reached before earlier between word)
    (blank : Text.isBlank c = true) (hword : word.all isOperatorChar = false) :
    Reached (before ++ [c]) before [c] [] where
  eq_append := by simp
  operators := by simp [blank]
  plain := by simp
  starts := by simp [blank]
  parted rest := by
    rw [h.eq_append]
    exact .version ⟨h.plain, hword, h.starts, by simp [blank]⟩

/-- What stands before a place can always be told apart in this way, by induction on the characters. -/
theorem exists_reached (before : List Char) : ∃ earlier between word, Reached before earlier between word := by
  induction before using List.reverseRecOn with
  | nil => exact ⟨[], [], [], rfl, by simp, by simp, by simp, fun _ => .start⟩
  | append_singleton before c ih =>
    obtain ⟨earlier, between, word, h⟩ := ih
    by_cases comma : c = ','
    · rw [comma]
      exact ⟨_, _, _, reached_concat_comma before⟩
    · cases blank : Text.isBlank c with
      | false => exact ⟨_, _, _, h.concat_plain comma blank⟩
      | true =>
        cases hword : word.all isOperatorChar with
        | true => exact ⟨_, _, _, h.concat_blank_of_operators blank hword⟩
        | false => exact ⟨_, _, _, h.concat_blank_of_version blank hword⟩

/-- A version is one term with the operators since the last comma or version. -/
theorem IsVersionAt.exists_terms (h : IsVersionAt before version after) : ∃ earlier between,
    before = earlier ++ between ∧ Parted earlier (between ++ (version ++ after)) ∧
    (∀ c ∈ between, isOperatorChar c = true ∨ Text.isBlank c = true) ∧
    terms (before ++ (version ++ after)) =
      terms earlier ++ (between.filter isOperatorChar ++ version) :: terms after := by
  obtain ⟨earlier, between, word, reached⟩ := exists_reached before
  -- the version is a word from its beginning on
  have hnil : word = [] := by
    rcases List.eq_nil_or_concat word with hnil | ⟨front, c, rfl⟩
    · exact hnil
    · obtain ⟨comma, blank⟩ := reached.plain c (by simp)
      have hlast : before.getLast? = some c := by simp [reached.eq_append]
      rcases h.starts c hlast with rfl | hc
      · exact absurd rfl comma
      · simp [blank] at hc
  have hbefore : before = earlier ++ between := by simpa [hnil] using reached.eq_append
  have hjoined := terms_operators_append reached.operators h.plain h.proper
  refine ⟨earlier, between, hbefore, reached.parted _, reached.operators, ?_⟩
  calc terms (before ++ (version ++ after))
    _ = terms (before ++ version) ++ terms after := by
      rw [← List.append_assoc, (Parted.version h).terms_append]
    _ = terms earlier ++ [between.filter isOperatorChar ++ version] ++ terms after := by
      rw [hbefore, List.append_assoc, (reached.parted version).terms_append, hjoined]
    _ = terms earlier ++ (between.filter isOperatorChar ++ version) :: terms after := by
      rw [List.append_assoc, List.singleton_append]

/-- Cutting a text into terms loses nothing: the terms side by side are the text without its commas and blanks,
none is empty, and none reaches across a comma. Within a chunk each term is a version with the words before it
that are nothing but operators, except that such words may be left at the end. So before a version there are in
its term just the operators that are written between it and the version or the comma before it. -/
theorem terms_lose_nothing (text : List Char) :
    ((terms text).flatten = text.filter fun c => !(c == ',') && !Text.isBlank c) ∧
    (∀ term ∈ terms text, term ≠ []) ∧
    (∀ before after, text = before ++ ',' :: after → terms text = terms before ++ terms after) ∧
    (∀ found, LaidOut text found ↔ found = terms text) ∧
    ∀ before version after, text = before ++ (version ++ after) → IsVersionAt before version after →
      ∃ earlier between, before = earlier ++ between ∧ Parted earlier (between ++ (version ++ after)) ∧
        (∀ c ∈ between, isOperatorChar c = true ∨ Text.isBlank c = true) ∧
        terms text = terms earlier ++ (between.filter isOperatorChar ++ version) :: terms after := by
  refine ⟨flatten_terms text, (laidOut_iff.mpr rfl).ne_nil, ?_, fun found => laidOut_iff, ?_⟩
  · rintro before after rfl
    exact terms_append_comma before after
  · rintro before version after rfl h
    exact h.exists_terms

/-- Operators apart from each other and from their version, and an operator that a comma leaves alone. -/
theorem terms_lose_nothing_of_apart :
    LaidOut "1.0 > = 2.0 <, !=3".toList
      ["1.0".toList, ">=2.0".toList, "<".toList, "!=3".toList] ∧
    terms "1.0 > = 2.0 <, !=3".toList = terms "1.0 > = 2.0 <".toList ++ terms " !=3".toList ∧
    IsVersionAt "1.0 > = ".toList "2.0".toList " <, !=3".toList ∧
    ∃ earlier between, "1.0 > = ".toList = earlier ++ between ∧
      Parted earlier (between ++ "2.0 <, !=3".toList) ∧
      terms "1.0 > = 2.0 <, !=3".toList =
        terms earlier ++ (between.filter isOperatorChar ++ "2.0".toList) :: terms " <, !=3".toList := by
  have hversion : IsVersionAt "1.0 > = ".toList "2.0".toList " <, !=3".toList :=
    { plain := by simp [Text.isBlank]
      proper := by decide
      starts := by simp [Text.isBlank]
      stops := by simp [Text.isBlank] }
  obtain ⟨_, _, hcomma, hlaid, hkept⟩ := terms_lose_nothing "1.0 > = 2.0 <, !=3".toList
  obtain ⟨earlier, between, hbefore, hparted, _, hterms⟩ := hkept _ _ _ (by decide) hversion
  exact ⟨(hlaid _).mpr (by decide), hcomma _ _ (by decide), hversion, earlier, between, hbefore,
    hparted, hterms⟩

end PackageLock.Constraint
