import PackageLock.Proofs.Text.Reading
import PackageLock.Toml.Written

/-!
# Strings read back

A string is written in one of four forms, and each of them is read back by the reader of that form. Where
quotes may stand in a string as they are, the reader must not take them for the closing ones: there are at
most two in a row, and two more before the closing three still belong to the string.
Main statement: `readString_writeString`.
-/

set_option autoImplicit false

namespace PackageLock.Toml

variable {s t text rest after : List Char} {c : Char} {run : Nat}

/-! ## Characters -/

/-- What needs no escape is plain, line ends apart. -/
theorem isPlain_of_needsEscape_eq_false (h : needsEscape c = false) (hline : c ≠ '\n') :
    isPlain c = true := by
  by_cases htab : c = '\t'
  · rw [htab]
    decide
  · simp [needsEscape, isPlain, htab, hline] at h ⊢
    omega

/-- A carriage return needs an escape. -/
theorem ne_return_of_needsEscape_eq_false (h : needsEscape c = false) : c ≠ '\r' := by
  rintro rfl
  cases h

/-- Each hexadecimal digit has the value that it was written for. -/
theorem hexValue?_upperHexDigit : ∀ k < 16, hexValue? (upperHexDigit k) = some k := by
  decide

/-- Hexadecimal digits are read from the first to the last. -/
theorem readHex_upperHexDigit {value count k : Nat} (hk : k < 16) :
    readHex value (count + 1) (upperHexDigit k :: s) = readHex (16 * value + k) count s := by
  simp only [readHex, hexValue?_upperHexDigit k hk, Option.bind_eq_bind, Option.bind_some]

/-- A character that is written by its number is read back. -/
theorem readEscape_escapedByNumber (h : c.toNat < 65536) :
    readEscape ((escapedByNumber c).tail ++ t) = some (c, t) := by
  have hvalue : 16 * (16 * (16 * (16 * 0 + c.toNat / 4096 % 16) + c.toNat / 256 % 16) +
      c.toNat / 16 % 16) + c.toNat % 16 = c.toNat := by
    omega
  have hvalid : c.toNat.isValidChar := c.valid
  show readCodePoint 4 (upperHexDigit (c.toNat / 4096 % 16) :: upperHexDigit (c.toNat / 256 % 16) ::
    upperHexDigit (c.toNat / 16 % 16) :: upperHexDigit (c.toNat % 16) :: t) = some (c, t)
  unfold readCodePoint
  iterate 4 rw [readHex_upperHexDigit (Nat.mod_lt _ (by decide))]
  rw [hvalue]
  simp [readHex, hvalid, Char.ofNat_toNat]

/-- A line is not continued before a character. -/
theorem continuation?_cons (hspace : isSpace c = false) (hline : c ≠ '\n') (hreturn : c ≠ '\r') :
    continuation? (c :: s) = none := by
  unfold continuation?
  rw [List.dropWhile_cons_of_neg (by simp [hspace])]
  split <;> simp_all

/-- A character is written as it is, or as a backslash with an escape that stands for it. -/
theorem escapedChar_cases (long : Bool) (c : Char) (t : List Char) :
    (escapedChar long c = [c] ∧ c ≠ '\\' ∧ c ≠ '\r' ∧ (isPlain c = true ∨ long = true ∧ c = '\n')) ∨
      ∃ escape, escapedChar long c = '\\' :: escape ∧
        continuation? (escape ++ t) = none ∧ readEscape (escape ++ t) = some (c, t) := by
  have hnone {d : Char} {escape : List Char} (hd : d ∈ ['b', 't', 'n', 'f', 'r', '\\', 'u']) :
      continuation? (d :: escape ++ t) = none := by
    simp only [List.mem_cons, List.not_mem_nil, or_false] at hd
    apply continuation?_cons
    all_goals obtain rfl | rfl | rfl | rfl | rfl | rfl | rfl := hd <;> decide
  unfold escapedChar
  split_ifs with hb ht hn hlong hf hr hslash hescape
  all_goals subst_vars
  · exact .inr ⟨_, rfl, hnone (by decide), rfl⟩
  · exact .inr ⟨_, rfl, hnone (by decide), rfl⟩
  · exact .inl ⟨rfl, by decide, by decide, .inr ⟨rfl, rfl⟩⟩
  · exact .inr ⟨_, rfl, hnone (by decide), rfl⟩
  · exact .inr ⟨_, rfl, hnone (by decide), rfl⟩
  · exact .inr ⟨_, rfl, hnone (by decide), rfl⟩
  · exact .inr ⟨_, rfl, hnone (by decide), rfl⟩
  · have hsmall : c.toNat < 65536 := by
      simp only [needsEscape, Bool.and_eq_true, Bool.or_eq_true, decide_eq_true_eq, beq_iff_eq] at hescape
      omega
    exact .inr ⟨_, rfl, hnone (by decide), readEscape_escapedByNumber hsmall⟩
  · have hplain := isPlain_of_needsEscape_eq_false (by simpa using hescape) hn
    exact .inl ⟨rfl, hslash, hr, .inl hplain⟩

/-! ## Steps of the readers -/

/-- A plain character of a basic string stands for itself. -/
theorem readBasic_cons (hc : isPlain c = true) (hquote : c ≠ '"') (hslash : c ≠ '\\')
    (h : readBasic t = some (text, rest)) : readBasic (c :: t) = some (c :: text, rest) := by
  rw [readBasic]
  · simp [hc, h]
  all_goals simp_all

/-- An escape in a basic string stands for its character. -/
theorem readBasic_escape (hescape : readEscape s = some (c, after))
    (h : readBasic after = some (text, rest)) : readBasic ('\\' :: s) = some (c :: text, rest) := by
  rw [readBasic]
  split
  · simp_all
  · rename_i heq
    cases hescape.symm.trans heq
    simp [h]

/-- A plain character of a long basic string stands for itself, a quotation mark unless it closes the
string. -/
theorem readLongBasic_cons (hc : isPlain c = true ∨ c = '\n') (hslash : c ≠ '\\') (hreturn : c ≠ '\r')
    (hquote : c = '"' → ¬ ['"', '"'] <+: t) (h : readLongBasic t = some (text, rest)) :
    readLongBasic (c :: t) = some (c :: text, rest) := by
  rw [readLongBasic]
  · simp [hc, h]
  · rintro r rfl rfl
    exact hquote rfl ⟨r, rfl⟩
  · simpa using hslash
  · simp_all

/-- An escape in a long basic string stands for its character. -/
theorem readLongBasic_escape (hcontinue : continuation? s = none)
    (hescape : readEscape s = some (c, after)) (h : readLongBasic after = some (text, rest)) :
    readLongBasic ('\\' :: s) = some (c :: text, rest) := by
  rw [readLongBasic]
  split
  · simp_all
  · split
    · simp_all
    · rename_i heq
      cases hescape.symm.trans heq
      simp [h]

/-- A character of a long literal string stands for itself, a quotation mark unless it closes the string. -/
theorem readLongLiteral_cons (hc : isPlain c = true ∨ c = '\n') (hreturn : c ≠ '\r')
    (hquote : c = '\'' → ¬ ['\'', '\''] <+: t) (h : readLongLiteral t = some (text, rest)) :
    readLongLiteral (c :: t) = some (c :: text, rest) := by
  rw [readLongLiteral]
  · simp [hc, h]
  · rintro r rfl rfl
    exact hquote rfl ⟨r, rfl⟩
  · simp_all

/-! ## Strings on one line -/

/-- What is escaped into a basic string is read back. -/
theorem readBasic_escaped (s rest : List Char) :
    readBasic (escaped false 0 s ++ '"' :: rest) = some (s, rest) := by
  induction s with
  | nil => simp [escaped, readBasic]
  | cons c s ih =>
    unfold escaped
    split
    · rename_i hc
      subst hc
      exact readBasic_escape rfl ih
    · rename_i hc
      rw [List.append_assoc]
      obtain ⟨heq, hslash, -, hplain⟩ | ⟨escape, heq, -, hread⟩ :=
        escapedChar_cases false c (escaped false 0 s ++ '"' :: rest)
      · rw [heq]
        exact readBasic_cons (by simpa using hplain) hc hslash ih
      · rw [heq]
        exact readBasic_escape hread ih

/-- What is written into a literal string is read back. -/
theorem readLiteral_append (rest : List Char) (h : ∀ c ∈ s, c ≠ '\'' ∧ isPlain c = true) :
    readLiteral (s ++ '\'' :: rest) = some (s, rest) := by
  induction s with
  | nil => simp [readLiteral]
  | cons c s ih =>
    rw [List.forall_mem_cons] at h
    simp [readLiteral, h.1, ih h.2]

/-! ## Strings on several lines -/

/-- Up to two quotation marks before the closing ones belong to the string. -/
theorem closingQuotes_replicate (hrun : run ≤ 2) (hrest : rest.head? ≠ some c) :
    closingQuotes c (List.replicate run c ++ rest) = (List.replicate run c, rest) := by
  have hcases : run = 0 ∨ run = 1 ∨ run = 2 := by omega
  obtain rfl | rfl | rfl := hcases
  · match rest with
    | [] => rfl
    | [d] => simp_all [closingQuotes]
    | d :: e :: rest => simp_all [closingQuotes]
  · match rest with
    | [] => simp [closingQuotes]
    | d :: rest => simp_all [closingQuotes]
  · simp [closingQuotes]

/-- Up to two quotes before something else belong to the string. -/
theorem read_quotes {read : List Char → Option (List Char × List Char)}
    (step : ∀ t text rest, ¬ [c, c] <+: t → read t = some (text, rest) →
      read (c :: t) = some (c :: text, rest))
    (hrun : run ≤ 2) (ht : t.head? ≠ some c) (h : read t = some (text, rest)) :
    read (List.replicate run c ++ t) = some (List.replicate run c ++ text, rest) := by
  induction run with
  | zero => exact h
  | succ run ih =>
    apply step
    · rintro ⟨u, hu⟩
      have hcases : run = 0 ∨ run = 1 := by omega
      obtain rfl | rfl := hcases
      · exact ht (by rw [← show c :: c :: u = t from hu]; rfl)
      · have hhead : c :: u = t := by simpa using hu
        exact ht (by rw [← hhead]; rfl)
    · apply ih
      omega

/-- What is written for another character does not begin with a quotation mark. -/
theorem head?_escapedChar_append (long : Bool) (hc : c ≠ '"') :
    (escapedChar long c ++ t).head? ≠ some '"' := by
  obtain ⟨heq, -⟩ | ⟨escape, heq, -⟩ := escapedChar_cases long c t
  · simpa [heq] using hc
  · simp [heq]

/-- Up to two quotation marks in a long basic string stand for themselves. -/
theorem readLongBasic_quotes (hrun : run ≤ 2) (ht : t.head? ≠ some '"')
    (h : readLongBasic t = some (text, rest)) :
    readLongBasic (List.replicate run '"' ++ t) = some (List.replicate run '"' ++ text, rest) := by
  apply read_quotes _ hrun ht h
  intro t text rest hquotes h
  exact readLongBasic_cons (.inl (by decide)) (by decide) (by decide) (fun _ => hquotes) h

/-- Up to two quotation marks in a long literal string stand for themselves. -/
theorem readLongLiteral_quotes (hrun : run ≤ 2) (ht : t.head? ≠ some '\'')
    (h : readLongLiteral t = some (text, rest)) :
    readLongLiteral (List.replicate run '\'' ++ t) = some (List.replicate run '\'' ++ text, rest) := by
  apply read_quotes _ hrun ht h
  intro t text rest hquotes h
  exact readLongLiteral_cons (.inl (by decide)) (by decide) (fun _ => hquotes) h

/-- A character behind a run of the same can be drawn to its front. -/
theorem replicate_append_cons (run : Nat) (c : Char) (s : List Char) :
    List.replicate run c ++ c :: s = c :: (List.replicate run c ++ s) := by
  rw [← List.cons_append, ← List.replicate_succ, List.replicate_succ', List.append_assoc]
  rfl

/-- Three characters behind a run of the same can be drawn to its front. -/
theorem closing_quotes_replicate (run : Nat) (c : Char) (s : List Char) :
    List.replicate run c ++ c :: c :: c :: s = c :: c :: c :: (List.replicate run c ++ s) := by
  simp only [replicate_append_cons]

-- The quotes just before are held back: whether they are the closing ones shows only in what follows.
/-- What is escaped into a long basic string is read back, with the quotation marks that are pending. -/
theorem readLongBasic_escaped (run : Nat) (s : List Char) (hrun : run ≤ 2)
    (hrest : rest.head? ≠ some '"') :
    readLongBasic (List.replicate run '"' ++ (escaped true run s ++ '"' :: '"' :: '"' :: rest)) =
      some (List.replicate run '"' ++ s, rest) := by
  induction s generalizing run with
  | nil =>
    show readLongBasic (List.replicate run '"' ++ '"' :: '"' :: '"' :: rest) = _
    rw [closing_quotes_replicate, readLongBasic, closingQuotes_replicate hrun hrest, List.append_nil]
  | cons c s ih =>
    have hzero := ih 0 (by omega)
    unfold escaped
    split_ifs with hquote hmore
    · subst hquote
      have hrun : run < 2 := by simpa using hmore
      have hnext := ih (run + 1) (by omega)
      rw [List.replicate_succ, List.cons_append, List.cons_append, ← replicate_append_cons,
        ← replicate_append_cons] at hnext
      exact hnext
    · subst hquote
      apply readLongBasic_quotes hrun (by simp)
      exact readLongBasic_escape (continuation?_cons (by decide) (by decide) (by decide)) rfl hzero
    · rw [List.append_assoc]
      apply readLongBasic_quotes hrun (head?_escapedChar_append true hquote)
      obtain ⟨heq, hslash, hreturn, hplain⟩ | ⟨escape, heq, hcontinue, hread⟩ :=
        escapedChar_cases true c (escaped true 0 s ++ '"' :: '"' :: '"' :: rest)
      · rw [heq]
        exact readLongBasic_cons (hplain.imp_right And.right) hslash hreturn
          (fun h => absurd h hquote) hzero
      · rw [heq]
        exact readLongBasic_escape hcontinue hread hzero

/-- The longest run is no shorter than the pending one. -/
theorem le_longestRun (c : Char) (run : Nat) (s : List Char) : run ≤ longestRun c run s := by
  induction s generalizing run with
  | nil => exact Nat.le_refl run
  | cons d s ih =>
    unfold longestRun
    split
    · have := ih (run + 1)
      omega
    · omega

/-- What is written into a long literal string is read back, with the quotation marks that are pending. -/
theorem readLongLiteral_append (run : Nat) (h : ∀ c ∈ s, needsEscape c = false)
    (hrun : longestRun '\'' run s ≤ 2) (hrest : rest.head? ≠ some '\'') :
    readLongLiteral (List.replicate run '\'' ++ (s ++ '\'' :: '\'' :: '\'' :: rest)) =
      some (List.replicate run '\'' ++ s, rest) := by
  have hle := le_longestRun '\'' run s
  induction s generalizing run with
  | nil =>
    show readLongLiteral (List.replicate run '\'' ++ '\'' :: '\'' :: '\'' :: rest) = _
    rw [closing_quotes_replicate, readLongLiteral, closingQuotes_replicate (by omega) hrest,
      List.append_nil]
  | cons c s ih =>
    rw [List.forall_mem_cons] at h
    unfold longestRun at hrun
    split_ifs at hrun with hquote
    · subst hquote
      have hnext := ih (run + 1) h.2 hrun (le_longestRun _ _ _)
      rw [List.replicate_succ, List.cons_append, List.cons_append, ← replicate_append_cons,
        ← replicate_append_cons] at hnext
      exact hnext
    · have hzero := ih 0 h.2 (by omega) (le_longestRun _ _ _)
      apply readLongLiteral_quotes (by omega) (by simpa using hquote)
      have hplain : isPlain c = true ∨ c = '\n' := by
        by_cases hline : c = '\n'
        · exact .inr hline
        · exact .inl (isPlain_of_needsEscape_eq_false h.1 hline)
      exact readLongLiteral_cons hplain (ne_return_of_needsEscape_eq_false h.1)
        (fun h => absurd h hquote) hzero

/-! ## All strings -/

/-- The line end that is written in front is the one that is dropped. -/
theorem dropLineEnd_leadingLineEnd (hline : t.head? = some '\n' → '\n' ∈ s)
    (hreturn : t.head? ≠ some '\r') : dropLineEnd (leadingLineEnd s ++ t) = t := by
  unfold leadingLineEnd
  split_ifs with hlines
  · rfl
  · have hnone : t.head? ≠ some '\n' := by
      intro h
      exact hlines (by simpa using hline h)
    show dropLineEnd t = t
    unfold dropLineEnd
    split <;> simp_all

/-- What is escaped into a long basic string begins with a line end only if the text has one, and never with
a carriage return. -/
theorem head?_escaped (s : List Char) :
    ((escaped true 0 s ++ '"' :: t).head? = some '\n' → '\n' ∈ s) ∧
      (escaped true 0 s ++ '"' :: t).head? ≠ some '\r' := by
  cases s with
  | nil => simp [escaped]
  | cons c s =>
    unfold escaped
    split_ifs with hquote
    · simp
    · simp
    · obtain ⟨heq, -, hreturn, -⟩ | ⟨escape, heq, -⟩ := escapedChar_cases true c []
      · rw [heq]
        refine ⟨fun h => ?_, by simpa using hreturn⟩
        exact List.mem_cons.mpr (.inl (Option.some.inj h).symm)
      · simp [heq]

/-- What is written as a basic string is read back. -/
theorem readString_basic (hrest : rest.head? ≠ some '"') :
    readString (StringForm.basic.write s ++ rest) = some (s, rest) := by
  have hopen : StringForm.basic.write s ++ rest = '"' :: (escaped false 0 s ++ '"' :: rest) := by
    simp [StringForm.write]
  rw [hopen, readString, readBasic_escaped]
  -- Only the empty string has two quotes in a row here, and the third would have to come after it.
  rintro u hu
  cases s with
  | nil => simp_all [escaped]
  | cons c s =>
    unfold escaped at hu
    split_ifs at hu with hquote
    · simp_all
    · simp at hu
    · apply head?_escapedChar_append false hquote
      rw [List.append_assoc] at hu
      rw [hu]
      rfl

/-- What is written as a long basic string is read back. -/
theorem readString_longBasic (hrest : rest.head? ≠ some '"') :
    readString (StringForm.longBasic.write s ++ rest) = some (s, rest) := by
  obtain ⟨hline, hreturn⟩ := head?_escaped (t := '"' :: '"' :: rest) s
  have hread := readLongBasic_escaped 0 s (by omega) hrest
  simpa [StringForm.write, readString, dropLineEnd_leadingLineEnd hline hreturn] using hread

/-- What is written as a long literal string is read back if it needs no escapes and has no long run of
quotation marks. -/
theorem readString_longLiteral (h : ∀ c ∈ s, needsEscape c = false) (hrun : longestRun '\'' 0 s ≤ 2)
    (hrest : rest.head? ≠ some '\'') :
    readString (StringForm.longLiteral.write s ++ rest) = some (s, rest) := by
  have hread := readLongLiteral_append 0 h hrun hrest
  have hline : (s ++ '\'' :: '\'' :: '\'' :: rest).head? = some '\n' → '\n' ∈ s := by
    cases s <;> simp_all
  have hreturn : (s ++ '\'' :: '\'' :: '\'' :: rest).head? ≠ some '\r' := by
    cases s with
    | nil => simp
    | cons c s => simpa using ne_return_of_needsEscape_eq_false (h c List.mem_cons_self)
  simpa [StringForm.write, readString, dropLineEnd_leadingLineEnd hline hreturn] using hread

/-- What is written as a literal string is read back if it is plain and has no quotation mark. -/
theorem readString_literal (hne : s ≠ []) (h : ∀ c ∈ s, c ≠ '\'' ∧ isPlain c = true) :
    readString (StringForm.literal.write s ++ rest) = some (s, rest) := by
  cases s with
  | nil => exact absurd rfl hne
  | cons c s =>
    have hread := readLiteral_append rest h
    have hopen : StringForm.literal.write (c :: s) ++ rest =
        '\'' :: (c :: s ++ '\'' :: rest) := by
      simp [StringForm.write]
    rw [hopen, readString]
    · exact hread
    · rintro u hu
      simp_all

/-- A written string is read back, whatever stands after it other than a further quote. -/
theorem readString_writeString (text : String) (hquote : rest.head? ≠ some '"')
    (happ : rest.head? ≠ some '\'') :
    readString (writeString text ++ rest) = some (text.toList, rest) := by
  unfold writeString StringForm.of
  dsimp only
  split_ifs with hbasic hliteral hlong hlongLiteral hlines
  · exact readString_basic hquote
  · simp only [Bool.and_eq_true, Bool.not_eq_true', List.any_eq_false, List.contains_eq_mem,
      decide_eq_false_iff_not] at hliteral
    obtain ⟨⟨hescape, hnone⟩, hlines⟩ := hliteral
    apply readString_literal
    · intro hnil
      simp [hnil] at hbasic
    · intro c hc
      have hc' : needsEscape c = false := by simpa using hescape c hc
      have hline : c ≠ '\n' := fun h => hlines (h ▸ hc)
      exact ⟨fun h => hnone (h ▸ hc), isPlain_of_needsEscape_eq_false hc' hline⟩
  · exact readString_longBasic hquote
  · simp only [Bool.and_eq_true, Bool.not_eq_true', List.any_eq_false, decide_eq_true_eq,
      Bool.not_eq_true] at hlongLiteral
    exact readString_longLiteral hlongLiteral.1 hlongLiteral.2 happ
  · exact readString_longBasic hquote
  · exact readString_basic hquote

end PackageLock.Toml
