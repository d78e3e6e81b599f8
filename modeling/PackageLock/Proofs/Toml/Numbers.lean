import PackageLock.Proofs.Version.Written
import PackageLock.Toml.Document

/-!
# Numbers read back

What begins with a digit may be a date, a time, a floating-point number or an integer, and is tried in this
order. A line that ends after the decimal digits of a number can only be the last of them.
Main statement: `readScalar_toDigits`.
-/

set_option autoImplicit false

namespace PackageLock.Toml

variable {s rest digits : List Char} {c : Char} {n : Nat}

/-! ## Digits -/

/-- A digit is none of the other characters. -/
theorem ne_of_isDigit {d : Char} (hd : d.isDigit = true) (hc : c.isDigit = false) : d ≠ c := by
  rintro rfl
  rw [hd] at hc
  cases hc

/-- Digits without underscores are joined as they are. -/
theorem joinDigits?_of_isDigit (hne : digits ≠ []) (hdigits : ∀ d ∈ digits, d.isDigit = true) :
    joinDigits? digits = some digits := by
  have hplain (d : Char) (hd : d ∈ digits) : d ≠ '_' := ne_of_isDigit (hdigits d hd) (by decide)
  clear hdigits
  fun_induction joinDigits? digits with
  | case1 => exact absurd rfl hne
  | case2 => simp at hplain
  | case3 => rfl
  | case4 => simp at hplain
  | case5 c hc d rest hd ih =>
    rw [ih (by simp) (fun e he => hplain e (List.mem_cons_of_mem c he))]
    rfl

/-- The value of decimal digits is the one of the library. -/
theorem valueInBase_of_isDigit (hdigits : ∀ d ∈ digits, d.isDigit = true) :
    valueInBase 10 digits = Nat.ofDigitChars 10 digits 0 := by
  rw [valueInBase, Nat.ofDigitChars_eq_foldl]
  apply List.foldl_ext
  intro value d hd
  have hrange : '0' ≤ d ∧ d ≤ '9' := by
    simpa [Char.isDigit, Char.le_def] using hdigits d hd
  rw [hexValue?, if_pos hrange]
  rfl

/-- Digits are read up to the line end. -/
theorem readDigits_of_isDigit (hne : digits ≠ []) (hdigits : ∀ d ∈ digits, d.isDigit = true) :
    readDigits Char.isDigit (digits ++ '\n' :: rest) = some (digits, '\n' :: rest) := by
  have hrun : ∀ d ∈ digits, (d.isDigit || d == '_') = true := by
    intro d hd
    rw [hdigits d hd, Bool.true_or]
  have hstops : Text.Stops (fun d => d.isDigit || d == '_') ('\n' :: rest) := by
    rw [Text.stops_cons_iff]
    decide
  simp only [readDigits]
  rw [Text.takeWhile_append_of_stops hrun hstops, Text.dropWhile_append_of_stops hrun hstops,
    joinDigits?_of_isDigit hne hdigits]
  rfl

/-- The digits of a number are read as a decimal. -/
theorem readDecimal_toDigits (n : Nat) (rest : List Char) :
    readDecimal (Nat.toDigits 10 n ++ '\n' :: rest) = some (Nat.toDigits 10 n, '\n' :: rest) := by
  have hdigits : ∀ d ∈ Nat.toDigits 10 n, d.isDigit = true := fun d => Version.isDigit_of_mem_toDigits
  have hzero : ¬ ((Nat.toDigits 10 n).head? = some '0' ∧ 1 < (Nat.toDigits 10 n).length) := by
    rintro ⟨hhead, hlength⟩
    obtain ⟨ds, hds⟩ := List.head?_eq_some_iff.mp hhead
    rw [hds, eq_nil_of_toDigits_eq_zero_cons hds] at hlength
    cases hlength with
    | step h => cases h
  rw [readDecimal, readDigits_of_isDigit Nat.toDigits_ne_nil hdigits]
  simpa using hzero

/-! ## No date and no time -/

/-- Only digits are left of the line. -/
def OnlyDigits (s : List Char) : Prop :=
  ∃ digits rest, s = digits ++ '\n' :: rest ∧ ∀ d ∈ digits, d.isDigit = true

/-- After a digit there are only digits as before. -/
theorem OnlyDigits.of_cons (h : OnlyDigits (c :: s)) (hc : c.isDigit = true) : OnlyDigits s := by
  obtain ⟨digits, rest, heq, hdigits⟩ := h
  cases digits with
  | nil =>
    cases heq
    cases hc
  | cons d digits =>
    cases heq
    exact ⟨digits, rest, rfl, fun d hd => hdigits d (List.mem_cons_of_mem _ hd)⟩

/-- After a number that is taken there are only digits as before. -/
theorem OnlyDigits.of_takeNumber {value count : Nat} (h : OnlyDigits s)
    (hs : takeNumber value count s = some (n, rest)) : OnlyDigits rest := by
  induction count generalizing value s with
  | zero =>
    cases hs
    exact h
  | succ count ih =>
    cases s with
    | nil => cases hs
    | cons c s =>
      rw [takeNumber] at hs
      split_ifs at hs with hc
      exact ih (h.of_cons hc) hs

/-- A line of digits begins with a digit or with the line end. -/
theorem OnlyDigits.head_cases (h : OnlyDigits (c :: s)) : c.isDigit = true ∨ c = '\n' := by
  obtain ⟨digits, rest, heq, hdigits⟩ := h
  cases digits with
  | nil => exact .inr (List.cons.inj heq).1
  | cons d digits =>
    cases heq
    exact .inl (hdigits c List.mem_cons_self)

/-- From a line of digits nothing else is taken. -/
theorem OnlyDigits.takeChar_eq_none (h : OnlyDigits s) (hc : c.isDigit = false) (hline : c ≠ '\n') :
    takeChar c s = none := by
  cases s with
  | nil => rfl
  | cons d s =>
    apply if_neg
    rintro rfl
    obtain hd | hd := h.head_cases
    · exact ne_of_isDigit hd hc rfl
    · exact hline hd

/-- A line of digits begins with no date. -/
theorem OnlyDigits.takeDate_eq_none (h : OnlyDigits s) : takeDate s = none := by
  unfold takeDate
  cases hs : takeNumber 0 4 s with
  | none => rfl
  | some answer =>
    simp [(h.of_takeNumber hs).takeChar_eq_none (c := '-') (by decide) (by decide)]

/-- A line of digits begins with no time. -/
theorem OnlyDigits.takeTime_eq_none (h : OnlyDigits s) : takeTime s = none := by
  unfold takeTime takeField
  cases hs : takeNumber 0 2 s with
  | none => rfl
  | some answer =>
    have hnone := (h.of_takeNumber hs).takeChar_eq_none (c := ':') (by decide) (by decide)
    simp only [Option.bind_eq_bind, Option.bind_some]
    split_ifs
    · simp [hnone]
    · rfl

/-- A line of digits is read as no date and time. -/
theorem OnlyDigits.readDatetime_eq_none (h : OnlyDigits s) : readDatetime s = none := by
  rw [readDatetime, h.takeDate_eq_none, h.takeTime_eq_none]
  rfl

/-! ## An integer -/

/-- A written number begins with a digit. -/
theorem exists_cons_of_toDigits_append (n : Nat) (rest : List Char) :
    ∃ d ds, Nat.toDigits 10 n ++ rest = d :: ds ∧ d.isDigit = true := by
  obtain ⟨d, ds, h⟩ := List.exists_cons_of_ne_nil (Nat.toDigits_ne_nil (b := 10) (n := n))
  exact ⟨d, ds ++ rest, by rw [h]; rfl, Version.isDigit_of_mem_toDigits (n := n) (by simp [h])⟩

/-- Before a digit there is no sign to cut. -/
theorem cutSign_of_isDigit (hc : c.isDigit = true) : cutSign (c :: s) = (false, c :: s) := by
  unfold cutSign
  split <;> simp_all

/-- What begins with a digit is no special float. -/
theorem readSpecialFloat_of_isDigit (hc : c.isDigit = true) :
    readSpecialFloat false (c :: s) = none := by
  unfold readSpecialFloat
  split <;> simp_all

/-- A written number without a fraction is no float. -/
theorem readFloat_toDigits (n : Nat) (rest : List Char) :
    readFloat (Nat.toDigits 10 n ++ '\n' :: rest) = none := by
  obtain ⟨d, ds, hcons, hd⟩ := exists_cons_of_toDigits_append n ('\n' :: rest)
  have hdecimal := readDecimal_toDigits n rest
  rw [hcons] at hdecimal ⊢
  simp only [readFloat, cutSign_of_isDigit hd, readSpecialFloat_of_isDigit hd, hdecimal]
  rfl

/-- A written number and its line end are a line of digits. -/
theorem onlyDigits_toDigits (n : Nat) (rest : List Char) :
    OnlyDigits (Nat.toDigits 10 n ++ '\n' :: rest) :=
  ⟨_, rest, rfl, fun _ => Version.isDigit_of_mem_toDigits⟩

/-- A written number below the bound is read as this integer. -/
theorem readInteger_toDigits (rest : List Char) (hn : (n : Int) < integerBound) :
    readInteger (Nat.toDigits 10 n ++ '\n' :: rest) = some ((n : Int), '\n' :: rest) := by
  obtain ⟨d, ds, hcons, hd⟩ := exists_cons_of_toDigits_append n ('\n' :: rest)
  have hline := onlyDigits_toDigits n rest
  have hdecimal := readDecimal_toDigits n rest
  have hvalue := valueInBase_of_isDigit fun d => Version.isDigit_of_mem_toDigits (n := n)
  rw [Nat.ofDigitChars_ten_toDigits] at hvalue
  have hin : inInt64 (n : Int) = true := by
    have hpos : 0 ≤ integerBound := by decide
    simp only [inInt64, Bool.and_eq_true, decide_eq_true_eq]
    omega
  rw [hcons] at hdecimal hline ⊢
  -- No letter follows a leading zero, so no other base is meant.
  have hsecond (x : Char) (t : List Char) (hx : x.isDigit = false ∧ x ≠ '\n') :
      d :: ds ≠ '0' :: x :: t := by
    intro heq
    obtain ⟨rfl, rfl⟩ := List.cons.inj heq
    obtain hdigit | hend := (hline.of_cons hd).head_cases
    · exact ne_of_isDigit hdigit hx.1 rfl
    · exact hx.2 hend
  rw [readInteger]
  · rw [cutSign_of_isDigit hd]
    simp only [hdecimal, Option.bind_eq_bind]
    -- A step of its own: inside simp the kernel would compute with the bound.
    rw [Option.bind_some]
    dsimp only
    rw [hvalue, if_neg Bool.false_ne_true, integer?, if_pos hin]
  · intro t
    exact hsecond 'x' t (by decide)
  · intro t
    exact hsecond 'o' t (by decide)
  · intro t
    exact hsecond 'b' t (by decide)

/-- The digits of a number that fits are read as that number. -/
theorem readScalar_toDigits (rest : List Char) (hn : (n : Int) < integerBound) :
    readScalar (Nat.toDigits 10 n ++ '\n' :: rest) = some (.integer n, '\n' :: rest) := by
  have hdate := (onlyDigits_toDigits n rest).readDatetime_eq_none
  have hfloat := readFloat_toDigits n rest
  have hinteger := readInteger_toDigits rest hn
  obtain ⟨d, ds, hcons, hd⟩ := exists_cons_of_toDigits_append n ('\n' :: rest)
  rw [hcons] at hdate hfloat hinteger ⊢
  have hne (x : Char) (hx : x.isDigit = false) : d ≠ x := ne_of_isDigit hd hx
  rw [readScalar]
  · rw [hdate, hfloat, hinteger]
    rfl
  · rintro t ⟨⟩
    exact hne 't' (by decide) rfl
  · rintro t ⟨⟩
    exact hne 'f' (by decide) rfl
  · rintro t ⟨⟩
    exact hne '"' (by decide) rfl
  · rintro t ⟨⟩
    exact hne '\'' (by decide) rfl

end PackageLock.Toml
