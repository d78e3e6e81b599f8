import PackageLock.Proofs.Text.Reading
import PackageLock.Version

/-!
# Versions as they are written

Every version that can be read has one written form, `Version.render`: numbers below the bound without
leading zeros, then identifiers of letters, digits and hyphens. Main statement: a text is read as a version
if and only if it is the written form of that version and the version is made of such numbers and
identifiers (`Version.read_eq_ok_iff`).
-/

set_option autoImplicit false

namespace PackageLock

open Text (Stops stops_nil stops_cons_iff bind_eq_ok_iff)

/-! ## Numbers -/

/-- A digit is the character of its value. -/
theorem digitChar_of_isDigit {d : Char} (h : d.isDigit = true) :
    d.toNat - 48 < 10 ∧ (d.toNat - 48).digitChar = d := by
  have hrange : 48 ≤ d.toNat ∧ d.toNat ≤ 57 := by
    simpa [Char.isDigit, UInt32.le_iff_toNat_le] using h
  have hlt : d.toNat - 48 < 10 := by omega
  refine ⟨hlt, Char.toNat_inj.mp ?_⟩
  rw [Nat.toNat_digitChar_of_lt_ten hlt]
  omega

/-- A positive number is not written with a leading zero. -/
theorem head?_toDigits_ne_zero {n : Nat} (h : 0 < n) : (Nat.toDigits 10 n).head? ≠ some '0' := by
  induction n using Nat.strong_induction_on with
  | _ n ih =>
    by_cases hlt : n < 10
    · rw [Nat.toDigits_of_lt_base hlt]
      simp only [List.head?_cons, ne_eq, Option.some.injEq, Nat.digitChar_eq_zero]
      omega
    · rw [Nat.toDigits_of_base_le (by decide) (by omega), List.head?_append]
      have hhead := ih (n / 10) (by omega) (by omega)
      cases hdigits : Nat.toDigits 10 (n / 10) with
      | nil => exact absurd hdigits Nat.toDigits_ne_nil
      | cons d ds => simpa [hdigits] using hhead

/-- A number that is written with a leading zero is zero. -/
theorem eq_nil_of_toDigits_eq_zero_cons {n : Nat} {ds : List Char}
    (h : Nat.toDigits 10 n = '0' :: ds) : ds = [] := by
  rcases Nat.eq_zero_or_pos n with rfl | hpos
  · rw [Nat.toDigits_zero] at h
    exact (List.cons.inj h).2.symm
  · have hhead := head?_toDigits_ne_zero hpos
    rw [h] at hhead
    exact absurd rfl hhead

/-- Digits are the written form of their value, unless they begin with a zero that could be left out. -/
theorem toDigits_ofDigitChars {digits : List Char} (hne : digits ≠ [])
    (hdigits : ∀ d ∈ digits, d.isDigit = true) (hzero : ∀ ds, digits = '0' :: ds → ds = []) :
    Nat.toDigits 10 (Nat.ofDigitChars 10 digits 0) = digits := by
  induction digits using List.reverseRecOn with
  | nil => exact absurd rfl hne
  | append_singleton digits d ih =>
    obtain ⟨hlt, hd⟩ := digitChar_of_isDigit (hdigits d (by simp))
    have hlast : Nat.toDigits 10 (d.toNat - 48) = [d] := by
      rw [Nat.toDigits_of_lt_base hlt, hd]
    rw [Nat.ofDigitChars_append, Nat.ofDigitChars_cons, Nat.ofDigitChars_nil]
    cases digits with
    | nil => simpa using hlast
    | cons first rest =>
      have hfirst : first ≠ '0' := by
        rintro rfl
        simpa using hzero _ rfl
      have hfront := ih (by simp) (fun c hc => hdigits c (List.mem_append_left _ hc))
        (fun ds hds => absurd (List.cons.inj hds).1 hfirst)
      have hpos : 0 < Nat.ofDigitChars 10 (first :: rest) 0 := by
        rw [Nat.pos_iff_ne_zero]
        intro hnil
        rw [hnil, Nat.toDigits_zero] at hfront
        exact hfirst (List.cons.inj hfront).1.symm
      show Nat.toDigits 10 (10 * _ + (d.toNat - 48)) = _
      rw [← Nat.toDigits_append_toDigits (by decide) hpos hlt, hfront, hlast]

namespace Version

variable {part part' : Part} {s rest : List Char} {n : Nat}

/-- The value of digits is the one of the library. -/
theorem valueOfDigits_eq (digits : List Char) :
    valueOfDigits digits = Nat.ofDigitChars 10 digits 0 := by
  rw [Nat.ofDigitChars_eq_foldl]
  rfl

/-- A number is written in digits. -/
theorem isDigit_of_mem_toDigits {c : Char} (h : c ∈ Nat.toDigits 10 n) : c.isDigit = true :=
  Nat.isDigit_of_mem_toDigits (by decide) (by decide) h

/-- A number is read if it is below the bound and is written without leading zeros, up to where no digit
follows. -/
theorem readNumber_eq_ok_iff : readNumber part s = .ok (n, rest) ↔
    n < numberBound ∧ s = Nat.toDigits 10 n ++ rest ∧ Stops Char.isDigit rest := by
  constructor
  · intro h
    have hcut := List.takeWhile_append_dropWhile (p := Char.isDigit) (l := s)
    have hdigits : ∀ c ∈ s.takeWhile Char.isDigit, c.isDigit = true := fun c => List.mem_takeWhile_imp
    have hstops := Text.stops_dropWhile Char.isDigit s
    unfold readNumber at h
    cases htake : s.takeWhile Char.isDigit with
    | nil =>
      rw [htake] at h
      cases hdrop : s.dropWhile Char.isDigit <;> simp [hdrop] at h
    | cons d ds =>
      rw [htake] at h hcut hdigits
      simp only at h
      split at h
      · cases h
      · rename_i leading
        split at h
        · cases h
        · rename_i small
          cases h
          rw [valueOfDigits_eq] at small ⊢
          have hzero : ∀ ds', d :: ds = '0' :: ds' → ds' = [] := by
            rintro _ ⟨⟩
            simpa using leading
          rw [toDigits_ofDigitChars (by simp) hdigits hzero]
          exact ⟨by omega, hcut.symm, hstops⟩
  · rintro ⟨hlt, rfl, hstops⟩
    have htake := Text.takeWhile_append_of_stops (fun c => isDigit_of_mem_toDigits (n := n)) hstops
    have hdrop := Text.dropWhile_append_of_stops (fun c => isDigit_of_mem_toDigits (n := n)) hstops
    have hvalue : valueOfDigits (Nat.toDigits 10 n) = n := by
      rw [valueOfDigits_eq, Nat.ofDigitChars_ten_toDigits]
    rw [readNumber, htake, hdrop]
    cases hdigits : Nat.toDigits 10 n with
    | nil => exact absurd hdigits Nat.toDigits_ne_nil
    | cons d ds =>
      have leading : d = '0' → ds = [] := by
        rintro rfl
        exact eq_nil_of_toDigits_eq_zero_cons hdigits
      rw [hdigits] at hvalue
      simp only [hvalue]
      rw [if_neg (by simpa using leading), if_neg (by omega)]

/-- A written number is read up to where no digit follows. -/
theorem readNumber_append (part : Part) (h : n < numberBound) (hrest : Stops Char.isDigit rest) :
    readNumber part (Nat.toDigits 10 n ++ rest) = .ok (n, rest) :=
  readNumber_eq_ok_iff.mpr ⟨h, rfl, hrest⟩

/-- A number ends before a point. -/
theorem stops_point (s : List Char) : Stops Char.isDigit ('.' :: s) :=
  stops_cons_iff.mpr (by decide)

/-- A point is read if it is there. -/
theorem readPoint_eq_ok_iff : readPoint part s = .ok rest ↔ s = '.' :: rest := by
  cases s with
  | nil => simp [readPoint]
  | cons c s => by_cases hc : c = '.' <;> simp [readPoint, hc]

/-- The end is read if nothing is left. -/
theorem readEnd_eq_ok_iff : readEnd part s = .ok () ↔ s = [] := by
  cases s <;> simp [readEnd]

end Version

/-! ## Identifiers -/

/-- The text of an identifier: letters, digits and hyphens, at least one of them. -/
def IsIdentifierText (text : List Char) : Prop :=
  text ≠ [] ∧ ∀ c ∈ text, Version.isIdentifierChar c = true

/-- A word is the text of an identifier that is no number. -/
def Identifier.Proper : Identifier → Prop
  | .numeric _ => True
  | .word text => IsIdentifierText text.toList ∧ ∃ c ∈ text.toList, c.isDigit = false

/-- Digits are characters of identifiers. -/
theorem isIdentifierChar_of_isDigit {c : Char} (h : c.isDigit = true) :
    Version.isIdentifierChar c = true := by
  simp [Version.isIdentifierChar, Char.isAlphanum, h]

/-- A point is no character of identifiers. -/
theorem not_isIdentifierChar_point : Version.isIdentifierChar '.' = false := by
  decide

/-- A numeric identifier is written in digits. -/
theorem Identifier.render_numeric (n : Nat) :
    (Identifier.numeric n).render.toList = Nat.toDigits 10 n := by
  simp [Identifier.render]

/-- The written form of a proper identifier is the text of one. -/
theorem Identifier.Proper.isIdentifierText {identifier : Identifier} (h : identifier.Proper) :
    IsIdentifierText identifier.render.toList := by
  cases identifier with
  | numeric n =>
    rw [render_numeric]
    exact ⟨Nat.toDigits_ne_nil, fun c hc =>
      isIdentifierChar_of_isDigit (Version.isDigit_of_mem_toDigits hc)⟩
  | word text => exact h.1

namespace Version

variable {part part' : Part} {s rest field : List Char} {identifier : Identifier}
  {pre : List Identifier} {build : List String}

/-- An identifier of a pre-release is read from its written form alone. -/
theorem readPreIdentifier_eq_ok_iff (hfield : ∀ c ∈ field, isIdentifierChar c = true) :
    readPreIdentifier field = .ok identifier ↔
      identifier.Proper ∧ field = identifier.render.toList := by
  constructor
  · intro h
    unfold readPreIdentifier at h
    split at h
    · cases h
    · rename_i c cs
      split at h
      · rename_i hdigits
        split at h
        · cases h
        · rename_i leading
          cases h
          refine ⟨trivial, ?_⟩
          rw [Identifier.render_numeric, valueOfDigits_eq]
          have hzero : ∀ ds, c :: cs = '0' :: ds → ds = [] := by
            rintro _ ⟨⟩
            simpa using leading
          exact (toDigits_ofDigitChars (by simp) (List.all_eq_true.mp hdigits) hzero).symm
      · rename_i hdigits
        cases h
        refine ⟨⟨⟨by simp, by simpa using hfield⟩, ?_⟩, by simp [Identifier.render]⟩
        rw [String.toList_ofList]
        by_contra hall
        push Not at hall
        exact hdigits (List.all_eq_true.mpr fun d hd => by simpa using hall d hd)
  · rintro ⟨proper, rfl⟩
    cases identifier with
    | numeric n =>
      rw [Identifier.render_numeric]
      cases hdigits : Nat.toDigits 10 n with
      | nil => exact absurd hdigits Nat.toDigits_ne_nil
      | cons d ds =>
        have hall : (d :: ds).all Char.isDigit = true := by
          rw [← hdigits]
          exact List.all_eq_true.mpr fun c => isDigit_of_mem_toDigits
        have leading : d = '0' → ds = [] := by
          rintro rfl
          exact eq_nil_of_toDigits_eq_zero_cons hdigits
        have hvalue : valueOfDigits (d :: ds) = n := by
          rw [← hdigits, valueOfDigits_eq, Nat.ofDigitChars_ten_toDigits]
        rw [readPreIdentifier, if_pos hall, if_neg (by simpa using leading), hvalue]
    | word text =>
      obtain ⟨⟨hne, _⟩, d, hd, hnot⟩ := proper
      rw [show (Identifier.word text).render = text from rfl]
      cases htext : text.toList with
      | nil => exact absurd htext hne
      | cons c cs =>
        rw [htext] at hd
        have hall : ¬ (c :: cs).all Char.isDigit = true := by
          intro hall
          rw [List.all_eq_true.mp hall d hd] at hnot
          cases hnot
        rw [readPreIdentifier, if_neg hall, ← htext, String.ofList_toList]

/-- An identifier of a build is read as its text. -/
theorem readBuildIdentifier_eq_ok_iff {text : String}
    (hfield : ∀ c ∈ field, isIdentifierChar c = true) :
    readBuildIdentifier field = .ok text ↔ IsIdentifierText text.toList ∧ field = text.toList := by
  unfold readBuildIdentifier
  split
  · rename_i hempty
    simp_all [IsIdentifierText]
  · rename_i hne
    rw [Except.ok.injEq, ← String.toList_inj, String.toList_ofList]
    constructor
    · rintro rfl
      exact ⟨⟨by simpa using hne, hfield⟩, rfl⟩
    · rintro ⟨_, h⟩
      exact h

/-! ## Pre-release and build

Both are runs of identifiers between points behind a character of their own. They are read and written in
one way, with that character and the kind of the identifiers as arguments.
-/

/-- The characters of a dotted run of identifiers. -/
def inRun (c : Char) : Bool :=
  isIdentifierChar c || c == '.'

section Suffix

variable {α : Type} {separator : Char} {kind : Part} {readItem : List Char → Except Malformed α}
  {proper : α → Prop} {written : α → List Char} {items : List α}

/-- A run of items as it is written behind its separator. Where there is no item, there is no separator. -/
def suffix (separator : Char) (written : α → List Char) : List α → List Char
  | [] => []
  | first :: items => separator :: ['.'].intercalate ((first :: items).map written)

/-- Of no items nothing is written. -/
@[simp]
theorem suffix_nil : suffix separator written [] = [] := rfl

/-- Items are written with points between them behind the separator. -/
@[simp]
theorem suffix_cons (first : α) (items : List α) :
    suffix separator written (first :: items) =
      separator :: ['.'].intercalate ((first :: items).map written) := rfl

/-- Reads a run of items if its separator stands at the beginning, and says where reading has come to. -/
def readSuffix (separator : Char) (kind : Part) (readItem : List Char → Except Malformed α) (part : Part) :
    List Char → Except Malformed (List α × Part × List Char)
  | [] => .ok ([], part, [])
  | c :: s =>
    if c = separator then do
      let (parts, rest) := identifierFields s
      let items ← parts.mapM readItem
      return (items, kind, rest)
    else
      .ok ([], part, c :: s)

/-- Parts that are made of the characters of identifiers are cut where they were joined. -/
theorem identifierFields_of_dotted {parts : List (List Char)} (hne : parts ≠ [])
    (hparts : ∀ part ∈ parts, ∀ c ∈ part, isIdentifierChar c = true) (hrest : Stops inRun rest) :
    identifierFields (['.'].intercalate parts ++ rest) = (parts, rest) := by
  have hrun : ∀ c ∈ ['.'].intercalate parts, inRun c = true := by
    intro c hc
    rcases Text.mem_intercalate hc with rfl | ⟨part, hpart, hc⟩
    · decide
    · simp [inRun, hparts part hpart c hc]
  have hpoint : ∀ part ∈ parts, '.' ∉ part := by
    intro part hpart hmem
    have hchar := hparts part hpart '.' hmem
    rw [not_isIdentifierChar_point] at hchar
    cases hchar
  have htake := Text.takeWhile_append_of_stops hrun hrest
  have hdrop := Text.dropWhile_append_of_stops hrun hrest
  unfold inRun at htake hdrop
  rw [identifierFields, htake, hdrop, Text.fields_intercalate hpoint hne]

/-- What is cut into parts is these parts with points between them, and each part is made of the characters
of identifiers. -/
theorem identifierFields_dotted (s : List Char) :
    (identifierFields s).1 ≠ [] ∧
      (∀ part ∈ (identifierFields s).1, ∀ c ∈ part, isIdentifierChar c = true) ∧
      s = ['.'].intercalate (identifierFields s).1 ++ (identifierFields s).2 := by
  refine ⟨Text.fields_ne_nil, ?_, ?_⟩
  · intro part hpart c hc
    obtain ⟨hmem, hpoint⟩ := Text.mem_of_mem_fields hpart hc
    have hrun := List.mem_takeWhile_imp hmem
    simpa [show c ≠ '.' by simpa using hpoint] using hrun
  · simp only [identifierFields]
    rw [Text.intercalate_fields, List.takeWhile_append_dropWhile]

/-- What is read as a run of items is the written form of these items, each of them a proper one. -/
theorem readSuffix_eq_ok
    (hitem : ∀ field, (∀ c ∈ field, isIdentifierChar c = true) →
      ∀ item, readItem field = .ok item ↔ proper item ∧ field = written item)
    (h : readSuffix separator kind readItem part s = .ok (items, part', rest)) :
    (∀ item ∈ items, proper item) ∧ s = suffix separator written items ++ rest := by
  cases s with
  | nil =>
    cases h
    exact ⟨by simp, rfl⟩
  | cons c s =>
    rw [readSuffix] at h
    split at h
    · rename_i here
      obtain ⟨hne, hparts, hs⟩ := identifierFields_dotted s
      obtain ⟨found, hfound, h⟩ := bind_eq_ok_iff.mp h
      cases h
      obtain ⟨hproper, hmap⟩ := (Text.mapM_eq_ok_iff_map fun field hfield =>
        hitem field (hparts field hfield)).mp hfound
      rw [hmap] at hs hne
      refine ⟨hproper, ?_⟩
      cases items with
      | nil => exact absurd rfl hne
      | cons first items => exact List.cons_eq_cons.mpr ⟨here, hs⟩
    · cases h
      exact ⟨by simp, rfl⟩

/-- The written form of proper items is read as these items, if the run ends where they do and no
separator follows where there is no item. -/
theorem readSuffix_of_proper (part : Part)
    (hitem : ∀ field, (∀ c ∈ field, isIdentifierChar c = true) →
      ∀ item, readItem field = .ok item ↔ proper item ∧ field = written item)
    (hwritten : ∀ item, proper item → ∀ c ∈ written item, isIdentifierChar c = true)
    (hproper : ∀ item ∈ items, proper item) (hrest : Stops inRun rest)
    (hseparator : rest.head? ≠ some separator) :
    ∃ part', readSuffix separator kind readItem part (suffix separator written items ++ rest) =
      .ok (items, part', rest) := by
  cases items with
  | nil =>
    refine ⟨part, ?_⟩
    cases rest with
    | nil => rfl
    | cons c rest =>
      have there : c ≠ separator := by simpa using hseparator
      rw [suffix_nil, List.nil_append, readSuffix, if_neg there]
  | cons first items =>
    have hparts : ∀ field ∈ (first :: items).map written, ∀ c ∈ field, isIdentifierChar c = true := by
      intro field hfield
      obtain ⟨item, hmem, rfl⟩ := List.mem_map.mp hfield
      exact hwritten item (hproper item hmem)
    have hread := (Text.mapM_eq_ok_iff_map fun field hfield => hitem field (hparts field hfield)).mpr
      ⟨hproper, rfl⟩
    refine ⟨kind, ?_⟩
    rw [suffix_cons, List.cons_append, readSuffix, if_pos rfl,
      identifierFields_of_dotted (by simp) hparts hrest]
    exact bind_eq_ok_iff.mpr ⟨_, hread, rfl⟩

end Suffix

/-- A pre-release as it is written after the numbers. -/
def preSuffix (pre : List Identifier) : List Char :=
  suffix '-' (fun identifier => identifier.render.toList) pre

/-- A build as it is written at the end of a version. -/
def buildSuffix (build : List String) : List Char :=
  suffix '+' String.toList build

/-- A pre-release is read as a run of its identifiers behind a hyphen. -/
theorem readPre_eq_readSuffix (part : Part) (s : List Char) :
    readPre part s = readSuffix '-' .preRelease readPreIdentifier part s := by
  cases s with
  | nil => rfl
  | cons c s => by_cases here : c = '-' <;> simp [readPre, readSuffix, here, pure, Except.pure]

/-- A build is read as a run of its identifiers behind a plus sign. -/
theorem readBuild_eq_readSuffix (part : Part) (s : List Char) :
    readBuild part s = readSuffix '+' .build readBuildIdentifier part s := by
  cases s with
  | nil => rfl
  | cons c s => by_cases here : c = '+' <;> simp [readBuild, readSuffix, here, pure, Except.pure]

/-- The run before a build ends where the build begins, or where the text ends. -/
theorem stops_buildSuffix (build : List String) : Stops inRun (buildSuffix build) := by
  cases build with
  | nil => exact stops_nil
  | cons first build => exact stops_cons_iff.mpr (by decide)

/-- What is read as a pre-release is the written form of that pre-release. -/
theorem readPre_eq_ok (h : readPre part s = .ok (pre, part', rest)) :
    (∀ identifier ∈ pre, identifier.Proper) ∧ s = preSuffix pre ++ rest := by
  rw [readPre_eq_readSuffix] at h
  exact readSuffix_eq_ok (fun _ hfield _ => readPreIdentifier_eq_ok_iff hfield) h

/-- What is read as a build is the written form of that build. -/
theorem readBuild_eq_ok (h : readBuild part s = .ok (build, part', rest)) :
    (∀ text ∈ build, IsIdentifierText text.toList) ∧ s = buildSuffix build ++ rest := by
  rw [readBuild_eq_readSuffix] at h
  exact readSuffix_eq_ok (fun _ hfield _ => readBuildIdentifier_eq_ok_iff hfield) h

/-- A written pre-release is read back, whatever follows that cannot belong to it. -/
theorem readPre_of_proper (part : Part) (proper : ∀ identifier ∈ pre, identifier.Proper)
    (hrest : Stops inRun rest) (hyphen : rest.head? ≠ some '-') :
    ∃ part', readPre part (preSuffix pre ++ rest) = .ok (pre, part', rest) := by
  simp only [readPre_eq_readSuffix]
  exact readSuffix_of_proper part (fun _ hfield _ => readPreIdentifier_eq_ok_iff hfield)
    (fun _ hproper => hproper.isIdentifierText.2) proper hrest hyphen

/-- A build written at the end of a text is read back. -/
theorem readBuild_of_proper (part : Part) (proper : ∀ text ∈ build, IsIdentifierText text.toList) :
    ∃ part', readBuild part (buildSuffix build) = .ok (build, part', []) := by
  have hread : ∃ part', readSuffix '+' .build readBuildIdentifier part (buildSuffix build ++ []) =
      .ok (build, part', []) :=
    readSuffix_of_proper part (fun _ hfield _ => readBuildIdentifier_eq_ok_iff hfield)
      (fun _ hproper => hproper.2) proper stops_nil (by simp)
  simpa only [readBuild_eq_readSuffix, List.append_nil] using hread

/-- What stands after the numbers of a version, whatever is made of it. -/
theorem suffixes_eq_ok_iff {α : Type} {f : List Identifier → List String → α} {a : α} :
    (do
      let (pre, part, s) ← readPre part s
      let (build, part, s) ← readBuild part s
      readEnd part s
      return f pre build) = Except.ok a ↔
    ∃ pre build, (∀ identifier ∈ pre, identifier.Proper) ∧
      (∀ text ∈ build, IsIdentifierText text.toList) ∧
      s = preSuffix pre ++ buildSuffix build ∧ f pre build = a := by
  constructor
  · intro h
    obtain ⟨⟨pre, part, s⟩, hpre, afterPre⟩ := bind_eq_ok_iff.mp h
    obtain ⟨⟨build, part, s⟩, hbuild, afterBuild⟩ := bind_eq_ok_iff.mp afterPre
    obtain ⟨⟨⟩, hend, made⟩ := bind_eq_ok_iff.mp afterBuild
    obtain ⟨properPre, rfl⟩ := readPre_eq_ok hpre
    obtain ⟨properBuild, rfl⟩ := readBuild_eq_ok hbuild
    obtain rfl := readEnd_eq_ok_iff.mp hend
    exact ⟨pre, build, properPre, properBuild, by rw [List.append_nil], Except.ok.inj made⟩
  · rintro ⟨pre, build, properPre, properBuild, rfl, rfl⟩
    have hyphen : (buildSuffix build).head? ≠ some '-' := by
      cases build <;> simp [buildSuffix]
    obtain ⟨_, hpre⟩ := readPre_of_proper part properPre (stops_buildSuffix build) hyphen
    obtain ⟨_, hbuild⟩ := readBuild_of_proper _ properBuild
    refine bind_eq_ok_iff.mpr ⟨_, hpre, bind_eq_ok_iff.mpr ⟨_, hbuild, ?_⟩⟩
    exact bind_eq_ok_iff.mpr ⟨(), readEnd_eq_ok_iff.mpr rfl, rfl⟩

/-! ## Full versions -/

/-- A version that can be written: its numbers are below the bound, and its identifiers are identifiers. -/
structure Proper (v : Version) : Prop where
  major_lt : v.major < numberBound
  minor_lt : v.minor < numberBound
  patch_lt : v.patch < numberBound
  pre : ∀ identifier ∈ v.pre, identifier.Proper
  build : ∀ text ∈ v.build, IsIdentifierText text.toList

/-- The text of a pre-release is made of its identifiers with points between them. -/
theorem toList_preText (v : Version) :
    v.preText.toList = ['.'].intercalate (v.pre.map fun identifier => identifier.render.toList) := by
  rw [preText, String.toList_intercalate, List.map_map]
  rfl

/-- The text of a build is made of its identifiers with points between them. -/
theorem toList_buildText (v : Version) :
    v.buildText.toList = ['.'].intercalate (v.build.map String.toList) := by
  rw [buildText, String.toList_intercalate]
  rfl

/-- A version is written with its three numbers, and with the pre-release and the build behind them. -/
theorem toList_render (v : Version) :
    v.render.toList = Nat.toDigits 10 v.major ++ '.' :: (Nat.toDigits 10 v.minor ++ '.' ::
      (Nat.toDigits 10 v.patch ++ (preSuffix v.pre ++ buildSuffix v.build))) := by
  have hpre : (if v.pre.isEmpty then "" else "-" ++ v.preText).toList = preSuffix v.pre := by
    cases hpre : v.pre with
    | nil => rfl
    | cons first pre => simp [preSuffix, toList_preText, hpre]
  have hbuild : (if v.build.isEmpty then "" else "+" ++ v.buildText).toList =
      buildSuffix v.build := by
    cases hbuild : v.build with
    | nil => rfl
    | cons first build => simp [buildSuffix, toList_buildText, hbuild]
  rw [render, String.toList_append, String.toList_append, hpre, hbuild]
  simp

/-- The last number stops before a pre-release, a build or the end. -/
theorem stops_suffixes (pre : List Identifier) (build : List String) :
    Stops Char.isDigit (preSuffix pre ++ buildSuffix build) := by
  cases pre with
  | nil => cases build <;> simp [preSuffix, buildSuffix, Stops]
  | cons first pre => exact stops_cons_iff.mpr (by decide)

/-- Reading is the inverse of writing: a text is read as a version only if it is how that version is
written, and every version made of numbers and identifiers is read back. -/
theorem read_eq_ok_iff {v : Version} : read s = .ok v ↔ v.Proper ∧ s = v.render.toList := by
  rw [toList_render]
  constructor
  · intro h
    obtain ⟨⟨major, s⟩, hmajor, afterMajor⟩ := bind_eq_ok_iff.mp h
    obtain ⟨s, hpoint, afterPoint⟩ := bind_eq_ok_iff.mp afterMajor
    obtain ⟨⟨minor, s⟩, hminor, afterMinor⟩ := bind_eq_ok_iff.mp afterPoint
    obtain ⟨s, hpoint', afterPoint'⟩ := bind_eq_ok_iff.mp afterMinor
    obtain ⟨⟨patch, s⟩, hpatch, afterPatch⟩ := bind_eq_ok_iff.mp afterPoint'
    obtain ⟨major_lt, rfl, _⟩ := readNumber_eq_ok_iff.mp hmajor
    obtain rfl := readPoint_eq_ok_iff.mp hpoint
    obtain ⟨minor_lt, rfl, _⟩ := readNumber_eq_ok_iff.mp hminor
    obtain rfl := readPoint_eq_ok_iff.mp hpoint'
    obtain ⟨patch_lt, rfl, _⟩ := readNumber_eq_ok_iff.mp hpatch
    obtain ⟨pre, build, properPre, properBuild, rfl, rfl⟩ := suffixes_eq_ok_iff.mp afterPatch
    exact ⟨⟨major_lt, minor_lt, patch_lt, properPre, properBuild⟩, rfl⟩
  · rintro ⟨proper, rfl⟩
    refine bind_eq_ok_iff.mpr ⟨_, readNumber_append _ proper.major_lt (stops_point _), ?_⟩
    refine bind_eq_ok_iff.mpr ⟨_, readPoint_eq_ok_iff.mpr rfl, ?_⟩
    refine bind_eq_ok_iff.mpr ⟨_, readNumber_append _ proper.minor_lt (stops_point _), ?_⟩
    refine bind_eq_ok_iff.mpr ⟨_, readPoint_eq_ok_iff.mpr rfl, ?_⟩
    refine bind_eq_ok_iff.mpr ⟨_, readNumber_append _ proper.patch_lt (stops_suffixes _ _), ?_⟩
    exact suffixes_eq_ok_iff.mpr ⟨v.pre, v.build, proper.pre, proper.build, rfl, rfl⟩

/-- The characters of a written version. -/
def isVersionChar (c : Char) : Bool :=
  inRun c || c == '+'

/-- Characters of identifiers are characters of versions. -/
theorem isVersionChar_of_isIdentifierChar {c : Char} (h : isIdentifierChar c = true) :
    isVersionChar c = true := by
  simp [isVersionChar, inRun, h]

/-- The digits of a number are characters of versions. -/
theorem isVersionChar_of_mem_toDigits {n : Nat} {c : Char} (h : c ∈ Nat.toDigits 10 n) :
    isVersionChar c = true :=
  isVersionChar_of_isIdentifierChar (isIdentifierChar_of_isDigit (isDigit_of_mem_toDigits h))

/-- A run of identifiers is made of the characters of a version if its separator is one of them. -/
theorem isVersionChar_of_mem_suffix {α : Type} {separator c : Char} {written : α → List Char}
    {items : List α} (hseparator : isVersionChar separator = true)
    (hitems : ∀ item ∈ items, IsIdentifierText (written item))
    (hc : c ∈ suffix separator written items) : isVersionChar c = true := by
  cases items with
  | nil => cases hc
  | cons first items =>
    rcases List.mem_cons.mp hc with rfl | hc
    · exact hseparator
    · rcases Text.mem_intercalate hc with rfl | ⟨part, hpart, hc⟩
      · decide
      · obtain ⟨item, hitem, rfl⟩ := List.mem_map.mp hpart
        exact isVersionChar_of_isIdentifierChar ((hitems item hitem).2 c hc)

/-- A written version is made of the characters of versions. -/
theorem Proper.isVersionChar_of_mem {v : Version} {c : Char} (h : v.Proper)
    (hc : c ∈ v.render.toList) : isVersionChar c = true := by
  rw [toList_render] at hc
  simp only [List.mem_append, List.mem_cons] at hc
  rcases hc with hc | rfl | hc | rfl | hc | hc | hc
  · exact isVersionChar_of_mem_toDigits hc
  · decide
  · exact isVersionChar_of_mem_toDigits hc
  · decide
  · exact isVersionChar_of_mem_toDigits hc
  · exact isVersionChar_of_mem_suffix (by decide)
      (fun identifier hmem => (h.pre identifier hmem).isIdentifierText) hc
  · exact isVersionChar_of_mem_suffix (by decide) h.build hc

end Version

end PackageLock
