import PackageLock.Proofs.Reference

/-!
# References that are written out and read again

What is written does not remember which separator was read: an identifier with a colon is written as a
digest, any other one as a tag. A digest without a colon is therefore read again as a tag, and comes back
only if it could have been one. Main statement: which references come back, and that those written in the
usual way do (`render_round_trip`).
-/

set_option autoImplicit false

namespace PackageLock.Reference

variable {source : List Char} {text : String} {reference : Reference}

/-! ## Separators -/

/-- A source and a digest are cut between them if the source has no at-sign. -/
theorem isCut_digest_iff {digest : List Char} :
    IsCut (source ++ '@' :: digest) source (some digest) ↔ '@' ∉ source :=
  ⟨IsCut.not_mem, .digest⟩

/-- A source and a tag are cut between them if there is no at-sign and the colon is the last one, with no
slash after it. -/
theorem isCut_tag_iff {tag : List Char} :
    IsCut (source ++ ':' :: tag) source (some tag) ↔
      '@' ∉ source ++ ':' :: tag ∧ ':' ∉ tag ∧ '/' ∉ tag := by
  constructor
  · -- a text has one separator behind its source, so that of a digest is ruled out
    generalize hs : source ++ ':' :: tag = s
    intro h
    cases h with
    | digest first => simp at hs
    | tag undigested last behind => exact ⟨undigested, last, behind⟩
  · rintro ⟨undigested, last, behind⟩
    exact .tag undigested last behind

/-- The separators that may stand between a source and an identifier. -/
theorem IsCut.separated {s identifier : List Char} (h : IsCut s source (some identifier)) :
    ∃ separator, (separator = ':' ∨ separator = '@') ∧ s = source ++ separator :: identifier := by
  cases h with
  | digest first => exact ⟨'@', Or.inr rfl, rfl⟩
  | tag undigested last behind => exact ⟨':', Or.inl rfl, rfl⟩

/-- Another separator brings no blanks to the ends of a text. -/
theorem trim_separated {identifier : List Char} {separator other : Char} (hsource : source ≠ [])
    (hidentifier : identifier ≠ [])
    (h : Text.trim (source ++ separator :: identifier) = source ++ separator :: identifier) :
    Text.trim (source ++ other :: identifier) = source ++ other :: identifier := by
  have hhead (c : Char) : (source ++ c :: identifier).head? = source.head? :=
    List.head?_append_of_ne_nil source hsource
  have hlast (c : Char) : (source ++ c :: identifier).getLast? = identifier.getLast? := by
    rw [List.getLast?_append_of_ne_nil source (List.cons_ne_nil c identifier)]
    exact List.getLast?_cons_of_ne_nil hidentifier
  rw [Text.trim_eq_self_iff, hhead, hlast] at h ⊢
  exact h

/-! ## Reading what is written -/

/-- The source of a reference is not empty. -/
theorem source_ne_nil (h : parse text = .ok reference) : reference.source.toList ≠ [] := by
  obtain ⟨_, named, _⟩ := parse_eq_ok_iff.mp h
  intro hnil
  simp [namesRepository, hnil] at named

/-- The text of a reference is its source, with the identifier behind a separator if there is one. -/
theorem trimmed_of_parse (h : parse text = .ok reference) :
    reference.identifier = none ∧ Text.trimmed text = reference.source ∨
      ∃ identifier, reference.identifier = some identifier ∧
        (Text.trimmed text = reference.source ++ ":" ++ identifier ∨
          Text.trimmed text = reference.source ++ "@" ++ identifier) := by
  obtain ⟨hcut, _, _⟩ := parse_eq_ok_iff.mp h
  cases hid : reference.identifier with
  | none =>
    rw [hid, Option.map_none, isCut_none_iff] at hcut
    exact Or.inl ⟨rfl, by rw [Text.trimmed, hcut.1, String.ofList_toList]⟩
  | some identifier =>
    rw [hid, Option.map_some] at hcut
    obtain ⟨separator, hseparator, htrim⟩ := hcut.separated
    refine Or.inr ⟨identifier, rfl, ?_⟩
    rcases hseparator with rfl | rfl
    · exact Or.inl (String.toList_injective (by simp [Text.trimmed, htrim]))
    · exact Or.inr (String.toList_injective (by simp [Text.trimmed, htrim]))

/-- Writing an identifier with either separator leaves nothing to trim. -/
theorem trim_of_parse {identifier : String} (h : parse text = .ok reference)
    (hid : reference.identifier = some identifier) (separator : Char) :
    Text.trim (reference.source.toList ++ separator :: identifier.toList) =
      reference.source.toList ++ separator :: identifier.toList := by
  obtain ⟨hcut, _, identified⟩ := parse_eq_ok_iff.mp h
  rw [hid, Option.map_some] at hcut
  obtain ⟨read, _, htrim⟩ := hcut.separated
  have hne : identifier.toList ≠ [] := by simpa [hid] using identified
  exact trim_separated (source_ne_nil h) hne (htrim ▸ Text.trim_trim text.toList)

/-- What decides whether a reference comes back is its identifier alone. -/
theorem parse_render_iff (h : parse text = .ok reference) :
    parse reference.render = .ok reference ↔
      reference.identifier = none ∨ ∃ identifier, reference.identifier = some identifier ∧
        (':' ∈ identifier.toList ∨ '/' ∉ identifier.toList ∧ '@' ∉ identifier.toList) := by
  obtain ⟨hcut, named, identified⟩ := parse_eq_ok_iff.mp h
  rw [parse_eq_ok_iff, and_iff_left ⟨named, identified⟩]
  have undigested := hcut.not_mem
  cases hid : reference.identifier with
  | none =>
    have hbare : Text.trim text.toList = reference.source.toList := by
      rw [hid, Option.map_none, isCut_none_iff] at hcut
      exact hcut.1
    have hrender : reference.render = reference.source := by rw [render, hid]
    rw [hid] at hcut
    simpa [hrender, ← hbare, Text.trim_trim] using hcut
  | some identifier =>
    have htrim := trim_of_parse h hid
    by_cases colon : ':' ∈ identifier.toList
    · have hrender : reference.render.toList = reference.source.toList ++ '@' :: identifier.toList := by
        simp [render, hid, colon]
      simp [hrender, htrim, isCut_digest_iff, undigested, colon]
    · have hrender : reference.render.toList = reference.source.toList ++ ':' :: identifier.toList := by
        simp [render, hid, colon]
      simp [hrender, htrim, isCut_tag_iff, undigested, colon, and_comm]

/-- A reference in the usual form is written as it was read and comes back: the tag is plain, and a digest
has a colon behind the name of its algorithm. -/
theorem Parts.render_parse (parts : Parts) (hdigest : ∀ digest, parts.digest = some digest → ':' ∈ digest.toList)
    (h : Text.trimmed text = parts.written) :
    ∃ reference, parse text = .ok reference ∧ reference.render = Text.trimmed text ∧
      parse reference.render = .ok reference := by
  refine ⟨_, parts.parse_written h, ?_⟩
  rw [parse_render_iff (parts.parse_written h), h]
  cases given : parts.digest with
  | some digest =>
    have colon := hdigest digest given
    simp [render, written, covered, given, colon, String.append_assoc]
  | none =>
    cases htag : parts.tag with
    | some tag =>
      obtain ⟨_, plain⟩ := parts.tag_plain tag htag
      have colon : ':' ∉ tag.toList := fun hmem => (plain _ hmem).2.1 rfl
      have slash : '/' ∉ tag.toList := fun hmem => (plain _ hmem).1 rfl
      have undigested : '@' ∉ tag.toList := fun hmem => (plain _ hmem).2.2 rfl
      simp [render, written, covered, tagged, given, htag, colon, slash, undigested,
        String.append_assoc]
    | none => simp [render, written, covered, tagged, given, htag]

/-- Every text that is read as a reference is, without the blanks around it, the source of the reference
alone, or with a colon or an `@` and the identifier behind it. The written form is read as the same
reference if and only if there is no identifier, the identifier has a colon, or it has neither a slash nor
an `@`. In particular a repository with a plain tag and a digest with its algorithm, where they are given,
is read, is written as it stands there, and comes back. -/
theorem render_round_trip (text : String) :
    (∀ reference, parse text = .ok reference →
      (reference.identifier = none ∧ Text.trimmed text = reference.source ∨
        ∃ identifier, reference.identifier = some identifier ∧
          (Text.trimmed text = reference.source ++ ":" ++ identifier ∨
            Text.trimmed text = reference.source ++ "@" ++ identifier)) ∧
      (parse reference.render = .ok reference ↔
        reference.identifier = none ∨ ∃ identifier, reference.identifier = some identifier ∧
          (':' ∈ identifier.toList ∨ '/' ∉ identifier.toList ∧ '@' ∉ identifier.toList))) ∧
    ∀ parts : Parts, (∀ digest, parts.digest = some digest → ':' ∈ digest.toList) →
      Text.trimmed text = parts.written →
      ∃ reference, parse text = .ok reference ∧ reference.render = Text.trimmed text ∧
        parse reference.render = .ok reference :=
  ⟨fun _ h => ⟨trimmed_of_parse h, parse_render_iff h⟩,
    fun parts hdigest h => parts.render_parse hdigest h⟩

/-- A port is part of the source. A digest without an algorithm is written as a tag, and is read as one only
if it has no slash. -/
theorem render_round_trip_of_port :
    parse "localhost:5000/org/pkg@a/b" = .ok ⟨"localhost:5000/org/pkg", some "a/b"⟩ ∧
      parse (render ⟨"localhost:5000/org/pkg", some "a/b"⟩) ≠
        .ok ⟨"localhost:5000/org/pkg", some "a/b"⟩ ∧
    ∃ reference, parse " localhost:5000/org/pkg@sha256:0ab" = .ok reference ∧
      reference.render = "localhost:5000/org/pkg@sha256:0ab" ∧
      parse reference.render = .ok reference := by
  have slashRead : parse "localhost:5000/org/pkg@a/b" =
      .ok ⟨"localhost:5000/org/pkg", some "a/b"⟩ := by decide +kernel
  have bare : parse "localhost:5000/org/pkg" = .ok ⟨"localhost:5000/org/pkg", none⟩ := by
    decide +kernel
  let parts : Parts := ⟨"localhost:5000/org/pkg", none, some "sha256:0ab", bare, by simp, by simp⟩
  have htrim : Text.trimmed " localhost:5000/org/pkg@sha256:0ab" =
      "localhost:5000/org/pkg@sha256:0ab" := by decide +kernel
  have hwritten : Text.trimmed " localhost:5000/org/pkg@sha256:0ab" = parts.written := by
    rw [htrim]
    show _ = tagged "localhost:5000/org/pkg" none ++ "@sha256:0ab"
    decide +kernel
  obtain ⟨_, returns⟩ := (render_round_trip "localhost:5000/org/pkg@a/b").1 _ slashRead
  obtain ⟨reference, digestRead, rendered, again⟩ :=
    (render_round_trip " localhost:5000/org/pkg@sha256:0ab").2 parts
      (fun digest hdigest => by
        obtain rfl : "sha256:0ab" = digest := Option.some.inj hdigest
        decide) hwritten
  refine ⟨slashRead, fun slashAgain => ?_, reference, digestRead, rendered.trans htrim, again⟩
  simpa using returns.mp slashAgain

end PackageLock.Reference
