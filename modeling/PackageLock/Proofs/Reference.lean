import PackageLock.Proofs.Text.Fields
import PackageLock.Reference

/-!
# Sources and identifiers

How a reference is cut, told without the order in which the separators are looked for (`IsCut`), and which
texts are read as references (`parse_eq_ok_iff`). The lock is keyed by the source, which is meant to be
free of tag and digest. Main statement: when this is so, and when references that differ only in tag and
digest have one source (`source_bare_iff`).
-/

set_option autoImplicit false

namespace PackageLock.Reference

variable {s source : List Char} {identifier : Option (List Char)} {text : String}
  {reference : Reference}

/-! ## Where a reference is cut -/

/-- A text without a tag: a slash comes after each of its colons. -/
def Untagged (s : List Char) : Prop :=
  ∀ before after, s = before ++ ':' :: after → '/' ∈ after

/-- The ways to cut a reference into its source and its identifier. -/
inductive IsCut : List Char → List Char → Option (List Char) → Prop where
  /-- The digest is all that follows the first `@`. -/
  | digest {source digest : List Char} (first : '@' ∉ source) :
      IsCut (source ++ '@' :: digest) source (some digest)
  /-- Without a digest, the tag is what follows the last colon, and no slash comes after it. -/
  | tag {source tag : List Char} (undigested : '@' ∉ source ++ ':' :: tag) (last : ':' ∉ tag)
      (behind : '/' ∉ tag) : IsCut (source ++ ':' :: tag) source (some tag)
  /-- Nothing is cut off. -/
  | bare {source : List Char} (undigested : '@' ∉ source) (untagged : Untagged source) :
      IsCut source source none

/-- A text with a source is not empty. -/
theorem IsCut.ne_nil (h : IsCut s source identifier) (hne : source ≠ []) : s ≠ [] := by
  cases h with
  | digest first => simp
  | tag undigested last behind => simp
  | bare undigested untagged => exact hne

/-- The source of a reference has no at-sign. -/
theorem IsCut.not_mem (h : IsCut s source identifier) : '@' ∉ source := by
  cases h with
  | digest first => exact first
  | tag undigested last behind => exact fun hmem => undigested (List.mem_append_left _ hmem)
  | bare undigested untagged => exact undigested

/-- A reference begins with its source. -/
theorem IsCut.begins (h : IsCut s source identifier) : source <+: s := by
  cases h with
  | digest first => exact List.prefix_append _ _
  | tag undigested last behind => exact List.prefix_append _ _
  | bare undigested untagged => exact List.prefix_rfl

/-- A reference without an identifier is its source, and has neither a digest nor a tag. -/
theorem isCut_none_iff : IsCut s source none ↔ s = source ∧ '@' ∉ source ∧ Untagged source := by
  constructor
  · intro h
    cases h with
    | bare undigested untagged => exact ⟨rfl, undigested, untagged⟩
  · rintro ⟨rfl, undigested, untagged⟩
    exact .bare undigested untagged

/-- A text is cut into a source and an identifier. -/
theorem cut_isCut (s : List Char) : IsCut s (cut s).1 (cut s).2 := by
  unfold cut
  split
  · rename_i source digest hdigest
    obtain ⟨rfl, first⟩ := Text.cutFirst_eq_some_iff.mp hdigest
    exact .digest first
  · rename_i hdigest
    have undigested := Text.cutFirst_eq_none_iff.mp hdigest
    split
    · rename_i source tag htag
      obtain ⟨rfl, last⟩ := Text.cutLast_eq_some_iff.mp htag
      split
      · rename_i behind
        -- a slash after the last colon comes after all of them
        refine .bare undigested fun before after heq => ?_
        exact (Text.suffix_of_last heq last).subset (by simpa using behind)
      · rename_i behind
        exact .tag undigested last (by simpa using behind)
    · rename_i htag
      refine .bare undigested fun before after heq => ?_
      have untagged := Text.cutLast_eq_none_iff.mp htag
      simp [heq] at untagged

/-- A text is cut in the one way that is told by `IsCut`. -/
theorem cut_eq_iff : cut s = (source, identifier) ↔ IsCut s source identifier := by
  constructor
  · intro h
    have hcut := cut_isCut s
    rwa [h] at hcut
  · intro h
    cases h with
    | digest first => simp [cut, Text.cutFirst_append first]
    | tag undigested last behind =>
      simp [cut, Text.cutFirst_eq_none_iff.mpr undigested, Text.cutLast_append last, behind]
    | bare undigested untagged =>
      rw [cut, Text.cutFirst_eq_none_iff.mpr undigested]
      cases htag : Text.cutLast ':' s with
      | none => rfl
      | some parts =>
        obtain ⟨heq, _⟩ := Text.cutLast_eq_some_iff.mp htag
        simp [untagged _ _ heq]

/-! ## Reading -/

/-- What a text has to be in order to be read as a reference. -/
theorem parse_eq_ok_iff : parse text = .ok reference ↔
    IsCut (Text.trim text.toList) reference.source.toList
      (reference.identifier.map String.toList) ∧
    namesRepository reference.source.toList = true ∧ reference.identifier ≠ some "" := by
  constructor
  · intro h
    have hcut := cut_isCut (Text.trim text.toList)
    unfold parse at h
    simp only at h
    split at h
    · cases h
    · split at h
      · cases h
      · rename_i named
        split at h
        · cases h
        · rename_i identified
          cases h
          refine ⟨by simpa [Function.comp_def] using hcut, by simpa using named, ?_⟩
          intro hempty
          obtain ⟨identifier, hid, hnil⟩ := Option.map_eq_some_iff.mp hempty
          rw [hid] at identified
          simp_all
  · rintro ⟨hcut, named, identified⟩
    have hsource : reference.source.toList ≠ [] := by
      intro hnil
      simp [namesRepository, hnil] at named
    have hidentifier : reference.identifier.map String.toList ≠ some [] := by
      cases hid : reference.identifier with
      | none => simp
      | some identifier => simpa [hid] using identified
    rw [parse, if_neg (by simpa using hcut.ne_nil hsource)]
    simp [cut_eq_iff.mpr hcut, named, hidentifier, Function.comp_def]

/-- A source is read as a reference without identifier unless it ends in a blank or in another tag. -/
theorem parse_source_iff (h : parse text = .ok reference) :
    parse reference.source = .ok ⟨reference.source, none⟩ ↔
      Untagged reference.source.toList ∧
      ∀ c, reference.source.toList.getLast? = some c → Text.isBlank c = false := by
  obtain ⟨hcut, named, _⟩ := parse_eq_ok_iff.mp h
  have hstart (c : Char) (hc : reference.source.toList.head? = some c) : Text.isBlank c = false := by
    obtain ⟨rest, hrest⟩ := hcut.begins
    refine (Text.trim_eq_self_iff.mp (Text.trim_trim text.toList)).1 c ?_
    rw [← hrest, List.head?_append, hc]
    rfl
  -- the source begins like the text that has been trimmed, so only its end is in question
  rw [parse_eq_ok_iff, Option.map_none, isCut_none_iff, Text.trim_eq_self_iff]
  constructor
  · rintro ⟨⟨⟨_, hend⟩, _, untagged⟩, _, _⟩
    exact ⟨untagged, hend⟩
  · rintro ⟨untagged, hend⟩
    exact ⟨⟨⟨hstart, hend⟩, hcut.not_mem, untagged⟩, named, by simp⟩

/-! ## References as they are written -/

/-- A repository with a tag, if there is one. -/
def tagged (repository : String) (tag : Option String) : String :=
  repository ++ tag.elim "" (":" ++ ·)

/-- From the tagged form of a repository its tag can be told. -/
theorem tagged_inj {repository : String} {tag tag' : Option String} :
    tagged repository tag = tagged repository tag' ↔ tag = tag' := by
  rw [tagged, tagged, String.append_right_inj]
  cases tag <;> cases tag' <;> simp

/-- The parts of a reference: a repository, and a tag and a digest where they are given. -/
structure Parts where
  repository : String
  tag : Option String
  digest : Option String
  bare : parse repository = .ok ⟨repository, none⟩
  tag_plain : ∀ given, tag = some given →
    given ≠ "" ∧ ∀ c ∈ given.toList, c ≠ '/' ∧ c ≠ ':' ∧ c ≠ '@'
  digest_ne : digest ≠ some ""

namespace Parts

/-- How the reference is written. -/
def written (parts : Parts) : String :=
  tagged parts.repository parts.tag ++ parts.digest.elim "" ("@" ++ ·)

/-- The tag that stands before a digest. -/
def covered (parts : Parts) : Option String :=
  if parts.digest.isSome then parts.tag else none

/-- A repository and its tag have no at-sign. -/
theorem not_mem_tagged (parts : Parts) : '@' ∉ (tagged parts.repository parts.tag).toList := by
  obtain ⟨hcut, _, _⟩ := parse_eq_ok_iff.mp parts.bare
  have undigested := hcut.not_mem
  cases htag : parts.tag with
  | none => simpa [tagged] using undigested
  | some tag =>
    have plain : '@' ∉ tag.toList := fun hmem => ((parts.tag_plain tag htag).2 _ hmem).2.2 rfl
    simp [tagged, undigested, plain]

/-- The tagged form of a repository names it. -/
theorem namesRepository_tagged (parts : Parts) :
    namesRepository (tagged parts.repository parts.tag).toList = true := by
  obtain ⟨_, named, _⟩ := parse_eq_ok_iff.mp parts.bare
  cases htag : parts.tag with
  | none => simpa [tagged] using named
  | some tag =>
    obtain ⟨hne, plain⟩ := parts.tag_plain tag htag
    have hchars : tag.toList ≠ [] := by simpa using hne
    have hlast := (plain _ (List.getLast_mem hchars)).1
    simp [tagged, namesRepository, List.getLast?_append, List.getLast?_cons,
      List.getLast?_eq_some_getLast hchars, hlast]

/-- A written reference is cut before its digest if it has one, and otherwise before its tag. -/
theorem isCut_written (parts : Parts) :
    IsCut parts.written.toList (tagged parts.repository parts.covered).toList
      ((parts.digest.or parts.tag).map String.toList) := by
  obtain ⟨hcut, named, _⟩ := parse_eq_ok_iff.mp parts.bare
  obtain ⟨_, undigested, untagged⟩ := isCut_none_iff.mp hcut
  have beforeDigest := parts.not_mem_tagged
  cases hdigest : parts.digest with
  | some digest => simpa [written, covered, hdigest] using IsCut.digest beforeDigest
  | none =>
    cases htag : parts.tag with
    | some tag =>
      obtain ⟨_, plain⟩ := parts.tag_plain tag htag
      have hcut : IsCut (parts.repository.toList ++ ':' :: tag.toList) parts.repository.toList
          (some tag.toList) :=
        .tag (by simpa [htag, tagged] using beforeDigest) (fun hmem => (plain _ hmem).2.1 rfl)
          (fun hmem => (plain _ hmem).1 rfl)
      simpa [written, covered, hdigest, htag, tagged] using hcut
    | none =>
      simpa [written, covered, hdigest, htag, tagged] using IsCut.bare undigested untagged

/-- A reference is cut where the digest begins, or else where the tag begins. -/
theorem parse_written (parts : Parts) {text : String} (h : Text.trimmed text = parts.written) :
    parse text =
      .ok ⟨tagged parts.repository parts.covered, parts.digest.or parts.tag⟩ := by
  have htrim : Text.trim text.toList = parts.written.toList := by
    rw [← h, Text.trimmed, String.toList_ofList]
  obtain ⟨_, named, _⟩ := parse_eq_ok_iff.mp parts.bare
  refine parse_eq_ok_iff.mpr ⟨htrim ▸ parts.isCut_written, ?_, ?_⟩
  · unfold covered
    split
    · exact parts.namesRepository_tagged
    · simpa [tagged] using named
  · cases hdigest : parts.digest with
    | some digest => simpa [hdigest] using parts.digest_ne
    | none =>
      intro hempty
      exact (parts.tag_plain "" hempty).1 rfl

end Parts

/-- Of every reference that can be read, the source is read as itself and has no identifier if and only if
it neither ends in a blank nor in another tag. References to one repository have one source, whatever
their tags and digests are, up to tags that stand before a digest: these stay in the source, and only
those that have the same one there address the same entry. -/
theorem source_bare_iff (text text' : String) :
    (∀ reference, parse text = .ok reference →
      (parse reference.source = .ok ⟨reference.source, none⟩ ↔
        Untagged reference.source.toList ∧
        ∀ c, reference.source.toList.getLast? = some c → Text.isBlank c = false)) ∧
    ∀ first second : Parts, first.repository = second.repository →
      Text.trimmed text = first.written → Text.trimmed text' = second.written →
      ∃ reference reference', parse text = .ok reference ∧ parse text' = .ok reference' ∧
        (reference.source = reference'.source ↔ first.covered = second.covered) := by
  refine ⟨fun reference h => parse_source_iff h, ?_⟩
  intro first second same htext htext'
  refine ⟨_, _, first.parse_written htext, second.parse_written htext', ?_⟩
  rw [same]
  exact tagged_inj

/-- The port of a registry is no tag, neither before a tag nor before a digest. -/
theorem source_bare_of_port :
    parse "localhost:5000/org/pkg" = .ok ⟨"localhost:5000/org/pkg", none⟩ ∧
    ∃ reference reference', parse " localhost:5000/org/pkg:v2" = .ok reference ∧
      parse "localhost:5000/org/pkg@sha256:0ab" = .ok reference' ∧
      reference.source = reference'.source := by
  have sources := source_bare_iff " localhost:5000/org/pkg:v2" "localhost:5000/org/pkg@sha256:0ab"
  have tagRead : parse " localhost:5000/org/pkg:v2" =
      .ok ⟨"localhost:5000/org/pkg", some "v2"⟩ := by
    decide +kernel
  have untagged : Untagged "localhost:5000/org/pkg".toList := by
    intro before after h
    have last : ':' ∉ "5000/org/pkg".toList := by decide
    have h' : "localhost".toList ++ ':' :: "5000/org/pkg".toList = before ++ ':' :: after := h
    exact (Text.suffix_of_last h' last).subset (by decide)
  have unblanked (c : Char) (hc : "localhost:5000/org/pkg".toList.getLast? = some c) :
      Text.isBlank c = false := by
    obtain rfl : 'g' = c := Option.some.inj hc
    decide
  have bare := (sources.1 _ tagRead).mpr ⟨untagged, unblanked⟩
  let withTag : Parts :=
    ⟨"localhost:5000/org/pkg", some "v2", none, bare, by simp, by simp⟩
  let withDigest : Parts :=
    ⟨"localhost:5000/org/pkg", none, some "sha256:0ab", bare, by simp, by simp⟩
  have tagWritten : Text.trimmed " localhost:5000/org/pkg:v2" = withTag.written := by
    show _ = tagged "localhost:5000/org/pkg" (some "v2") ++ ""
    decide +kernel
  have digestWritten : Text.trimmed "localhost:5000/org/pkg@sha256:0ab" = withDigest.written := by
    show _ = tagged "localhost:5000/org/pkg" none ++ "@sha256:0ab"
    decide +kernel
  obtain ⟨reference, reference', hread, hread', hsame⟩ :=
    sources.2 withTag withDigest rfl tagWritten digestWritten
  exact ⟨bare, reference, reference', hread, hread', hsame.mpr rfl⟩

/-- A tag before a digest stays in the source, and so one repository has two sources. -/
theorem source_not_bare :
    parse "org/pkg:v1" = .ok ⟨"org/pkg", some "v1"⟩ ∧
    parse "org/pkg:v1@sha256:abc" = .ok ⟨"org/pkg:v1", some "sha256:abc"⟩ ∧
    ¬ ∀ text reference, parse text = .ok reference →
      parse reference.source = .ok ⟨reference.source, none⟩ := by
  have tagRead : parse "org/pkg:v1" = .ok ⟨"org/pkg", some "v1"⟩ := by decide +kernel
  have bothRead : parse "org/pkg:v1@sha256:abc" = .ok ⟨"org/pkg:v1", some "sha256:abc"⟩ := by
    decide +kernel
  refine ⟨tagRead, bothRead, fun bare => ?_⟩
  have again := bare _ _ bothRead
  rw [tagRead] at again
  simp at again

end PackageLock.Reference
