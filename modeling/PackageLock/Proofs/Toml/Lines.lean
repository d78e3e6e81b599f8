import PackageLock.Proofs.Toml.Numbers
import PackageLock.Proofs.Toml.Strings

/-!
# Lines of a document

A line takes the document being read from one state to the next, whatever lines come after it (`Reads`).
Texts that do so can be put one after the other (`Reads.append`). Main statements: the steps for a blank
line, for a key with a value, and for the header of an array of tables.
-/

set_option autoImplicit false

namespace PackageLock.Toml

open Text (Stops stops_cons_iff takeWhile_append_of_stops dropWhile_append_of_stops)

variable {draft draft' draft'' : Draft} {s s' t rest : List Char} {c : Char}

/-! ## Reading on -/

/-- The text takes the document from one state to the other, whatever follows it. -/
def Reads (draft : Draft) (s : List Char) (draft' : Draft) : Prop :=
  ∀ rest, readLines draft (s ++ rest) = readLines draft' rest

/-- Nothing is read from an empty text. -/
theorem Reads.nil (draft : Draft) : Reads draft [] draft :=
  fun _ => rfl

/-- What is read in two parts is read one part after the other. -/
theorem Reads.append (h : Reads draft s draft') (h' : Reads draft' s' draft'') :
    Reads draft (s ++ s') draft'' := by
  intro rest
  rw [List.append_assoc, h, h']

/-- Lines that are read leave the draft to which they lead. -/
theorem Reads.readLines_eq (h : Reads draft s draft') : readLines draft s = some draft' := by
  have hend := h []
  rw [List.append_nil] at hend
  rw [hend, readLines]
  rfl

/-- A line is read whatever follows it, if reading it does not depend on what follows. -/
theorem reads_of_readLine (hc : s.head? = some c) (hspace : isSpace c = false)
    (h : ∀ rest, readLine draft (s ++ rest) = some (draft', rest)) : Reads draft s draft' := by
  intro rest
  obtain ⟨s', rfl⟩ := List.head?_eq_some_iff.mp hc
  have hstart : (c :: s' ++ rest).dropWhile isSpace = c :: s' ++ rest :=
    List.dropWhile_cons_of_neg (by simp [hspace])
  have hshort : rest.length < (c :: s' ++ rest).length := by
    simp only [List.length_cons, List.length_append]
    omega
  rw [readLines, hstart]
  simp only [List.cons_append] at h hshort ⊢
  simp only [h rest, Option.bind_eq_bind, Option.bind_some]
  exact if_pos hshort

/-- A blank line changes nothing. -/
theorem reads_blankLine (draft : Draft) : Reads draft ['\n'] draft := by
  apply reads_of_readLine rfl (by decide)
  intro rest
  rfl

/-! ## Keys -/

/-- A key that can stand without quotes. -/
def IsBare (key : String) : Prop :=
  key ≠ "" ∧ ∀ c ∈ key.toList, isBareKeyChar c = true

/-- Whether a key is bare can be decided by its characters. -/
instance (key : String) : Decidable (IsBare key) :=
  @instDecidableAnd _ _ _ (List.decidableBAll (isBareKeyChar · = true) key.toList)

/-- A bare key has a first character. -/
theorem IsBare.exists_cons {key : String} (hkey : IsBare key) :
    ∃ c cs, key.toList = c :: cs ∧ isBareKeyChar c = true := by
  obtain ⟨c, cs, hcons⟩ := List.exists_cons_of_ne_nil (l := key.toList) (by simpa using hkey.1)
  exact ⟨c, cs, hcons, hkey.2 c (by simp [hcons])⟩

/-- The characters of bare keys are none of the others. -/
theorem ne_of_isBareKeyChar {d : Char} (hc : isBareKeyChar c = true) (hd : isBareKeyChar d = false) :
    c ≠ d := by
  rintro rfl
  rw [hc] at hd
  cases hd

/-- The characters of bare keys are no spaces. -/
theorem isSpace_eq_false_of_isBareKeyChar (hc : isBareKeyChar c = true) : isSpace c = false := by
  have hblank := ne_of_isBareKeyChar hc (d := ' ') (by decide)
  have htab := ne_of_isBareKeyChar hc (d := '\t') (by decide)
  simp [isSpace, hblank, htab]

/-- A bare key is read up to where it stops. -/
theorem readSimpleKey_bare {key : String} (hkey : IsBare key) (ht : Stops isBareKeyChar t) :
    readSimpleKey (key.toList ++ t) = some (key.toList, t) := by
  obtain ⟨c, cs, hcons, hc⟩ := hkey.exists_cons
  have hcs : ∀ d ∈ cs, isBareKeyChar d = true := fun d hd => hkey.2 d (by simp [hcons, hd])
  have hquote := ne_of_isBareKeyChar hc (d := '"') (by decide)
  have hliteral := ne_of_isBareKeyChar hc (d := '\'') (by decide)
  rw [hcons, List.cons_append, readSimpleKey, if_neg hquote, if_neg hliteral, if_pos hc,
    takeWhile_append_of_stops hcs ht, dropWhile_append_of_stops hcs ht]

/-- Before a bare key there are no spaces to drop. -/
theorem dropWhile_isSpace_bare {key : String} (hkey : IsBare key) :
    (key.toList ++ t).dropWhile isSpace = key.toList ++ t := by
  obtain ⟨c, cs, hcons, hc⟩ := hkey.exists_cons
  rw [hcons]
  exact List.dropWhile_cons_of_neg (by simp [isSpace_eq_false_of_isBareKeyChar hc])

/-- A bare key without a point after it is a key by itself. -/
theorem readKeyParts_last {key : String} (hkey : IsBare key) (ht : Stops isBareKeyChar t)
    (hdot : (t.dropWhile isSpace).head? ≠ some '.') :
    readKeyParts (key.toList ++ t) = some ([key], t.dropWhile isSpace) := by
  rw [readKeyParts, dropWhile_isSpace_bare hkey, readSimpleKey_bare hkey ht]
  simp only [Option.bind_eq_bind, Option.bind_some, String.ofList_toList]
  split
  · rename_i heq
    rw [heq] at hdot
    exact absurd rfl hdot
  · rfl

/-- A bare key with a point after it is the first part of a key. -/
theorem readKeyParts_dot {key : String} {parts : List String} (hkey : IsBare key)
    (h : readKeyParts t = some (parts, rest)) :
    readKeyParts (key.toList ++ '.' :: t) = some (key :: parts, rest) := by
  have ht : Stops isBareKeyChar ('.' :: t) := stops_cons_iff.mpr (by decide)
  have hdot : ('.' :: t).dropWhile isSpace = '.' :: t := List.dropWhile_cons_of_neg (by decide)
  have hshort : t.length < (key.toList ++ '.' :: t).length := by
    simp only [List.length_append, List.length_cons]
    omega
  rw [readKeyParts, dropWhile_isSpace_bare hkey, readSimpleKey_bare hkey ht]
  simp only [Option.bind_eq_bind, Option.bind_some, hdot, if_pos hshort, h, String.ofList_toList]
  rfl

/-- A bare key before a bracket is a key by itself. -/
theorem readKeyParts_bracket {key : String} (hkey : IsBare key) (t : List Char) :
    readKeyParts (key.toList ++ ']' :: t) = some ([key], ']' :: t) := by
  have hspace : (']' :: t).dropWhile isSpace = ']' :: t := List.dropWhile_cons_of_neg (by decide)
  have hlast := readKeyParts_last hkey (stops_cons_iff.mpr (by decide)) (t := ']' :: t) (by simp [hspace])
  rwa [hspace] at hlast

/-- The parts of a key are the path and the last of them, if they are not too many. -/
theorem readKey_of_readKeyParts {path : List String} {key : String}
    (h : readKeyParts s = some (path ++ [key], rest)) (hshort : path.length + 1 < nestingBound) :
    readKey s = some ((path, key), rest) := by
  rw [readKey, h]
  simp [hshort]

/-! ## A key with a value -/

/-- A line ends at its line end. -/
theorem readLineEnd_newline (rest : List Char) : readLineEnd ('\n' :: rest) = some rest :=
  rfl

/-- A bare key and a value are read as a pair. -/
theorem readPair_bare {key : String} {value : Value} {written : List Char}
    {item : List Char → Option (Value × List Char)} (hkey : IsBare key)
    (hstart : Stops isSpace written) (hvalue : item written = some (value, rest)) :
    readPair item (key.toList ++ (' ' :: '=' :: ' ' :: written)) = some ((([], key), value), rest) := by
  have ht : Stops isBareKeyChar (' ' :: '=' :: ' ' :: written) := stops_cons_iff.mpr (by decide)
  have hequals : (' ' :: '=' :: ' ' :: written).dropWhile isSpace = '=' :: ' ' :: written := by
    rw [List.dropWhile_cons_of_pos (by decide), List.dropWhile_cons_of_neg (by decide)]
  have hparts := readKeyParts_last hkey ht (by simp [hequals])
  rw [hequals] at hparts
  have hkey' : readKey (key.toList ++ (' ' :: '=' :: ' ' :: written)) =
      some (([], key), '=' :: ' ' :: written) := readKey_of_readKeyParts hparts (by decide)
  have hwritten : (' ' :: written).dropWhile isSpace = written := by
    rw [← List.singleton_append]
    exact dropWhile_append_of_stops (List.forall_mem_singleton.mpr rfl) hstart
  rw [readPair, hkey']
  simp only [Option.bind_eq_bind, Option.bind_some, hwritten, hvalue]
  rfl

/-- A line that begins with a bare key is read as a pair, and the value is defined under the key. -/
theorem readLine_bare {key : String} (hkey : IsBare key) (t : List Char) :
    readLine draft (key.toList ++ t) = (do
      let (((path, key), value), rest) ← readPair (readValue (nestingBound - 1)) (key.toList ++ t)
      let rest ← readLineEnd rest
      return (← draft.define path key value, rest)) := by
  obtain ⟨c, cs, hcons, hc⟩ := hkey.exists_cons
  have hne (d : Char) (hd : isBareKeyChar d = false) (s : List Char) :
      key.toList ++ t ≠ d :: s := by
    rw [hcons]
    rintro heq
    exact ne_of_isBareKeyChar hc hd (List.cons.inj heq).1
  rw [readLine]
  · exact hne '#' (by decide)
  · exact hne '\n' (by decide)
  · exact hne '\r' (by decide)
  · exact fun s => hne '[' (by decide) ('[' :: s)
  · exact hne '[' (by decide)

/-- A line with a key and a value defines the key, if the value is read from its text. -/
theorem reads_pair {key : String} {value : Value} {written : List Char} (hkey : IsBare key)
    (hstart : Stops isSpace (written ++ ['\n']))
    (hvalue : ∀ rest, readValue (nestingBound - 1) (written ++ '\n' :: rest) =
      some (value, '\n' :: rest))
    (hdefine : draft.define [] key value = some draft') :
    Reads draft (key.toList ++ " = ".toList ++ written ++ ['\n']) draft' := by
  obtain ⟨c, cs, hcons, hc⟩ := hkey.exists_cons
  apply reads_of_readLine (by rw [hcons]; rfl) (isSpace_eq_false_of_isBareKeyChar hc)
  intro rest
  have hstart' : Stops isSpace (written ++ '\n' :: rest) := by
    cases written with
    | nil => exact stops_cons_iff.mpr (by decide)
    | cons d written => exact stops_cons_iff.mpr (stops_cons_iff.mp hstart)
  have hline : key.toList ++ " = ".toList ++ written ++ ['\n'] ++ rest =
      key.toList ++ (' ' :: '=' :: ' ' :: (written ++ '\n' :: rest)) := by
    simp
  rw [hline, readLine_bare hkey, readPair_bare hkey hstart' (hvalue rest)]
  simp [readLineEnd_newline, hdefine]

/-- What begins with no bracket is read as a scalar. -/
theorem readValue_eq_readScalar (depth : Nat) (hbracket : s.head? ≠ some '[')
    (hbrace : s.head? ≠ some '\x7b') : readValue depth s = readScalar s := by
  unfold readValue
  split <;> simp_all

/-- A written text begins with a quotation mark. -/
theorem head?_writeString (text : String) (t : List Char) :
    (writeString text ++ t).head? = some '"' ∨ (writeString text ++ t).head? = some '\'' := by
  unfold writeString
  cases StringForm.of text.toList <;> simp [StringForm.write]

/-- A written text is read back as a value. -/
theorem readValue_writeString (depth : Nat) (text : String) (rest : List Char) :
    readValue depth (writeString text ++ '\n' :: rest) = some (.string text, '\n' :: rest) := by
  have hstring : readString (writeString text ++ '\n' :: rest) = some (text.toList, '\n' :: rest) :=
    readString_writeString text (by simp) (by simp)
  obtain hquote | hquote := head?_writeString text ('\n' :: rest)
  all_goals
    rw [readValue_eq_readScalar depth (by simp [hquote]) (by simp [hquote])]
    obtain ⟨t, ht⟩ := List.head?_eq_some_iff.mp hquote
    rw [ht] at hstring ⊢
    rw [readScalar, hstring]
    simp

/-- A written entry defines its text under the key. -/
theorem reads_writeEntry (key text : String) (hkey : IsBare key)
    (hdefine : draft.define [] key (.string text) = some draft') :
    Reads draft (writeEntry key text) draft' := by
  apply reads_pair hkey _ (fun rest => readValue_writeString _ text rest) hdefine
  intro c hc
  obtain hquote | hquote := head?_writeString text ['\n']
  all_goals
    cases hc.symm.trans hquote
    decide

/-- A written number is defined under its key. -/
theorem reads_number (key : String) {n : Nat} (hkey : IsBare key) (hn : (n : Int) < integerBound)
    (hdefine : draft.define [] key (.integer n) = some draft') :
    Reads draft (key.toList ++ " = ".toList ++ (toString n).toList ++ ['\n']) draft' := by
  rw [Nat.toString_eq_repr, Nat.toList_repr]
  have hstart (rest : List Char) (c : Char)
      (hc : (Nat.toDigits 10 n ++ '\n' :: rest).head? = some c) : c.isDigit = true := by
    obtain ⟨d, ds, hcons, hd⟩ := exists_cons_of_toDigits_append n ('\n' :: rest)
    rw [hcons] at hc
    cases hc
    exact hd
  apply reads_pair hkey _ _ hdefine
  · intro c hc
    have hblank := ne_of_isDigit (hstart [] c hc) (c := ' ') (by decide)
    have htab := ne_of_isDigit (hstart [] c hc) (c := '\t') (by decide)
    simp [isSpace, hblank, htab]
  · intro rest
    rw [readValue_eq_readScalar, readScalar_toDigits rest hn]
    · exact fun hc => Bool.false_ne_true (hstart rest _ hc)
    · exact fun hc => Bool.false_ne_true (hstart rest _ hc)

/-- A written empty array is defined under its key. -/
theorem reads_emptyArray (key : String) (hkey : IsBare key)
    (hdefine : draft.define [] key (.array []) = some draft') :
    Reads draft (key.toList ++ " = []\n".toList) draft' := by
  have hvalue (rest : List Char) : readValue (nestingBound - 1) ("[]".toList ++ '\n' :: rest) =
      some (.array [], '\n' :: rest) := by
    show readValue (78 + 1) ('[' :: ']' :: '\n' :: rest) = _
    rw [readValue, readItems, dropFiller]
    · rfl
    all_goals simp
  have hpair := reads_pair hkey (stops_cons_iff.mpr (by decide)) hvalue hdefine
  rwa [List.append_assoc, List.append_assoc] at hpair

/-! ## Headers of arrays of tables -/

/-- A header in double brackets opens an array of tables. -/
theorem reads_header {path : List String} {key : String} {written : List Char}
    (hkey : ∀ t, readKeyParts (written ++ ']' :: t) = some (path ++ [key], ']' :: t))
    (hshort : path.length + 1 < nestingBound) (hopen : draft.openArray path key = some draft') :
    Reads draft ("[[".toList ++ written ++ "]]\n".toList) draft' := by
  apply reads_of_readLine rfl (by decide)
  intro rest
  have hline : "[[".toList ++ written ++ "]]\n".toList ++ rest =
      '[' :: '[' :: (written ++ ']' :: ']' :: '\n' :: rest) := by
    simp
  have hheader : readHeader [']', ']'] (written ++ ']' :: ']' :: '\n' :: rest) =
      some ((path, key), rest) := by
    rw [readHeader, readKey_of_readKeyParts (hkey _) hshort]
    rfl
  rw [hline, readLine, hheader]
  simp [hopen]

/-- A header of one bare key opens an array of tables. -/
theorem reads_arrayHeader (key : String) (hkey : IsBare key)
    (hopen : draft.openArray [] key = some draft') :
    Reads draft ("[[".toList ++ key.toList ++ "]]\n".toList) draft' :=
  reads_header (readKeyParts_bracket hkey) (by decide) hopen

/-- A header of two bare keys opens an array of tables inside another. -/
theorem reads_innerArrayHeader (outer key : String) (houter : IsBare outer) (hkey : IsBare key)
    (hopen : draft.openArray [outer] key = some draft') :
    Reads draft ("[[".toList ++ (outer.toList ++ '.' :: key.toList) ++ "]]\n".toList) draft' := by
  apply reads_header _ _ hopen
  · intro t
    rw [List.append_assoc]
    exact readKeyParts_dot houter (readKeyParts_bracket hkey t)
  · show 2 < nestingBound
    decide

end PackageLock.Toml
