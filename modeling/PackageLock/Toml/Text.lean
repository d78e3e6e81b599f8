/-!
# TOML text

The four ways to write a string: between single or triple quotes, with escapes inside double quotes and
without them inside apostrophes. Each reader is given the text after the opening quotes and returns the
string with what follows its closing quotes.
-/

set_option autoImplicit false

namespace PackageLock.Toml

/-- The characters that may stand in a string or a comment as they are: all but control characters,
the tab excepted. -/
def isPlain (c : Char) : Bool :=
  c == '\t' || (0x20 ≤ c.toNat && c.toNat ≠ 0x7F)

/-- Spaces and tabs. -/
def isSpace (c : Char) : Bool :=
  c == ' ' || c == '\t'

/-- The value of a hexadecimal digit. -/
def hexValue? (c : Char) : Option Nat :=
  if '0' ≤ c ∧ c ≤ '9' then some (c.toNat - '0'.toNat)
  else if 'a' ≤ c ∧ c ≤ 'f' then some (c.toNat - 'a'.toNat + 10)
  else if 'A' ≤ c ∧ c ≤ 'F' then some (c.toNat - 'A'.toNat + 10)
  else none

/-- Reads exactly `count` hexadecimal digits, after those that make up `value`. -/
def readHex (value : Nat) : (count : Nat) → List Char → Option (Nat × List Char)
  | 0, s => some (value, s)
  | _ + 1, [] => none
  | count + 1, c :: s => do readHex (16 * value + (← hexValue? c)) count s

/-- Reads a character given by `count` hexadecimal digits. -/
def readCodePoint (count : Nat) (s : List Char) : Option (Char × List Char) := do
  let (n, rest) ← readHex 0 count s
  if n.isValidChar then some (Char.ofNat n, rest) else none

/-- Reads what stands after a backslash. -/
def readEscape : List Char → Option (Char × List Char)
  | [] => none
  | c :: s =>
    if c = 'b' then some ('\x08', s)
    else if c = 't' then some ('\t', s)
    else if c = 'n' then some ('\n', s)
    else if c = 'f' then some ('\x0c', s)
    else if c = 'r' then some ('\r', s)
    else if c = '"' then some ('"', s)
    else if c = '\\' then some ('\\', s)
    else if c = 'u' then readCodePoint 4 s
    else if c = 'U' then readCodePoint 8 s
    else none

/-- Reading digits leaves no more characters than there were. -/
theorem length_readHex_le {value count : Nat} {s rest : List Char} {n : Nat}
    (h : readHex value count s = some (n, rest)) : rest.length ≤ s.length := by
  induction count generalizing value s with
  | zero => simp [readHex] at h; simp [h.2]
  | succ count ih =>
    cases s with
    | nil => simp [readHex] at h
    | cons c s =>
      simp only [readHex, bind, Option.bind] at h
      split at h
      · simp at h
      · have := ih h
        simp only [List.length_cons]
        omega

/-- Reading a code point leaves no more characters than there were. -/
theorem length_readCodePoint_le {count : Nat} {s rest : List Char} {c : Char}
    (h : readCodePoint count s = some (c, rest)) : rest.length ≤ s.length := by
  simp only [readCodePoint, bind, Option.bind] at h
  split at h
  · simp at h
  · rename_i pair hp
    dsimp only at h
    split at h
    · simp only [Option.some.injEq, Prod.mk.injEq] at h
      exact h.2 ▸ length_readHex_le hp
    · simp at h

/-- An escape takes at least one character, so reading a string comes to an end. -/
theorem length_readEscape_lt {s rest : List Char} {c : Char}
    (h : readEscape s = some (c, rest)) : rest.length < s.length := by
  cases s with
  | nil => simp [readEscape] at h
  | cons d s =>
    have step : ∀ {e : Char}, some (e, s) = some (c, rest) → rest.length < (d :: s).length := by
      intro e he
      simp only [Option.some.injEq, Prod.mk.injEq] at he
      simp [he.2]
    have step' : ∀ {count : Nat}, readCodePoint count s = some (c, rest) →
        rest.length < (d :: s).length := by
      intro count he
      exact Nat.lt_succ_of_le (length_readCodePoint_le he)
    simp only [readEscape] at h
    repeat' split at h
    all_goals first
      | exact step h
      | exact step' h
      | simp at h

/-! ## Strings on one line -/

set_option linter.unusedVariables false in
/-- Reads a string to its closing double quote. -/
def readBasic (s : List Char) : Option (List Char × List Char) :=
  match s with
  | [] => none
  | '"' :: rest => some ([], rest)
  | '\\' :: rest =>
    match h : readEscape rest with
    | none => none
    | some (c, after) => do
      let (text, rest) ← readBasic after
      return (c :: text, rest)
  | c :: rest =>
    if isPlain c then do
      let (text, rest) ← readBasic rest
      return (c :: text, rest)
    else none
termination_by s.length
decreasing_by
  · have := length_readEscape_lt h
    simp only [List.length_cons]
    omega
  · simp

/-- Reads a string to its closing apostrophe. -/
def readLiteral : List Char → Option (List Char × List Char)
  | [] => none
  | c :: rest =>
    if c = '\'' then some ([], rest)
    else if isPlain c then do
      let (text, rest) ← readLiteral rest
      return (c :: text, rest)
    else none

/-! ## Strings on several lines -/

/-- The text without a line end at its start. -/
def dropLineEnd : List Char → List Char
  | '\n' :: s => s
  | '\r' :: '\n' :: s => s
  | s => s

/-- The text without the blanks and line ends at its start. -/
def dropBlankLines : List Char → List Char
  | [] => []
  | '\r' :: '\n' :: s => dropBlankLines s
  | c :: s => if isSpace c || c == '\n' then dropBlankLines s else c :: s

/-- Dropping blank lines leaves no more characters than there were. -/
theorem length_dropBlankLines_le (s : List Char) : (dropBlankLines s).length ≤ s.length := by
  fun_induction dropBlankLines s with
  | case1 => simp
  | case2 s ih => simp only [List.length_cons]; omega
  | case3 c s _ _ ih => simp only [List.length_cons]; omega
  | case4 => simp

/-- After a backslash: the rest of the line is blank, so the string goes on at the next character that
is neither blank nor a line end. -/
def continuation? (s : List Char) : Option (List Char) :=
  match s.dropWhile isSpace with
  | '\n' :: rest => some (dropBlankLines rest)
  | '\r' :: '\n' :: rest => some (dropBlankLines rest)
  | _ => none

/-- A continued line uses up characters. -/
theorem length_continuation?_lt {s rest : List Char} (h : continuation? s = some rest) :
    rest.length < s.length := by
  have hd : (s.dropWhile isSpace).length ≤ s.length :=
    (List.dropWhile_sublist isSpace).length_le
  unfold continuation? at h
  split at h
  · rename_i r hr
    simp only [Option.some.injEq] at h
    have := length_dropBlankLines_le r
    rw [hr] at hd
    simp only [List.length_cons] at hd
    subst h
    omega
  · rename_i r hr
    simp only [Option.some.injEq] at h
    have := length_dropBlankLines_le r
    rw [hr] at hd
    simp only [List.length_cons] at hd
    subst h
    omega
  · simp at h

/-- The quotes that may still belong to a string after the three that close it. -/
def closingQuotes (quote : Char) : List Char → List Char × List Char
  | [] => ([], [])
  | [c] => if c = quote then ([c], []) else ([], [c])
  | c :: d :: s =>
    if c = quote then
      if d = quote then ([c, d], s) else ([c], d :: s)
    else ([], c :: d :: s)

set_option linter.unusedVariables false in
/-- Reads a string to its closing three double quotes. -/
def readLongBasic (s : List Char) : Option (List Char × List Char) :=
  match s with
  | [] => none
  | '"' :: '"' :: '"' :: rest => some (closingQuotes '"' rest)
  | '\\' :: rest =>
    match hc : continuation? rest with
    | some after => readLongBasic after
    | none =>
      match h : readEscape rest with
      | none => none
      | some (c, after) => do
        let (text, rest) ← readLongBasic after
        return (c :: text, rest)
  | '\r' :: '\n' :: rest => do
    let (text, rest) ← readLongBasic rest
    return ('\n' :: text, rest)
  | c :: rest =>
    if isPlain c || c == '\n' then do
      let (text, rest) ← readLongBasic rest
      return (c :: text, rest)
    else none
termination_by s.length
decreasing_by
  · have := length_continuation?_lt hc
    simp only [List.length_cons]
    omega
  · have := length_readEscape_lt h
    simp only [List.length_cons]
    omega
  · simp only [List.length_cons]; omega
  · simp

/-- Reads a string to its closing three apostrophes. -/
def readLongLiteral : List Char → Option (List Char × List Char)
  | [] => none
  | '\'' :: '\'' :: '\'' :: rest => some (closingQuotes '\'' rest)
  | '\r' :: '\n' :: rest => do
    let (text, rest) ← readLongLiteral rest
    return ('\n' :: text, rest)
  | c :: rest =>
    if isPlain c || c == '\n' then do
      let (text, rest) ← readLongLiteral rest
      return (c :: text, rest)
    else none

/-! ## All strings -/

/-- Reads a string in any of the four forms. -/
def readString : List Char → Option (List Char × List Char)
  | '"' :: '"' :: '"' :: s => readLongBasic (dropLineEnd s)
  | '"' :: s => readBasic s
  | '\'' :: '\'' :: '\'' :: s => readLongLiteral (dropLineEnd s)
  | '\'' :: s => readLiteral s
  | _ => none

end PackageLock.Toml
