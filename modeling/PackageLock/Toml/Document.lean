import PackageLock.Toml.Scalar
import PackageLock.Toml.Table

/-!
# TOML documents

A document is a sequence of lines: headers, and keys with their values, with comments and blank lines
between them. Reading either yields the entries of the whole document or refuses it; why a text is no
document is not said.

Values may be nested only so deep, which is also why reading comes to an end.
-/

set_option autoImplicit false

namespace PackageLock.Toml

/-! ## Blanks, comments and keys -/

/-- The text without the comment that may begin here, as far as comments go: to the end of the line. -/
def dropComment : List Char → List Char
  | '#' :: s => s.dropWhile isPlain
  | s => s

/-- The rest of a line that holds nothing more than blanks and a comment. -/
def readLineEnd (s : List Char) : Option (List Char) :=
  match dropComment (s.dropWhile isSpace) with
  | [] => some []
  | '\n' :: rest => some rest
  | '\r' :: '\n' :: rest => some rest
  | _ => none

/-- The text without the blanks, line ends and comments at its start. -/
def dropFiller (s : List Char) : List Char :=
  match s with
  | [] => []
  | '\r' :: '\n' :: rest => dropFiller rest
  | '#' :: rest => dropFiller (rest.dropWhile isPlain)
  | c :: rest => if isSpace c || c == '\n' then dropFiller rest else c :: rest
termination_by s.length
decreasing_by
  · simp only [List.length_cons]; omega
  · have := (List.dropWhile_sublist isPlain (l := rest)).length_le
    simp only [List.length_cons]
    omega
  · simp

/-- The characters of keys without quotes. -/
def isBareKeyChar (c : Char) : Bool :=
  c.isAlphanum || c == '-' || c == '_'

/-- Reads one part of a key. -/
def readSimpleKey : List Char → Option (List Char × List Char)
  | [] => none
  | c :: s =>
    if c = '"' then readBasic s
    else if c = '\'' then readLiteral s
    else if isBareKeyChar c then
      some (c :: s.takeWhile isBareKeyChar, s.dropWhile isBareKeyChar)
    else none

/-- Reads the parts of a key. Blanks may stand around each of them. -/
def readKeyParts (s : List Char) : Option (List String × List Char) := do
  let (part, rest) ← readSimpleKey (s.dropWhile isSpace)
  match rest.dropWhile isSpace with
  | '.' :: rest =>
    if rest.length < s.length then do
      let (parts, rest) ← readKeyParts rest
      return (String.ofList part :: parts, rest)
    else none
  | rest => return ([String.ofList part], rest)
termination_by s.length

/-- Values, keys and headers have fewer levels than this. -/
def nestingBound : Nat := 80

/-- Reads a key: the parts on the way and the last one. -/
def readKey (s : List Char) : Option ((List String × String) × List Char) := do
  let (parts, rest) ← readKeyParts s
  match parts.getLast? with
  | some last => if parts.length < nestingBound then some ((parts.dropLast, last), rest) else none
  | none => none

/-! ## Values -/

/-- Reads the items of an array to its closing bracket, with `item` for a reader of one of them. After
the last item there may be a comma. -/
def readItems (item : List Char → Option (Value × List Char)) (s : List Char) :
    Option (List Value × List Char) :=
  match dropFiller s with
  | ']' :: rest => some ([], rest)
  | start => do
    let (value, rest) ← item start
    match dropFiller rest with
    | ']' :: rest => some ([value], rest)
    | ',' :: rest =>
      if rest.length < s.length then do
        let (values, rest) ← readItems item rest
        return (value :: values, rest)
      else none
    | _ => none
termination_by s.length

/-- Reads a key, its equals sign and its value, with `item` for a reader of the value. -/
def readPair (item : List Char → Option (Value × List Char)) (s : List Char) :
    Option (((List String × String) × Value) × List Char) := do
  let (key, rest) ← readKey s
  match rest with
  | '=' :: rest => do
    let (value, rest) ← item (rest.dropWhile isSpace)
    return ((key, value), rest)
  | _ => none

/-- Reads the pairs of a table to its closing brace. There is a pair after every comma. -/
def readPairs (item : List Char → Option (Value × List Char)) (s : List Char) :
    Option (List ((List String × String) × Value) × List Char) := do
  let (pair, rest) ← readPair item s
  match rest.dropWhile isSpace with
  | '\x7d' :: rest => some ([pair], rest)
  | ',' :: rest =>
    if rest.length < s.length then do
      let (pairs, rest) ← readPairs item rest
      return (pair :: pairs, rest)
    else none
  | _ => none
termination_by s.length

/-- Reads a table after its opening brace. -/
def readInline (item : List Char → Option (Value × List Char)) (s : List Char) :
    Option (Value × List Char) :=
  match s.dropWhile isSpace with
  | '\x7d' :: rest => some (.table .inline [], rest)
  | start => do
    let (pairs, rest) ← readPairs item start
    return (.table .inline (← Entries.ofPairs pairs), rest)

/-- Reads a value that is neither an array nor a table. What begins like a number is read as a date or
time if it can be, else as a floating-point number, else as an integer. -/
def readScalar (s : List Char) : Option (Value × List Char) :=
  match s with
  | 't' :: 'r' :: 'u' :: 'e' :: rest => some (.boolean true, rest)
  | 'f' :: 'a' :: 'l' :: 's' :: 'e' :: rest => some (.boolean false, rest)
  | '"' :: _ | '\'' :: _ => (readString s).map fun (text, rest) => (.string (String.ofList text), rest)
  | _ =>
    match readDatetime s with
    | some (text, rest) => some (.datetime (String.ofList text), rest)
    | none =>
      match readFloat s with
      | some (value, rest) => some (.float value, rest)
      | none => (readInteger s).map fun (value, rest) => (.integer value, rest)

/-- Reads a value in which arrays and tables are nested at most `depth` times. -/
def readValue (depth : Nat) (s : List Char) : Option (Value × List Char) :=
  match depth, s with
  | 0, '[' :: _ => none
  | 0, '\x7b' :: _ => none
  | depth + 1, '[' :: rest => do
    let (items, rest) ← readItems (readValue depth) rest
    return (.array items, rest)
  | depth + 1, '\x7b' :: rest => readInline (readValue depth) rest
  | _, s => readScalar s

/-! ## Lines -/

/-- Reads a header after its opening brackets, which `closing` matches. -/
def readHeader (closing : List Char) (s : List Char) :
    Option ((List String × String) × List Char) := do
  let (key, rest) ← readKey s
  if closing.isPrefixOf rest then
    return (key, ← readLineEnd (rest.drop closing.length))
  else none

/-- Reads the line at the start of `s`, which does not begin with a blank, and adds it to the draft. -/
def readLine (draft : Draft) (s : List Char) : Option (Draft × List Char) :=
  match s with
  | '#' :: _ | '\n' :: _ | '\r' :: _ => (readLineEnd s).map (draft, ·)
  | '[' :: '[' :: rest => do
    let ((path, key), rest) ← readHeader [']', ']'] rest
    return (← draft.openArray path key, rest)
  | '[' :: rest => do
    let ((path, key), rest) ← readHeader [']'] rest
    return (← draft.openTable path key, rest)
  | _ => do
    let (((path, key), value), rest) ← readPair (readValue (nestingBound - 1)) s
    let rest ← readLineEnd rest
    return (← draft.define path key value, rest)

/-- Reads all lines of `s` into the draft. -/
def readLines (draft : Draft) (s : List Char) : Option Draft :=
  match s.dropWhile isSpace with
  | [] => some draft
  | start => do
    let (draft, rest) ← readLine draft start
    if rest.length < s.length then readLines draft rest else none
termination_by s.length

/-- The text without a byte order mark. -/
def dropMark : List Char → List Char
  | '\uFEFF' :: s => s
  | s => s

/-- Reads a document. -/
def parse (text : String) : Option Entries := do
  (← readLines Draft.empty (dropMark text.toList)).close

end PackageLock.Toml
