import PackageLock.Toml.Text

/-!
# Written strings

The form in which a string is written is the plainest one that needs no escapes: double quotes, then
apostrophes, then three double quotes, then three apostrophes. Only a string that none of these can
hold is written with escapes. A form with three quotes begins on a new line if the string has several.
-/

set_option autoImplicit false

namespace PackageLock.Toml

/-- A character that no form can hold without an escape. -/
def needsEscape (c : Char) : Bool :=
  c != '\t' && c != '\n' && (c.toNat ≤ 0x1F || c.toNat == 0x7F)

/-- The length of the longest run of `c`, when `run` of them stand before the text. -/
def longestRun (c : Char) (run : Nat) : List Char → Nat
  | [] => run
  | d :: s => if d = c then longestRun c (run + 1) s else max run (longestRun c 0 s)

/-- The four forms of a string. -/
inductive StringForm where
  | basic
  | literal
  | longBasic
  | longLiteral
  deriving DecidableEq, Repr

/-- The form in which a string is written. -/
def StringForm.of (s : List Char) : StringForm :=
  let escapes := s.any needsEscape
  let lines := s.contains '\n'
  if !escapes && !s.contains '\\' && !s.contains '"' && !lines then .basic
  else if !escapes && !s.contains '\'' && !lines then .literal
  else if !escapes && !s.contains '\\' && longestRun '"' 0 s ≤ 2 then .longBasic
  else if !escapes && longestRun '\'' 0 s ≤ 2 then .longLiteral
  else if lines then .longBasic
  else .basic

/-- A hexadecimal digit in upper case. -/
def upperHexDigit (n : Nat) : Char :=
  if n < 10 then Char.ofNat ('0'.toNat + n) else Char.ofNat ('A'.toNat + (n - 10))

/-- A control character by its number, in four digits. -/
def escapedByNumber (c : Char) : List Char :=
  let n := c.toNat
  ['\\', 'u', upperHexDigit (n / 4096 % 16), upperHexDigit (n / 256 % 16),
    upperHexDigit (n / 16 % 16), upperHexDigit (n % 16)]

/-- A character other than a double quote, between one double quote or three of them. -/
def escapedChar (long : Bool) (c : Char) : List Char :=
  if c = '\x08' then ['\\', 'b']
  else if c = '\t' then ['\\', 't']
  else if c = '\n' then if long then [c] else ['\\', 'n']
  else if c = '\x0c' then ['\\', 'f']
  else if c = '\r' then ['\\', 'r']
  else if c = '\\' then ['\\', '\\']
  else if needsEscape c then escapedByNumber c
  else [c]

/-- A text between double quotes. Between three of them up to two in a row stand as they are; `run` is
how many have just been written so. -/
def escaped (long : Bool) (run : Nat) : List Char → List Char
  | [] => []
  | c :: s =>
    if c = '"' then
      if long && run < 2 then '"' :: escaped long (run + 1) s
      else '\\' :: '"' :: escaped long 0 s
    else escapedChar long c ++ escaped long 0 s

/-- The line end after the opening quotes of a string with several lines. -/
def leadingLineEnd (s : List Char) : List Char :=
  if s.contains '\n' then ['\n'] else []

/-- A string in a given form. -/
def StringForm.write (s : List Char) : StringForm → List Char
  | .basic => '"' :: escaped false 0 s ++ ['"']
  | .literal => '\'' :: s ++ ['\'']
  | .longBasic => ['"', '"', '"'] ++ leadingLineEnd s ++ escaped true 0 s ++ ['"', '"', '"']
  | .longLiteral => ['\'', '\'', '\''] ++ leadingLineEnd s ++ s ++ ['\'', '\'', '\'']

/-- A string as a document has it. -/
def writeString (text : String) : List Char :=
  (StringForm.of text.toList).write text.toList

/-- A line with a key and a string. -/
def writeEntry (key : String) (text : String) : List Char :=
  key.toList ++ " = ".toList ++ writeString text ++ ['\n']

end PackageLock.Toml
