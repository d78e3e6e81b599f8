import PackageLock.Toml.Text

/-!
# TOML numbers, dates and times

Readers of the values that are written without quotation marks or brackets. Each takes its text off the
start of its input.
-/

set_option autoImplicit false

namespace PackageLock

/-! ## Numbers

Integers in four bases and floating-point numbers. Underscores may stand between two digits. An integer
has to fit into 64 bits with its sign, and a positive number that is too large for a floating-point one
is refused.
-/

namespace Toml

/-- Removes the underscores from a run of digits, each of which must stand between two digits. -/
def joinDigits? : List Char → Option (List Char)
  | [] => none
  | c :: rest =>
    if c = '_' then none
    else match rest with
      | [] => some [c]
      | '_' :: rest => (joinDigits? rest).map (c :: ·)
      | d :: rest => (joinDigits? (d :: rest)).map (c :: ·)

/-- Reads a run of digits. -/
def readDigits (isDigit : Char → Bool) (s : List Char) : Option (List Char × List Char) := do
  let inRun := fun c => isDigit c || c == '_'
  return (← joinDigits? (s.takeWhile inRun), s.dropWhile inRun)

/-- The value of digits in a base. -/
def valueInBase (base : Nat) (digits : List Char) : Nat :=
  digits.foldl (fun value d => base * value + (hexValue? d).getD 0) 0

/-- Takes a sign off the start: whether it is a minus. -/
def cutSign : List Char → Bool × List Char
  | '-' :: s => (true, s)
  | '+' :: s => (false, s)
  | s => (false, s)

/-- Reads the digits of a decimal number: without a leading zero, unless zero is all. -/
def readDecimal (s : List Char) : Option (List Char × List Char) := do
  let (digits, rest) ← readDigits Char.isDigit s
  if digits.head? = some '0' && 1 < digits.length then none else some (digits, rest)

/-! ### Integers -/

/-- Integers are below this bound, which is 2^63, and not below its negative. -/
def integerBound : Int := 0x8000000000000000

/-- The integers that fit into 64 bits with their sign. -/
def inInt64 (n : Int) : Bool :=
  -integerBound ≤ n && n < integerBound

/-- An integer that fits. -/
def integer? (n : Int) (rest : List Char) : Option (Int × List Char) :=
  if inInt64 n then some (n, rest) else none

/-- Reads the digits of an integer in another base than ten. -/
def readBased (base : Nat) (isDigit : Char → Bool) (s : List Char) : Option (Int × List Char) := do
  let (digits, rest) ← readDigits isDigit s
  integer? (valueInBase base digits) rest

/-- Reads an integer. -/
def readInteger : List Char → Option (Int × List Char)
  | '0' :: 'x' :: s => readBased 16 (fun c => (hexValue? c).isSome) s
  | '0' :: 'o' :: s => readBased 8 (fun c => '0' ≤ c && c ≤ '7') s
  | '0' :: 'b' :: s => readBased 2 (fun c => c == '0' || c == '1') s
  | s => do
    let (negative, s) := cutSign s
    let (digits, rest) ← readDecimal s
    let value : Int := valueInBase 10 digits
    integer? (if negative then -value else value) rest

/-! ### Floating-point numbers -/

/-- The floating-point number nearest to `digits * 10 ^ exponent`. Outside of a wide range of exponents
the answer is zero or infinite whatever the digits are. -/
def nearestFloat (digits : List Char) (exponent : Int) : Float :=
  let value := valueInBase 10 digits
  let size : Int := (toString value).length + exponent
  if value = 0 || size < -400 then 0.0
  else if 400 < size then 1.0 / 0.0
  else Float.ofScientific value (decide (exponent < 0)) exponent.natAbs

/-- Reads an exponent if one begins here. -/
def readExponent (s : List Char) : Option (Option Int × List Char) :=
  match s with
  | c :: s' =>
    if c = 'e' || c = 'E' then do
      let (negative, s') := cutSign s'
      let (digits, rest) ← readDigits Char.isDigit s'
      let value : Int := valueInBase 10 digits
      return (some (if negative then -value else value), rest)
    else some (none, s)
  | [] => some (none, s)

/-- Reads `inf` or `nan`. -/
def readSpecialFloat (negative : Bool) : List Char → Option (Float × List Char)
  | 'i' :: 'n' :: 'f' :: s => some (if negative then -(1.0 / 0.0) else 1.0 / 0.0, s)
  | 'n' :: 'a' :: 'n' :: s => some (0.0 / 0.0, s)
  | _ => none

/-- Reads a floating-point number: one with a fraction, an exponent or both, or a special one. -/
def readFloat (s : List Char) : Option (Float × List Char) :=
  let (negative, s) := cutSign s
  match readSpecialFloat negative s with
  | some answer => some answer
  | none => do
    let (whole, s) ← readDecimal s
    let (fraction, s) ← match s with
      | '.' :: s => do
        let (fraction, s) ← readDigits Char.isDigit s
        pure (some fraction, s)
      | s => pure (none, s)
    let (exponent, rest) ← readExponent s
    if fraction.isNone && exponent.isNone then none
    else
      let fraction := fraction.getD []
      let size := nearestFloat (whole ++ fraction) (exponent.getD 0 - fraction.length)
      if negative then some (-size, rest)
      else if size.isInf then none
      else some (size, rest)

end Toml

/-! ## Dates and times

A date, a time of day, or a date with a time and perhaps an offset. The days of a month depend on the
year, and a minute may have a leap second.
-/

namespace Toml

/-- Takes exactly `count` digits, after those that make up `value`. -/
def takeNumber (value : Nat) : (count : Nat) → List Char → Option (Nat × List Char)
  | 0, s => some (value, s)
  | _ + 1, [] => none
  | count + 1, c :: s =>
    if c.isDigit then takeNumber (10 * value + (c.toNat - '0'.toNat)) count s else none

/-- Takes two digits whose value lies between two bounds. -/
def takeField (low high : Nat) (s : List Char) : Option (Nat × List Char) := do
  let (value, rest) ← takeNumber 0 2 s
  if low ≤ value && value ≤ high then some (value, rest) else none

/-- Takes the character `c`. -/
def takeChar (c : Char) : List Char → Option (List Char)
  | [] => none
  | d :: s => if d = c then some s else none

/-- The length of a month. -/
def daysInMonth (year month : Nat) : Nat :=
  if month = 2 then
    if year % 4 = 0 && (year % 100 ≠ 0 || year % 400 = 0) then 29 else 28
  else if month = 4 || month = 6 || month = 9 || month = 11 then 30
  else 31

/-- Takes a date. -/
def takeDate (s : List Char) : Option (List Char) := do
  let (year, s) ← takeNumber 0 4 s
  let s ← takeChar '-' s
  let (month, s) ← takeField 1 12 s
  let s ← takeChar '-' s
  let (_, s) ← takeField 1 (daysInMonth year month) s
  return s

/-- Takes the fraction of a second, if there is one. -/
def takeFraction (s : List Char) : Option (List Char) :=
  match s with
  | '.' :: c :: rest => if c.isDigit then some (rest.dropWhile Char.isDigit) else none
  | ['.'] => none
  | s => some s

/-- Takes a time of day. -/
def takeTime (s : List Char) : Option (List Char) := do
  let (_, s) ← takeField 0 23 s
  let s ← takeChar ':' s
  let (_, s) ← takeField 0 59 s
  let s ← takeChar ':' s
  let (_, s) ← takeField 0 60 s
  takeFraction s

/-- Takes an offset from universal time, if there is one. -/
def takeOffset (s : List Char) : Option (List Char) :=
  match s with
  | [] => some []
  | c :: rest =>
    if c = 'Z' || c = 'z' then some rest
    else if c = '+' || c = '-' then do
      let (_, s) ← takeField 0 23 rest
      let s ← takeChar ':' s
      let (_, s) ← takeField 0 59 s
      return s
    else some s

/-- Whether the hours and the sign of hours begin here, so that a space after a date belongs to it. -/
def startsTime (s : List Char) : Bool :=
  match takeNumber 0 2 s with
  | some (_, ':' :: _) => true
  | _ => false

/-- Takes the time and the offset after a date, if there are any. -/
def takeTimeAfterDate (s : List Char) : Option (List Char) :=
  match s with
  | [] => some []
  | c :: rest =>
    if (c = 'T' || c = 't' || c = ' ') && startsTime rest then do
      takeOffset (← takeTime rest)
    else some s

/-- Reads a date, a time, or both: the text itself and what follows it. -/
def readDatetime (s : List Char) : Option (List Char × List Char) := do
  let rest ← match takeDate s with
    | some rest => takeTimeAfterDate rest
    | none => takeTime s
  return (s.take (s.length - rest.length), rest)

end Toml

end PackageLock
