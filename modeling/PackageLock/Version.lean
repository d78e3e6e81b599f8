import PackageLock.Text.Fields
import PackageLock.Text.Quoted

/-!
# Versions

A semantic version: three numbers, the identifiers of a pre-release and the identifiers of the build; the
order of pre-releases; and how versions are read, as they stand and as they are recorded for installed
packages.
-/

set_option autoImplicit false

namespace PackageLock

/-! ## What a version is

Pre-release identifiers are ordered, so they are kept by meaning, a number or a word; build identifiers
only tell two versions apart, so they are kept as text.
-/

/-- One identifier of a pre-release. A run of digits is a number; anything else is a word. -/
inductive Identifier where
  | numeric (value : Nat)
  | word (text : String)
  deriving DecidableEq, Repr

/-- The written form of an identifier. -/
def Identifier.render : Identifier → String
  | .numeric value => toString value
  | .word text => text

/-- A semantic version. -/
structure Version where
  major : Nat
  minor : Nat
  patch : Nat
  pre : List Identifier
  build : List String
  deriving DecidableEq, Repr

namespace Version

/-- A version without pre-release and build. -/
def release (major minor patch : Nat) : Version :=
  ⟨major, minor, patch, [], []⟩

/-- A version that is not a pre-release. -/
def isRelease (v : Version) : Bool :=
  v.pre.isEmpty

/-- The pre-release of a version, empty if it has none. -/
def preText (v : Version) : String :=
  ".".intercalate (v.pre.map Identifier.render)

/-- The build of a version, empty if it has none. -/
def buildText (v : Version) : String :=
  ".".intercalate v.build

/-- The written form of a version. -/
def render (v : Version) : String :=
  toString v.major ++ "." ++ toString v.minor ++ "." ++ toString v.patch
    ++ (if v.pre.isEmpty then "" else "-" ++ v.preText)
    ++ (if v.build.isEmpty then "" else "+" ++ v.buildText)

end Version

/-! ## Precedence

The order of pre-releases. Identifiers are compared one by one: numbers by value, words by their
characters, a number before a word, and of two lists that agree as far as they go the shorter comes
first. No pre-release at all comes last, since a release follows all of its pre-releases. Builds have
no place in the order.
-/

/-- Numbers come before words. -/
def Identifier.compare : Identifier → Identifier → Ordering
  | .numeric a, .numeric b => Ord.compare a b
  | .numeric _, .word _ => .lt
  | .word _, .numeric _ => .gt
  | .word a, .word b => Ord.compare a b

/-- Two lists of identifiers, compared at the first place where they differ. -/
def compareIdentifiers : List Identifier → List Identifier → Ordering
  | [], [] => .eq
  | [], _ :: _ => .lt
  | _ :: _, [] => .gt
  | a :: as, b :: bs => (a.compare b).then (compareIdentifiers as bs)

/-- The order of pre-releases, in which the empty one is the greatest. -/
def comparePre : List Identifier → List Identifier → Ordering
  | [], [] => .eq
  | [], _ :: _ => .gt
  | _ :: _, [] => .lt
  | a :: as, b :: bs => compareIdentifiers (a :: as) (b :: bs)

/-! ## Reading versions

A version is read from left to right, and the first thing that is wrong with it is reported together
with the part of the version in which it stands. Numbers have no leading zeros and stay below 2^64.
-/

namespace Version

/-- The parts of a version, for messages. -/
inductive Part where
  | major
  | minor
  | patch
  | preRelease
  | build
  deriving DecidableEq, Repr

/-- What a part is called in a message. -/
def Part.name : Part → String
  | .major => "major version number"
  | .minor => "minor version number"
  | .patch => "patch version number"
  | .preRelease => "pre-release identifier"
  | .build => "build metadata"

/-- Why a text is no version, or no version requirement. -/
inductive Malformed where
  /-- The text ends inside the part, or before the point that should follow it. -/
  | endsIn (part : Part)
  /-- The part does not begin with this character. -/
  | startsWith (part : Part) (c : Char)
  /-- The character cannot follow the part. -/
  | followedBy (part : Part) (c : Char)
  /-- A number has a leading zero. -/
  | leadingZero (part : Part)
  /-- A number is 2^64 or more. -/
  | tooLarge (part : Part)
  /-- An identifier is empty. -/
  | emptyIdentifier (part : Part)
  /-- A number follows a wildcard. -/
  | numberAfterWildcard
  deriving DecidableEq, Repr

/-- The number that a run of decimal digits stands for. -/
def valueOfDigits (digits : List Char) : Nat :=
  digits.foldl (fun value d => 10 * value + (d.toNat - '0'.toNat)) 0

/-- The numbers of a version are below this bound, which is 2^64. -/
def numberBound : Nat := 0x10000000000000000

/-- Reads the number at the start of `s`. -/
def readNumber (part : Part) (s : List Char) : Except Malformed (Nat × List Char) :=
  match s.takeWhile Char.isDigit, s.dropWhile Char.isDigit with
  | [], [] => .error (.endsIn part)
  | [], c :: _ => .error (.startsWith part c)
  | d :: ds, rest =>
    if d = '0' && !ds.isEmpty then .error (.leadingZero part)
    else if numberBound ≤ valueOfDigits (d :: ds) then .error (.tooLarge part)
    else .ok (valueOfDigits (d :: ds), rest)

/-- Reads the point that must follow the number of `part`. -/
def readPoint (part : Part) : List Char → Except Malformed (List Char)
  | [] => .error (.endsIn part)
  | c :: rest => if c = '.' then .ok rest else .error (.followedBy part c)

/-- The characters of identifiers: ASCII letters, digits and the hyphen. -/
def isIdentifierChar (c : Char) : Bool :=
  c.isAlphanum || c = '-'

/-- The dotted run of identifiers at the start of `s`, cut at its points, and what follows it. -/
def identifierFields (s : List Char) : List (List Char) × List Char :=
  let inRun := fun c => isIdentifierChar c || c == '.'
  (Text.fields (· == '.') (s.takeWhile inRun), s.dropWhile inRun)

/-- Reads one identifier of a pre-release. -/
def readPreIdentifier (field : List Char) : Except Malformed Identifier :=
  match field with
  | [] => .error (.emptyIdentifier .preRelease)
  | c :: cs =>
    if (c :: cs).all Char.isDigit then
      if c = '0' && !cs.isEmpty then .error (.leadingZero .preRelease)
      else .ok (.numeric (valueOfDigits (c :: cs)))
    else .ok (.word (String.ofList (c :: cs)))

/-- Reads one identifier of a build. -/
def readBuildIdentifier (field : List Char) : Except Malformed String :=
  if field.isEmpty then .error (.emptyIdentifier .build)
  else .ok (String.ofList field)

/-- Reads a pre-release if one begins at `s`, and says where reading has come to: `part` is the part
read before. -/
def readPre (part : Part) (s : List Char) :
    Except Malformed (List Identifier × Part × List Char) :=
  match s with
  | '-' :: s => do
    let (parts, rest) := identifierFields s
    let pre ← parts.mapM readPreIdentifier
    return (pre, .preRelease, rest)
  | s => return ([], part, s)

/-- Reads a build if one begins at `s`, and says where reading has come to. -/
def readBuild (part : Part) (s : List Char) :
    Except Malformed (List String × Part × List Char) :=
  match s with
  | '+' :: s => do
    let (parts, rest) := identifierFields s
    let build ← parts.mapM readBuildIdentifier
    return (build, .build, rest)
  | s => return ([], part, s)

/-- Nothing may follow the last part. -/
def readEnd (part : Part) : List Char → Except Malformed Unit
  | [] => .ok ()
  | c :: _ => .error (.followedBy part c)

/-- Reads a full version: all three numbers, then the pre-release and the build if there are any. -/
def read (s : List Char) : Except Malformed Version := do
  let (major, s) ← readNumber .major s
  let s ← readPoint .major s
  let (minor, s) ← readNumber .minor s
  let s ← readPoint .minor s
  let (patch, s) ← readNumber .patch s
  let (pre, part, s) ← readPre .patch s
  let (build, part, s) ← readBuild part s
  readEnd part s
  return ⟨major, minor, patch, pre, build⟩

end Version

/-! ## Installed versions

The version recorded for an installed package is free text. It counts as a version if, without
surrounding blanks and one leading `v`, it is a full semantic version, or one or two numbers; the
numbers left out are then zero.
-/

namespace Version

/-- The wording of a malformation. -/
def Malformed.message : Malformed → String
  | .endsIn part => "unexpected end of input while parsing " ++ part.name
  | .startsWith part c => "unexpected character " ++ Text.quoteChar c ++ " while parsing " ++ part.name
  | .followedBy part c => "unexpected character " ++ Text.quoteChar c ++ " after " ++ part.name
  | .leadingZero part => "invalid leading zero in " ++ part.name
  | .tooLarge part => "value of " ++ part.name ++ " exceeds u64::MAX"
  | .emptyIdentifier part => "empty identifier segment in " ++ part.name
  | .numberAfterWildcard => "unexpected character after wildcard in version req"

/-- Why a recorded version is none. -/
inductive InstalledError where
  /-- Nothing is left of `version` to be read. -/
  | empty (version : String)
  | malformed (version : String) (cause : Malformed)
  deriving DecidableEq, Repr

/-- The wording of the error. -/
def InstalledError.message : InstalledError → String
  | .empty version => "invalid version " ++ Text.quote version ++ ": empty version"
  | .malformed version cause => "invalid version " ++ Text.quote version ++ ": " ++ cause.message

/-- The text without one leading `v` or `V`. -/
def dropV : List Char → List Char
  | 'v' :: s => s
  | 'V' :: s => s
  | s => s

/-- One or two dotted runs of digits, filled up with zeros to three. -/
def padded? (s : List Char) : Option (List Char) :=
  let isNumber := fun field : List Char => !field.isEmpty && field.all Char.isDigit
  match Text.fields (· == '.') s with
  | [major] => if isNumber major then some (major ++ ".0.0".toList) else none
  | [major, minor] =>
    if isNumber major && isNumber minor then some (major ++ '.' :: minor ++ ".0".toList) else none
  | _ => none

/-- Reads a recorded version. -/
def parseInstalled (version : String) : Except InstalledError Version :=
  match dropV (Text.trim version.toList) with
  | [] => .error (.empty version)
  | c :: raw =>
    match read (c :: raw) with
    | .ok v => .ok v
    | .error cause =>
      match (padded? (c :: raw)).map read with
      | some (.ok v) => .ok v
      | _ => .error (.malformed version cause)

end Version

end PackageLock
