import PackageLock.Version

/-!
# Requirements on a version

A comparator is an operator with a version whose last numbers may be left out; a requirement is a list
of comparators that must all hold. A number left out, or written as a wildcard, bounds nothing.

Pre-releases are opt-in: a pre-release satisfies a requirement only if one of its comparators names a
pre-release of the same three numbers.
-/

set_option autoImplicit false

namespace PackageLock

/-- A version of which only the first numbers may be given. Only a full one can be a pre-release. -/
inductive PartialVersion where
  | major (major : Nat)
  | minor (major minor : Nat)
  | full (major minor patch : Nat) (pre : List Identifier)
  deriving DecidableEq, Repr

/-- How a comparator relates a version to the one it names. -/
inductive Relation where
  | exact
  | greater
  | greaterEq
  | less
  | lessEq
  /-- At least the named version, with the same numbers as far as the minor one. -/
  | tilde
  /-- At least the named version, with the same numbers as far as the first that is not zero. -/
  | caret
  /-- A bare version with a wildcard among its numbers. -/
  | wildcard
  deriving DecidableEq, Repr

/-- One comparison that a version has to pass. -/
structure Comparator where
  relation : Relation
  bound : PartialVersion
  deriving DecidableEq, Repr

namespace PartialVersion

/-- The version agrees with every number given, and its pre-release is the one given. -/
def agrees (v : Version) : PartialVersion → Bool
  | .major a => v.major == a && v.pre == []
  | .minor a b => v.major == a && v.minor == b && v.pre == []
  | .full a b c pre => v.major == a && v.minor == b && v.patch == c && v.pre == pre

/-- The place of the version relative to the numbers given; the pre-release decides only if all three
numbers are given and equal. -/
def place (v : Version) : PartialVersion → Ordering
  | .major a => compare v.major a
  | .minor a b => (compare v.major a).then (compare v.minor b)
  | .full a b c pre =>
    (compare v.major a).then ((compare v.minor b).then
      ((compare v.patch c).then (comparePre v.pre pre)))

/-- At least the version given, by the patch number and the pre-release alone. -/
def patchReached (v : Version) (patch : Nat) (pre : List Identifier) : Bool :=
  if v.patch ≠ patch then patch < v.patch else (comparePre v.pre pre).isGE

/-- The relation `tilde`. -/
def tildeHolds (v : Version) : PartialVersion → Bool
  | .major a => v.major == a && v.pre == []
  | .minor a b => v.major == a && v.minor == b && v.pre == []
  | .full a b c pre => v.major == a && v.minor == b && patchReached v c pre

/-- The relation `caret`. -/
def caretHolds (v : Version) : PartialVersion → Bool
  | .major a => v.major == a
  | .minor a b => v.major == a && (if 0 < a then b ≤ v.minor else v.minor == b)
  | .full a b c pre =>
    v.major == a &&
      (if 0 < a then
        if v.minor ≠ b then b < v.minor else patchReached v c pre
      else if 0 < b then
        v.minor == b && patchReached v c pre
      else
        v.minor == b && v.patch == c && (comparePre v.pre pre).isGE)

/-- The bound names a pre-release of the version's own three numbers. -/
def namesPreOf (v : Version) : PartialVersion → Bool
  | .full a b c pre => a == v.major && b == v.minor && c == v.patch && pre != []
  | _ => false

end PartialVersion

namespace Comparator

/-- Whether the version passes the comparison, the opt-in of pre-releases apart. -/
def holds (v : Version) (c : Comparator) : Bool :=
  match c.relation with
  | .exact | .wildcard => c.bound.agrees v
  | .greater => c.bound.place v == .gt
  | .greaterEq => c.bound.agrees v || c.bound.place v == .gt
  | .less => c.bound.place v == .lt
  | .lessEq => c.bound.agrees v || c.bound.place v == .lt
  | .tilde => c.bound.tildeHolds v
  | .caret => c.bound.caretHolds v

/-- Whether the version satisfies every comparator of a requirement. -/
def allHold (comparators : List Comparator) (v : Version) : Bool :=
  comparators.all (·.holds v) && (v.isRelease || comparators.any (·.bound.namesPreOf v))

/-- The operator at the start of `s`, if any, and what follows it. -/
def readRelation : List Char → Option Relation × List Char
  | '=' :: s => (some .exact, s)
  | '>' :: '=' :: s => (some .greaterEq, s)
  | '>' :: s => (some .greater, s)
  | '<' :: '=' :: s => (some .lessEq, s)
  | '<' :: s => (some .less, s)
  | '~' :: s => (some .tilde, s)
  | '^' :: s => (some .caret, s)
  | s => (none, s)

/-- A wildcard stands for a number that bounds nothing. -/
def isWildcard (c : Char) : Bool :=
  c == '*' || c == 'x' || c == 'X'

/-- What stands in the place of a minor or patch number. -/
inductive Component where
  | absent
  | wildcard
  | number (value : Nat)
  deriving DecidableEq, Repr

open Version (Malformed Part readNumber readPre readBuild readEnd)

/-- Reads the number, or the wildcard in its place, after the point with which `s` may begin. -/
def readComponent (part : Part) (s : List Char) : Except Malformed (Component × List Char) :=
  match s with
  | '.' :: c :: s =>
    if isWildcard c then .ok (.wildcard, s)
    else do
      let (value, s) ← readNumber part (c :: s)
      return (.number value, s)
  | ['.'] => .error (.endsIn part)
  | s => .ok (.absent, s)

/-- The relation meant when no operator is written: `caret`, unless a wildcard stands for a number. -/
def bareRelation (hasWildcard : Bool) : Relation :=
  if hasWildcard then .wildcard else .caret

/-- Reads a comparator. A build is accepted after all three numbers and has no effect. -/
def read (s : List Char) : Except Malformed Comparator := do
  let (relation, s) := readRelation s
  let (major, s) ← readNumber .major s
  let (minor, s) ← readComponent .minor s
  match minor with
  | .absent =>
    readEnd .major s
    return ⟨relation.getD (bareRelation false), .major major⟩
  | .wildcard =>
    let (part, s) ← readAfterWildcard s
    readEnd part s
    return ⟨relation.getD (bareRelation true), .major major⟩
  | .number minor =>
    let (patch, s) ← readComponent .patch s
    match patch with
    | .absent =>
      readEnd .minor s
      return ⟨relation.getD (bareRelation false), .minor major minor⟩
    | .wildcard =>
      readEnd .patch s
      return ⟨relation.getD (bareRelation true), .minor major minor⟩
    | .number patch =>
      let (pre, part, s) ← readPre .patch s
      let (_, part, s) ← readBuild part s
      readEnd part s
      return ⟨relation.getD (bareRelation false), .full major minor patch pre⟩
where
  /-- After a wildcard in the place of the minor number only another wildcard may stand. -/
  readAfterWildcard (s : List Char) : Except Malformed (Part × List Char) :=
    match s with
    | '.' :: c :: s =>
      if isWildcard c then .ok (.patch, s) else .error .numberAfterWildcard
    | ['.'] => .error .numberAfterWildcard
    | s => .ok (.minor, s)

end Comparator

end PackageLock
