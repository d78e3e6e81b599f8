import PackageLock.Version.Requirement
import PackageLock.Version

/-!
# Version constraints

A constraint is one or more alternatives between `||`, and holds if one of them does. An alternative is
a list of terms between commas and blanks that must all hold. A term is an operator and a version:

* `=` and `==`, or no operator at all, ask for the version itself;
* `!=` excludes it;
* `>`, `>=`, `<`, `<=`, `~` and `^` bound the version from one or from both sides;
* a wildcard in the place of a number admits every number there.

An operator may stand apart from its version, and the version may carry a leading `v`.
-/

set_option autoImplicit false

namespace PackageLock

/-- What is wrong with a term. -/
inductive TermFault where
  /-- An operator has no version after it. -/
  | missingVersion
  | malformed (cause : Version.Malformed)
  deriving DecidableEq, Repr

/-- The wording of the fault. -/
def TermFault.message : TermFault → String
  | .missingVersion => "missing version"
  | .malformed cause => cause.message

/-- Why a text is no constraint. -/
inductive ConstraintError where
  /-- The constraint, or one of its alternatives, has no terms. -/
  | empty
  | invalidTerm (term : String) (fault : TermFault)
  deriving DecidableEq, Repr

/-- The wording of the error. -/
def ConstraintError.message : ConstraintError → String
  | .empty => "version constraint is empty"
  | .invalidTerm term fault =>
    "invalid constraint term " ++ Text.quote term ++ ": " ++ fault.message

/-- Terms that must all hold: comparators, and versions that are ruled out. -/
structure Alternative where
  comparators : List Comparator
  excluded : List Version
  deriving DecidableEq, Repr

/-- A parsed constraint. -/
structure Constraint where
  alternatives : List Alternative
  deriving DecidableEq, Repr

/-- Whether the version satisfies every term. An excluded version is meant with its build. -/
def Alternative.admits (alternative : Alternative) (v : Version) : Bool :=
  Comparator.allHold alternative.comparators v && !alternative.excluded.contains v

namespace Constraint

/-- Whether the version satisfies some alternative. -/
def admits (constraint : Constraint) (v : Version) : Bool :=
  constraint.alternatives.any (·.admits v)

/-! ## Cutting a constraint into terms -/

/-- The parts of a text between `||`. -/
def alternativeTexts : List Char → List (List Char)
  | [] => [[]]
  | '|' :: '|' :: rest => [] :: alternativeTexts rest
  | c :: rest =>
    match alternativeTexts rest with
    | [] => [[c]]
    | part :: parts => (c :: part) :: parts

/-- The characters of which operators are made. -/
def isOperatorChar (c : Char) : Bool :=
  c == '=' || c == '!' || c == '<' || c == '>' || c == '~' || c == '^'

/-- Joins words that are nothing but operators to the word after them. `pending` is what such words
have left to be joined; at the end of the list it is a term by itself. -/
def joinOperators (pending : List Char) : List (List Char) → List (List Char)
  | [] => if pending.isEmpty then [] else [pending]
  | word :: rest =>
    if word.all isOperatorChar then joinOperators (pending ++ word) rest
    else (pending ++ word) :: joinOperators [] rest

/-- The terms of an alternative, in order. No term reaches across a comma. -/
def terms (text : List Char) : List (List Char) :=
  (Text.fields (· == ',') text).flatMap fun chunk => joinOperators [] (Text.words chunk)

/-! ## Reading a term -/

/-- The operator of a term. -/
inductive Operator where
  | none
  | equal
  | notEqual
  /-- An operator that is written before a bound as it stands. -/
  | bound (text : List Char)
  deriving DecidableEq, Repr

/-- Takes the longest operator off the start of a term. -/
def cutOperator : List Char → Operator × List Char
  | '=' :: '=' :: rest => (.equal, rest)
  | '!' :: '=' :: rest => (.notEqual, rest)
  | '>' :: '=' :: rest => (.bound ['>', '='], rest)
  | '<' :: '=' :: rest => (.bound ['<', '='], rest)
  | '=' :: rest => (.equal, rest)
  | '>' :: rest => (.bound ['>'], rest)
  | '<' :: rest => (.bound ['<'], rest)
  | '~' :: rest => (.bound ['~'], rest)
  | '^' :: rest => (.bound ['^'], rest)
  | rest => (.none, rest)

/-- A field of a version that is a wildcard and nothing else. -/
def isWildcardField : List Char → Bool
  | [c] => Comparator.isWildcard c
  | _ => false

/-- What a term adds to its alternative. -/
inductive Term where
  /-- The lone wildcard, which adds nothing. -/
  | any
  | compare (comparator : Comparator)
  | exclude (version : Version)
  deriving DecidableEq, Repr

/-- Reads a term. Without an operator a version with a wildcard field is read as it stands, and any
other one as if `=` stood before it. -/
def readTerm (term : List Char) : Except TermFault Term :=
  let (operator, rest) := cutOperator term
  match Version.dropV (Text.trim rest) with
  | [] => .error .missingVersion
  | c :: rest =>
    let version := c :: rest
    match operator with
    | .none =>
      if isWildcardField version then .ok .any
      else if (Text.fields (· == '.') version).any isWildcardField then comparator version
      else comparator ('=' :: version)
    | .equal => comparator ('=' :: version)
    | .notEqual =>
      match Version.read version with
      | .ok v => .ok (.exclude v)
      | .error cause => .error (.malformed cause)
    | .bound text => comparator (text ++ version)
where
  /-- Reads a comparator as a term. -/
  comparator (text : List Char) : Except TermFault Term :=
    match Comparator.read text with
    | .ok c => .ok (.compare c)
    | .error cause => .error (.malformed cause)

/-- An alternative with one more term. -/
def Term.addTo (alternative : Alternative) : Term → Alternative
  | .any => alternative
  | .compare c => { alternative with comparators := alternative.comparators ++ [c] }
  | .exclude v => { alternative with excluded := alternative.excluded ++ [v] }

/-- Reads a term and names it if it cannot be read. -/
def parseTerm (term : List Char) : Except ConstraintError Term :=
  match readTerm term with
  | .ok t => .ok t
  | .error fault => .error (.invalidTerm (String.ofList term) fault)

/-- Reads one alternative. -/
def parseAlternative (text : List Char) : Except ConstraintError Alternative :=
  match terms text with
  | [] => .error .empty
  | term :: rest => do
    let parsed ← (term :: rest).mapM parseTerm
    return parsed.foldl Term.addTo ⟨[], []⟩

/-- Reads a constraint. -/
def parse (text : String) : Except ConstraintError Constraint :=
  match Text.trim text.toList with
  | [] => .error .empty
  | c :: rest => do
    return ⟨← (alternativeTexts (c :: rest)).mapM parseAlternative⟩

/-! ## Judging installed versions -/

/-- Whether the recorded version satisfies the constraint. What is no version satisfies none. -/
def check (constraint : Constraint) (installed : String) : Bool :=
  match Version.parseInstalled installed with
  | .ok v => constraint.admits v
  | .error _ => false

/-- Whether the recorded version satisfies the constraint given as text. A text that is no constraint
is satisfied by nothing. -/
def isCompatible (constraint installed : String) : Bool :=
  match parse constraint with
  | .ok c => c.check installed
  | .error _ => false

end Constraint

end PackageLock
