import PackageLock.Text.Fields
import PackageLock.Text.Quoted

/-!
# Package references

A reference names a package, its source, and optionally one revision of it by a tag or by a digest:
`source`, `source:tag` or `source@digest`. The source is what the lock is keyed by. A colon before the
last slash belongs to the registry's address and starts no tag; after an `@` everything is the digest.
-/

set_option autoImplicit false

namespace PackageLock

/-- A package reference, cut into source and identifier. -/
structure Reference where
  source : String
  identifier : Option String
  deriving DecidableEq, Repr

/-- Why a text is no reference. -/
inductive ReferenceError where
  | empty
  | missingRepository (reference : String)
  | emptyIdentifier (reference : String)
  deriving DecidableEq, Repr

/-- The wording of the error. -/
def ReferenceError.message : ReferenceError → String
  | .empty => "package reference is empty"
  | .missingRepository reference =>
    "package reference " ++ Text.quote reference ++ " has no repository"
  | .emptyIdentifier reference =>
    "package reference " ++ Text.quote reference ++ " has an empty tag or digest"

namespace Reference

/-- The identifier of a reference that gives none. -/
def defaultIdentifier : String := "latest"

/-- The tag or digest, or the default one. -/
def identifierOrDefault (reference : Reference) : String :=
  reference.identifier.getD defaultIdentifier

/-- Cuts a reference into its source and its tag or digest. -/
def cut (s : List Char) : List Char × Option (List Char) :=
  match Text.cutFirst '@' s with
  | some (source, digest) => (source, some digest)
  | none =>
    match Text.cutLast ':' s with
    | some (source, tag) => if tag.contains '/' then (s, none) else (source, some tag)
    | none => (s, none)

/-- A source names a repository: it is not empty and does not end in a slash. -/
def namesRepository (source : List Char) : Bool :=
  match source.getLast? with
  | none => false
  | some c => c != '/'

/-- Reads a reference; blanks around it do not count. -/
def parse (text : String) : Except ReferenceError Reference :=
  let s := Text.trim text.toList
  if s.isEmpty then .error .empty
  else
    let (source, identifier) := cut s
    if !namesRepository source then .error (.missingRepository (String.ofList s))
    else if identifier = some [] then .error (.emptyIdentifier (String.ofList s))
    else .ok ⟨String.ofList source, identifier.map String.ofList⟩

/-- The written form of a reference: an identifier with a colon is a digest, any other one a tag. -/
def render (reference : Reference) : String :=
  match reference.identifier with
  | some identifier =>
    if identifier.toList.contains ':' then reference.source ++ "@" ++ identifier
    else reference.source ++ ":" ++ identifier
  | none => reference.source

end Reference

end PackageLock
