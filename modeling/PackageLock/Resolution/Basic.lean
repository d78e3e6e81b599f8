import PackageLock.Graph.Basic
import PackageLock.Metadata
import PackageLock.Reference
import PackageLock.Store.Basic

/-!
# Revisions and outcomes

What a resolution is asked to do, a revision of a package and what is wanted of it, and how it ends: with
counts of the dependencies it has looked at or with the reason why it failed.
-/

set_option autoImplicit false

namespace PackageLock

/-! ## Package revisions

One revision of a package and what is wanted of it: to be installed with all that it needs, or to be
absent. A revision is given in a TOML document by the reference `package` and the `desired-state`.
-/

open Toml (Entries ShapeError ReadError)

/-- What is wanted of a revision. -/
inductive DesiredState where
  | active
  | inactive
  deriving DecidableEq, Repr

/-- The states by their names. -/
def DesiredState.named : List (String × DesiredState) :=
  [("Active", .active), ("Inactive", .inactive)]

/-- One revision of a package. -/
structure Revision where
  package : String
  desiredState : DesiredState
  deriving DecidableEq, Repr

namespace Revision

/-- The reference of the revision. -/
def reference (revision : Revision) : Except ReferenceError Reference :=
  Reference.parse revision.package

/-- Reads a revision from the entries of a document; it is active unless it says otherwise. -/
def ofEntries (entries : Entries) : Except ShapeError Revision := do
  let (package, state) ←
    entries.foldlM (fun (package, state) (key, value) => do
      if key = "package" then return (some (← value.asString), state)
      else if key = "desired-state" then
        return (package, ← value.asName DesiredState.named)
      else return (package, state)) (none, DesiredState.active)
  match package with
  | none => throw (.missingField "package")
  | some package => return ⟨package, state⟩

/-- Reads a revision document. -/
def parse (text : String) : Except ReadError Revision :=
  Toml.parseAs ofEntries text

end Revision

/-! ## Outcomes -/

/-- What a resolution has counted. -/
structure Counts where
  /-- The packages needed, directly or through others. -/
  total : Nat
  /-- Those of them that are installed. -/
  installed : Nat
  /-- The direct dependencies whose installed version does not satisfy what is asked of it. -/
  invalid : Nat
  deriving DecidableEq, Repr

namespace Counts

/-- Nothing counted. -/
def zero : Counts := ⟨0, 0, 0⟩

/-- The packages needed that are not installed. -/
def missing (counts : Counts) : Nat :=
  counts.total - counts.installed

end Counts

/-- What is wrong with that which is to be resolved. -/
inductive InputError where
  | unknownKind (name : String)
  | reference (cause : ReferenceError)
  | declaration (cause : DeclarationError)
  deriving DecidableEq, Repr

/-- The wording of the error. -/
def InputError.message : InputError → String
  | .unknownKind name => "unrecognised package metadata kind " ++ name
  | .reference cause => cause.message
  | .declaration cause => cause.message

/-- Why a resolution failed. -/
inductive ResolveError where
  | invalidInput (cause : InputError)
  /-- The lock cannot be read. -/
  | getLock (cause : StoreError)
  /-- The lock cannot be written. -/
  | store (cause : StoreError)
  | graph (cause : GraphError)
  | missing (ids : List String) (counts : Counts)
  | incompatible (ids : List String) (counts : Counts)
  deriving DecidableEq, Repr

namespace ResolveError

/-- The wording of the error. -/
def message : ResolveError → String
  | .invalidInput cause => "invalid input: " ++ cause.message
  | .getLock cause => "cannot get lock: " ++ cause.message
  | .store cause => cause.message
  | .graph cause => cause.message
  | .missing ids _ => "missing dependencies: " ++ ", ".intercalate ids
  | .incompatible ids _ => "incompatible dependencies: " ++ ", ".intercalate ids

/-- What may be done about the error. -/
def help? : ResolveError → Option String
  | .invalidInput _ => none
  | .getLock _ => some "the lock store could not be read; retry once it is reachable"
  | .store cause => cause.help?
  | .graph cause => cause.help?
  | .missing _ _ => some "install the missing packages, then resolve again"
  | .incompatible _ _ => some "installed versions do not satisfy the declared constraints"

/-- What had been counted when the resolution failed. -/
def counts : ResolveError → Counts
  | .missing _ counts => counts
  | .incompatible _ counts => counts
  | _ => Counts.zero

/-- Whether the same resolution may succeed later, with nothing else changed. -/
def isRetryable : ResolveError → Bool
  | .getLock _ => true
  | .store _ => true
  | _ => false

/-- The packages reported as missing. -/
def missingIds : ResolveError → List String
  | .missing ids _ => ids
  | _ => []

/-- The packages reported as incompatible. -/
def invalidIds : ResolveError → List String
  | .incompatible ids _ => ids
  | _ => []

end ResolveError

/-- How a resolution ends. -/
abbrev Outcome := Except ResolveError Counts

end PackageLock
