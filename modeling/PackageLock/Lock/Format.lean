import PackageLock.Lock.Basic
import PackageLock.Toml.Shape
import PackageLock.Toml.Written

/-!
# The lock file

A lock is kept as a TOML document: its revision, then a table `package` for each entry with a table
`package.dependencies` for each dependency. Reading accepts any document that says as much, however it
is laid out; revision, version and dependencies may be left out. Writing lays it out in one way only.
-/

set_option autoImplicit false

namespace PackageLock

open Toml (Value Entries ShapeError ReadError)

/-- The kinds by their names. -/
def PackageKind.named : List (String × PackageKind) :=
  [.provider, .configuration, .function].map fun kind => (kind.name, kind)

/-! ## Reading -/

/-- Reads a dependency from a table. -/
def Dependency.ofEntries (entries : Entries) : Except ShapeError Dependency := do
  let fields : Option String × Option PackageKind × Option String ←
    entries.foldlM (fun (package, kind, version) (key, value) => do
      if key = "package" then return (some (← value.asString), kind, version)
      else if key = "type" then return (package, some (← value.asName PackageKind.named), version)
      else if key = "version" then return (package, kind, some (← value.asString))
      else return (package, kind, version)) (none, none, none)
  match fields with
  | (none, _, _) => throw (.missingField "package")
  | (some _, none, _) => throw (.missingField "type")
  | (some package, some kind, version) => return ⟨package, kind, version⟩

/-- Reads a dependency from an array. -/
def Dependency.ofItems : List Value → Except ShapeError Dependency
  | [] => throw (.wrongLength 0 "struct Dependency with 3 elements")
  | [package] => do
    let _ ← package.asString
    throw (.wrongLength 1 "struct Dependency with 3 elements")
  | package :: kind :: rest => do
    return ⟨← package.asString, ← kind.asName PackageKind.named, ← rest.head?.mapM Value.asString⟩

/-- Reads a dependency. -/
def Dependency.ofValue (value : Value) : Except ShapeError Dependency :=
  value.asRecord "Dependency" Dependency.ofEntries Dependency.ofItems

/-- Reads an entry from a table. -/
def Package.ofEntries (entries : Entries) : Except ShapeError Package := do
  let fields : Option String × String × List Dependency ←
    entries.foldlM (fun (source, version, dependencies) (key, value) => do
      if key = "source" then return (some (← value.asString), version, dependencies)
      else if key = "version" then return (source, ← value.asString, dependencies)
      else if key = "dependencies" then
        return (source, version, ← value.asList Dependency.ofValue)
      else return (source, version, dependencies)) (none, "", [])
  match fields with
  | (none, _, _) => throw (.missingField "source")
  | (some source, version, dependencies) => return ⟨source, version, dependencies⟩

/-- Reads an entry from an array. -/
def Package.ofItems : List Value → Except ShapeError Package
  | [] => throw (.wrongLength 0 "struct LockPackage with 3 elements")
  | [source] => return ⟨← source.asString, "", []⟩
  | [source, version] => return ⟨← source.asString, ← version.asString, []⟩
  | source :: version :: dependencies :: _ => do
    return ⟨← source.asString, ← version.asString, ← dependencies.asList Dependency.ofValue⟩

/-- Reads an entry. -/
def Package.ofValue (value : Value) : Except ShapeError Package :=
  value.asRecord "LockPackage" Package.ofEntries Package.ofItems

namespace Lock

/-- Reads a lock from the entries of a document. -/
def ofEntries (entries : Entries) : Except ShapeError Lock :=
  entries.foldlM (fun (lock : Lock) (key, value) => do
    if key = "revision" then return { lock with revision := ← value.asNat }
    else if key = "package" then
      return { lock with packages := ← value.asList Package.ofValue }
    else return lock) Lock.empty

/-- Reads a lock file. -/
def parse (text : String) : Except ReadError Lock :=
  Toml.parseAs ofEntries text

/-! ## Writing -/

/-- The table of a dependency. -/
def writeDependency (dependency : Dependency) : List Char :=
  "\n[[package.dependencies]]\n".toList ++ Toml.writeEntry "package" dependency.package ++
    Toml.writeEntry "type" dependency.kind.name ++
    match dependency.version with
    | none => []
    | some version => Toml.writeEntry "version" version

/-- The table of an entry and those of its dependencies. -/
def writePackage (package : Package) : List Char :=
  "\n[[package]]\n".toList ++ Toml.writeEntry "source" package.source ++
    Toml.writeEntry "version" package.version ++
    match package.dependencies with
    | [] => "dependencies = []\n".toList
    | d :: ds => (d :: ds).flatMap writeDependency

/-- The whole document. -/
def write (lock : Lock) : List Char :=
  "revision = ".toList ++ (toString lock.revision).toList ++ ['\n'] ++
    match lock.packages with
    | [] => "package = []\n".toList
    | p :: ps => (p :: ps).flatMap writePackage

/-- The revisions that a document can hold are below this bound, which is 2^63. -/
def revisionBound : Nat := 0x8000000000000000

/-- The text of the lock file, unless the revision is too large for one. -/
def render? (lock : Lock) : Option String :=
  if lock.revision < revisionBound then some (String.ofList lock.write) else none

/-- The wording of the refusal. -/
def unwritableMessage : String := "out-of-range value for u64 type"

end Lock

end PackageLock
