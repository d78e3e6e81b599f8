import PackageLock.Text.Fields

/-!
# Locks

The lock is the ledger of installed packages. Each entry names a package by its source, the reference
without tag and digest, and records the installed version and the dependencies that it declares. The
revision of the lock counts its writes, so that a stale write can be told.
-/

set_option autoImplicit false

namespace PackageLock

/-- What kind of package a dependency refers to. -/
inductive PackageKind where
  | provider
  | configuration
  | function
  deriving DecidableEq, Repr

/-- The name of a kind in a lock. -/
def PackageKind.name : PackageKind → String
  | .provider => "provider"
  | .configuration => "configuration"
  | .function => "function"

/-- A dependency that a package declares: the package it needs, and what it asks of its version. -/
structure Dependency where
  package : String
  kind : PackageKind
  version : Option String
  deriving DecidableEq, Repr

/-- The version constraint. A blank one counts as none. -/
def Dependency.constraint (dependency : Dependency) : Option String :=
  match dependency.version with
  | none => none
  | some version => if Text.trimmed version = "" then none else some (Text.trimmed version)

/-- An installed package with the dependencies it declares. -/
structure Package where
  source : String
  version : String
  dependencies : List Dependency
  deriving DecidableEq, Repr

/-- Whether the package declares a dependency on `source`. -/
def Package.dependsOn (package : Package) (source : String) : Bool :=
  package.dependencies.any (·.package == source)

/-- The ledger of installed packages, in the order of their registration. -/
structure Lock where
  revision : Nat
  packages : List Package
  deriving DecidableEq, Repr

namespace Lock

/-- The lock before the first write. -/
def empty : Lock := ⟨0, []⟩

/-- The entry for `source`, the first if there are several. -/
def find? (lock : Lock) (source : String) : Option Package :=
  lock.packages.find? (·.source == source)

/-- Whether there is an entry for `source`. -/
def contains (lock : Lock) (source : String) : Bool :=
  (lock.find? source).isSome

/-- The lock with an entry more. -/
def add (lock : Lock) (package : Package) : Lock :=
  { lock with packages := lock.packages ++ [package] }

/-- The lock without the first entry for `source`. -/
def erase (lock : Lock) (source : String) : Lock :=
  { lock with packages := lock.packages.eraseP (·.source == source) }

/-- The packages that declare a dependency on `source`. -/
def dependentsOf (lock : Lock) (source : String) : List Package :=
  lock.packages.filter (·.dependsOn source)

/-- The lock as it stands after it has been written once more. -/
def next (lock : Lock) : Lock :=
  { lock with revision := lock.revision + 1 }

/-- How many dependencies a package has, in words. -/
def countText : Nat → String
  | 0 => "no dependencies"
  | 1 => "1 dependency"
  | n => toString n ++ " dependencies"

/-- An entry on one line. -/
def summaryLine (package : Package) : String :=
  package.source ++ " " ++ package.version ++ " (" ++ countText package.dependencies.length ++ ")"

/-- The entries line by line, sorted by source; entries of one source keep their order. -/
def summary (lock : Lock) : List String :=
  (lock.packages.mergeSort fun a b => a.source ≤ b.source).map summaryLine

end Lock

end PackageLock
