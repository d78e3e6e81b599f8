import PackageLock.Lock.Basic
import PackageLock.Toml.Shape

/-!
# Package metadata

What a package says about itself before it is installed: its kind and the dependencies it declares.
-/

set_option autoImplicit false

namespace PackageLock

/-! ## Declarations

A declaration refers to a package by the field for its kind, and exactly one of these fields may be set.
Metadata of an unknown kind is kept as such, so that it can be refused where it matters.
-/

/-- A dependency as metadata declares it. -/
structure Declaration where
  provider : Option String
  configuration : Option String
  function : Option String
  version : Option String
  deriving DecidableEq, Repr

/-- Why a declaration is no dependency. -/
inductive DeclarationError where
  | noReference
  | multipleReferences (references : List String)
  deriving DecidableEq, Repr

/-- The wording of the error. -/
def DeclarationError.message : DeclarationError → String
  | .noReference => "dependency declares no provider, configuration or function reference"
  | .multipleReferences references =>
    "dependency declares more than one reference: " ++ ", ".intercalate references

namespace Declaration

/-- A declaration that refers to nothing. -/
def blank : Declaration := ⟨none, none, none, none⟩

/-- A declaration that refers to one package of the given kind. -/
def referringTo (kind : PackageKind) (package : String) : Declaration :=
  match kind with
  | .provider => { blank with provider := some package }
  | .configuration => { blank with configuration := some package }
  | .function => { blank with function := some package }

/-- The declaration with a version constraint. -/
def withVersion (declaration : Declaration) (version : String) : Declaration :=
  { declaration with version := some version }

/-- The packages referred to, with their kinds. -/
def references (declaration : Declaration) : List (PackageKind × String) :=
  [(PackageKind.provider, declaration.provider), (.configuration, declaration.configuration),
    (.function, declaration.function)].filterMap fun (kind, package) => package.map (kind, ·)

/-- The dependency that is declared; a blank version constraint is dropped. -/
def toDependency (declaration : Declaration) : Except DeclarationError Dependency :=
  match declaration.references with
  | [] => .error .noReference
  | [(kind, package)] =>
    .ok ⟨package, kind, (Dependency.mk package kind declaration.version).constraint⟩
  | many => .error (.multipleReferences (many.map (·.2)))

end Declaration

/-- The metadata of a package. -/
inductive Metadata where
  | known (kind : PackageKind) (name : Option String) (dependsOn : List Declaration)
  | unknown
  deriving DecidableEq, Repr

/-- The name of a kind in metadata. -/
def PackageKind.title : PackageKind → String
  | .provider => "Provider"
  | .configuration => "Configuration"
  | .function => "Function"

namespace Metadata

/-- The name of the kind. -/
def kindName : Metadata → String
  | .known kind _ _ => kind.title
  | .unknown => "Unknown"

/-- The name of the package, if it has one. -/
def name? : Metadata → Option String
  | .known _ name _ => name
  | .unknown => none

/-- The declared dependencies, unless the kind is unknown. -/
def dependsOn? : Metadata → Option (List Declaration)
  | .known _ _ dependsOn => some dependsOn
  | .unknown => none

end Metadata

/-! ## Metadata files

Metadata is a TOML document with a `kind`, which says how the rest is read: the name of the package and
the array `depends-on` of its declarations. The kind is looked at first, wherever it stands; for an
unknown one the rest does not matter.
-/

open Toml (Value Entries ShapeError ReadError)

/-- Reads a declaration from a table. -/
def Declaration.ofEntries (entries : Entries) : Except ShapeError Declaration :=
  entries.foldlM (fun (declaration : Declaration) (key, value) => do
    if key = "provider" then return { declaration with provider := some (← value.asString) }
    else if key = "configuration" then
      return { declaration with configuration := some (← value.asString) }
    else if key = "function" then return { declaration with function := some (← value.asString) }
    else if key = "version" then return { declaration with version := some (← value.asString) }
    else return declaration) Declaration.blank

/-- Reads a declaration from an array, which may have no more items than there are fields. -/
def Declaration.ofItems (items : List Value) : Except ShapeError Declaration := do
  let field := fun (i : Nat) => items[i]?.mapM Value.asString
  let declaration : Declaration := ⟨← field 0, ← field 1, ← field 2, ← field 3⟩
  if 4 < items.length then throw (.wrongLength items.length "4 elements in sequence")
  else return declaration

/-- Reads a declaration. -/
def Declaration.ofValue (value : Value) : Except ShapeError Declaration :=
  value.asRecord "MetaDependency" Declaration.ofEntries Declaration.ofItems

namespace Metadata

/-- The kinds by their names in metadata. -/
def kinds : List (String × PackageKind) :=
  [.configuration, .provider, .function].map fun kind => (kind.title, kind)

/-- The kind, which is `none` if it is unknown. -/
def kindOf (entries : Entries) : Except ShapeError (Option PackageKind) :=
  match entries.lookup "kind" with
  | none => throw (.missingField "kind")
  | some (.string name) => return kinds.lookup name
  | some value => throw (.wrongType value.found "variant identifier")

/-- Reads metadata from the entries of a document. -/
def ofEntries (entries : Entries) : Except ShapeError Metadata := do
  match ← kindOf entries with
  | none => return .unknown
  | some kind =>
    let (name, dependsOn) ←
      entries.foldlM (fun (name, dependsOn) (key, value) => do
        if key = "name" then return (some (← value.asString), dependsOn)
        else if key = "depends-on" then return (name, ← value.asList Declaration.ofValue)
        else return (name, dependsOn)) (none, [])
    return .known kind name dependsOn

/-- Reads a metadata file. -/
def parse (text : String) : Except ReadError Metadata :=
  Toml.parseAs ofEntries text

end Metadata

end PackageLock
