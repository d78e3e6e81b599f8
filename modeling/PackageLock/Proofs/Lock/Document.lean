import PackageLock.Lock.Format
import PackageLock.Proofs.Toml.Lines

/-!
# The document of a lock

Reading the text of a lock goes through one state of the document for each line. While an entry is read,
its table is open, or the table of its latest dependency below it; closing that table shows the entries
that are complete, and this is what one entry, one dependency and one line preserve.
Main statement: `Lock.parse_write`.
-/

set_option autoImplicit false

namespace PackageLock

open Toml (Draft Entries Value Reads IsBare reads_writeEntry reads_blankLine reads_emptyArray)

variable {draft draft' : Draft} {n : Nat} {tables dependencies : List Entries} {source version : String}

/-! ## What the document says -/

/-- The table of a dependency. -/
def Dependency.entries (dependency : Dependency) : Entries :=
  [("package", .string dependency.package), ("type", .string dependency.kind.name)] ++
    match dependency.version with
    | none => []
    | some version => [("version", .string version)]

/-- The tables of the dependencies of an entry. -/
def Package.dependencyValue (package : Package) : Value :=
  match package.dependencies with
  | [] => .array []
  | d :: ds => .tables ((d :: ds).map Dependency.entries)

/-- The table of an entry. -/
def Package.entries (package : Package) : Entries :=
  [("source", .string package.source), ("version", .string package.version),
    ("dependencies", package.dependencyValue)]

/-- The tables of all entries. -/
def Lock.packageValue (lock : Lock) : Value :=
  match lock.packages with
  | [] => .array []
  | p :: ps => .tables ((p :: ps).map Package.entries)

/-- The document. -/
def Lock.entries (lock : Lock) : Entries :=
  [("revision", .integer lock.revision), ("package", lock.packageValue)]

namespace Lock

/-! ## States on the way -/

/-- The document with the tables of some entries. -/
def documentOf (n : Nat) (tables : List Entries) : Entries :=
  [("revision", .integer n), ("package", .tables tables)]

/-- Only the revision has been read. -/
def revisionDraft (n : Nat) : Draft :=
  ⟨[], none, false, [("revision", .integer n)]⟩

/-- The table of an entry is open. -/
def entryDraft (n : Nat) (tables : List Entries) (opened : Entries) : Draft :=
  ⟨documentOf n tables, some ([], "package"), true, opened⟩

/-- The table of an entry with the tables of some dependencies. -/
def entryOf (source version : String) (dependencies : List Entries) : Entries :=
  [("source", .string source), ("version", .string version), ("dependencies", .tables dependencies)]

/-- The table of a dependency is open. -/
def dependencyDraft (n : Nat) (tables : List Entries) (source version : String)
    (dependencies : List Entries) (opened : Entries) : Draft :=
  ⟨documentOf n (tables ++ [entryOf source version dependencies]), some (["package"], "dependencies"),
    true, opened⟩

/-- Under the open header a key is defined that has no value yet. -/
theorem define_nil (draft : Draft) {key : String} {value : Value} (hfresh : draft.opened.lookup key = none) :
    draft.define [] key value = some { draft with opened := draft.opened ++ [(key, value)] } := by
  simp [Draft.define, Entries.defineDotted, Toml.descend, Entries.define, hfresh]

/-- Closing a draft with an open entry gives the document with this entry. -/
theorem close_entryDraft (opened : Entries) :
    (entryDraft n tables opened).close = some (documentOf n (tables ++ [opened])) := by
  simp [entryDraft, documentOf, Draft.close, Toml.descend, Entries.replace, List.lookup_cons]

/-- Closing a draft with an open dependency gives the document with this dependency in the last entry. -/
theorem close_dependencyDraft (opened : Entries) :
    (dependencyDraft n tables source version dependencies opened).close =
      some (documentOf n (tables ++ [entryOf source version (dependencies ++ [opened])])) := by
  simp [dependencyDraft, entryOf, documentOf, Draft.close, Toml.descend, Entries.replace, List.lookup_cons]

/-- The first entry is opened after the revision. -/
theorem openArray_package_first (n : Nat) :
    (revisionDraft n).openArray [] "package" = some (entryDraft n [] []) := by
  simp [Draft.openArray, Draft.close, revisionDraft, Toml.descend, List.lookup_cons, entryDraft, documentOf]

/-- A further entry is opened after those that are written. -/
theorem openArray_package (h : draft.close = some (documentOf n tables)) :
    draft.openArray [] "package" = some (entryDraft n tables []) := by
  simp [Draft.openArray, h, Toml.descend, List.lookup_cons, entryDraft, documentOf]

/-- The first dependency of an entry is opened after its source and version. -/
theorem openArray_dependencies_first (n : Nat) (tables : List Entries) (source version : String) :
    (entryDraft n tables [("source", .string source), ("version", .string version)]).openArray
      ["package"] "dependencies" = some (dependencyDraft n tables source version [] []) := by
  simp [Draft.openArray, close_entryDraft, Toml.descend, List.lookup_cons, dependencyDraft, entryOf,
    documentOf, Entries.replace]

/-- A further dependency is opened after those that are written. -/
theorem openArray_dependencies
    (h : draft.close = some (documentOf n (tables ++ [entryOf source version dependencies]))) :
    draft.openArray ["package"] "dependencies" =
      some (dependencyDraft n tables source version dependencies []) := by
  simp [Draft.openArray, h, Toml.descend, List.lookup_cons, dependencyDraft, entryOf, documentOf,
    Entries.replace]

/-! ## Lines of the document -/

/-- A written text under a key is read as the value of this key. -/
theorem reads_entry (draft : Draft) (key text : String) (hkey : IsBare key)
    (hfresh : draft.opened.lookup key = none) :
    Reads draft (Toml.writeEntry key text)
      { draft with opened := draft.opened ++ [(key, .string text)] } :=
  reads_writeEntry key text hkey (define_nil draft hfresh)

/-- The header of an entry is read as one that opens it. -/
theorem reads_packageHeader (h : draft.openArray [] "package" = some draft') :
    Reads draft "\n[[package]]\n".toList draft' := by
  have hheader := Toml.reads_arrayHeader "package" (by decide) h
  exact (reads_blankLine draft).append hheader

/-- The header of a dependency is read as one that opens it. -/
theorem reads_dependencyHeader (h : draft.openArray ["package"] "dependencies" = some draft') :
    Reads draft "\n[[package.dependencies]]\n".toList draft' := by
  have hheader := Toml.reads_innerArrayHeader "package" "dependencies" (by decide) (by decide) h
  exact (reads_blankLine draft).append hheader

/-- The table of a dependency is read from its lines, once its header has opened it. -/
theorem reads_writeDependency (dependency : Dependency)
    (h : draft.openArray ["package"] "dependencies" =
      some (dependencyDraft n tables source version dependencies [])) :
    Reads draft (writeDependency dependency)
      (dependencyDraft n tables source version dependencies dependency.entries) := by
  have hheader := reads_dependencyHeader h
  have hpackage := reads_entry (dependencyDraft n tables source version dependencies [])
    "package" dependency.package (by decide) rfl
  have hkind := reads_entry (dependencyDraft n tables source version dependencies
    [("package", .string dependency.package)]) "type" dependency.kind.name (by decide) rfl
  have hfront := (hheader.append hpackage).append hkind
  unfold writeDependency Dependency.entries
  cases dependency.version with
  | none =>
    rw [List.append_nil]
    exact hfront
  | some constraint =>
    exact hfront.append (reads_entry _ "version" constraint (by decide) rfl)

/-- Further dependencies of the entry are read after those that are there. -/
theorem reads_writeDependencies (further : List Dependency)
    (h : draft.close = some (documentOf n (tables ++ [entryOf source version dependencies]))) :
    ∃ draft', Reads draft (further.flatMap writeDependency) draft' ∧ draft'.close =
      some (documentOf n
        (tables ++ [entryOf source version (dependencies ++ further.map Dependency.entries)])) := by
  induction further generalizing draft dependencies with
  | nil =>
    rw [List.map_nil, List.append_nil]
    exact ⟨draft, Reads.nil draft, h⟩
  | cons d further ih =>
    have hfirst := reads_writeDependency d (openArray_dependencies h)
    obtain ⟨draft', hrest, hclose⟩ := ih (close_dependencyDraft d.entries)
    rw [List.append_assoc] at hclose
    exact ⟨draft', hfirst.append hrest, hclose⟩

/-- The front of an entry is read as its source and its version. -/
theorem reads_packageFront (package : Package)
    (h : draft.openArray [] "package" = some (entryDraft n tables [])) :
    Reads draft ("\n[[package]]\n".toList ++ Toml.writeEntry "source" package.source ++
      Toml.writeEntry "version" package.version) (entryDraft n tables
        [("source", .string package.source), ("version", .string package.version)]) := by
  have hheader := reads_packageHeader h
  have hsource := reads_entry (entryDraft n tables []) "source" package.source (by decide) rfl
  have hversion := reads_entry (entryDraft n tables [("source", .string package.source)])
    "version" package.version (by decide) rfl
  exact (hheader.append hsource).append hversion

/-- The table of an entry and those of its dependencies are read from their lines. -/
theorem reads_writePackage (package : Package)
    (h : draft.openArray [] "package" = some (entryDraft n tables [])) :
    ∃ draft', Reads draft (writePackage package) draft' ∧
      draft'.close = some (documentOf n (tables ++ [package.entries])) := by
  have hfront := reads_packageFront package h
  unfold writePackage Package.entries Package.dependencyValue
  cases package.dependencies with
  | nil =>
    have hempty := Toml.reads_emptyArray "dependencies" (by decide) (define_nil (entryDraft n tables
      [("source", .string package.source), ("version", .string package.version)]) rfl)
    exact ⟨_, hfront.append hempty, close_entryDraft _⟩
  | cons d ds =>
    have hopen := openArray_dependencies_first n tables package.source package.version
    obtain ⟨draft', hrest, hclose⟩ := reads_writeDependencies ds (close_dependencyDraft d.entries)
    exact ⟨draft', hfront.append ((reads_writeDependency d hopen).append hrest), hclose⟩

/-- Further entries are read after those that are there. -/
theorem reads_writePackages (further : List Package) (h : draft.close = some (documentOf n tables)) :
    ∃ draft', Reads draft (further.flatMap writePackage) draft' ∧
      draft'.close = some (documentOf n (tables ++ further.map Package.entries)) := by
  induction further generalizing draft tables with
  | nil =>
    rw [List.map_nil, List.append_nil]
    exact ⟨draft, Reads.nil draft, h⟩
  | cons p further ih =>
    obtain ⟨between, hfirst, hbetween⟩ := reads_writePackage p (openArray_package h)
    obtain ⟨draft', hrest, hclose⟩ := ih hbetween
    rw [List.append_assoc] at hclose
    exact ⟨draft', hfirst.append hrest, hclose⟩

/-! ## The whole document -/

/-- The text of a lock is read line by line as the entries of the lock. -/
theorem reads_write (lock : Lock) (hbound : lock.revision < revisionBound) :
    ∃ draft, Reads Draft.empty lock.write draft ∧ draft.close = some lock.entries := by
  have hinteger : (lock.revision : Int) < Toml.integerBound := Int.ofNat_lt.mpr hbound
  have hrevision : Reads Draft.empty _ (revisionDraft lock.revision) :=
    Toml.reads_number "revision" (by decide) hinteger (define_nil Draft.empty rfl)
  unfold write Lock.entries Lock.packageValue
  cases lock.packages with
  | nil =>
    have hempty := Toml.reads_emptyArray "package" (by decide)
      (define_nil (revisionDraft lock.revision) rfl)
    exact ⟨_, hrevision.append hempty, rfl⟩
  | cons p ps =>
    obtain ⟨between, hfirst, hbetween⟩ := reads_writePackage p (openArray_package_first lock.revision)
    obtain ⟨draft, hrest, hclose⟩ := reads_writePackages ps hbetween
    exact ⟨draft, hrevision.append (hfirst.append hrest), hclose⟩

/-- The text of a lock has no mark at its beginning. -/
theorem dropMark_write (lock : Lock) : Toml.dropMark lock.write = lock.write := by
  unfold write
  rfl

/-- The text of a lock is read as the document that says what the lock is. -/
theorem parse_write (lock : Lock) (hbound : lock.revision < revisionBound) :
    Toml.parse (String.ofList lock.write) = some lock.entries := by
  obtain ⟨draft, hreads, hclose⟩ := reads_write lock hbound
  rw [Toml.parse, String.toList_ofList, dropMark_write, hreads.readLines_eq]
  exact hclose

end Lock

end PackageLock
