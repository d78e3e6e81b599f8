import Mathlib.Algebra.Group.Nat.Defs
import PackageLock.Proofs.Lock.Document

/-!
# Locks read back

Nothing of a lock is lost in its file. The text of a lock is a document whose tables say field by field
what the lock is, and each record is read back from its table: a dependency without a constraint from a
table without that key, and an entry without dependencies from an empty array.
Main statement: `Lock.render_reads_back`, that a lock has a text if its revision fits and that the text is
read as that very lock.
-/

set_option autoImplicit false

namespace PackageLock

open Toml (Entries Value ShapeError)

/-! ## Records -/

/-- The name of a kind is read as this kind. -/
theorem PackageKind.nameIn_name (kind : PackageKind) :
    Toml.nameIn PackageKind.named kind.name = .ok kind := by
  cases kind <;> decide

/-- The entries of a dependency are read as this dependency. -/
theorem Dependency.ofEntries_entries (dependency : Dependency) :
    Dependency.ofEntries dependency.entries = .ok dependency := by
  obtain ⟨package, kind, version⟩ := dependency
  have hkind := PackageKind.nameIn_name kind
  cases version with
  | none =>
    simp [Dependency.ofEntries, Dependency.entries, Value.asString, Value.asName, hkind, bind,
      Except.bind, pure, Except.pure]
  | some version =>
    simp [Dependency.ofEntries, Dependency.entries, Value.asString, Value.asName, hkind, bind,
      Except.bind, pure, Except.pure]

/-- Tables that are each read as an item are read as the list of the items. -/
theorem asList_tables {α : Type} {item : Value → Except ShapeError α} {entries : α → Entries}
    (h : ∀ a, item (.table .header (entries a)) = .ok a) (as : List α) :
    (Value.tables (as.map entries)).asList item = .ok as := by
  apply Text.mapM_eq_ok_iff.mpr
  rw [List.forall₂_map_left_iff, List.forall₂_same]
  exact fun a _ => h a

/-- The dependencies of a package are read back. -/
theorem Package.asList_dependencyValue (package : Package) :
    package.dependencyValue.asList Dependency.ofValue = .ok package.dependencies := by
  unfold dependencyValue
  cases package.dependencies with
  | nil => rfl
  | cons d ds => exact asList_tables Dependency.ofEntries_entries (d :: ds)

/-- The entries of a package are read as this package. -/
theorem Package.ofEntries_entries (package : Package) :
    Package.ofEntries package.entries = .ok package := by
  have hdependencies := package.asList_dependencyValue
  simp [Package.ofEntries, Package.entries, Value.asString, hdependencies, bind, Except.bind, pure,
    Except.pure]

namespace Lock

/-- The packages of a lock are read back. -/
theorem asList_packageValue (lock : Lock) :
    lock.packageValue.asList Package.ofValue = .ok lock.packages := by
  unfold packageValue
  cases lock.packages with
  | nil => rfl
  | cons p ps => exact asList_tables Package.ofEntries_entries (p :: ps)

/-- The entries of a lock are read as this lock. -/
theorem ofEntries_entries (lock : Lock) : Lock.ofEntries lock.entries = .ok lock := by
  have hpackages := lock.asList_packageValue
  have hrevision : (Value.integer lock.revision).asNat = .ok lock.revision := rfl
  simp [Lock.ofEntries, Lock.entries, hrevision, hpackages, bind, Except.bind, pure, Except.pure]

/-! ## Files -/

/-- A lock that has a written form is parsed from it. -/
theorem parse_ofList_write (lock : Lock) (hbound : lock.revision < revisionBound) :
    Lock.parse (String.ofList lock.write) = .ok lock := by
  unfold Lock.parse Toml.parseAs
  rw [parse_write lock hbound]
  simp only [ofEntries_entries]

/-- A lock has a text just if its revision is at most 2^63 - 1, and the text is read as that lock, down
to the order of its entries and to which of its constraints are empty and which are absent. -/
theorem render_reads_back (lock : Lock) :
    lock.render?.map Lock.parse = if lock.revision ≤ 2 ^ 63 - 1 then some (.ok lock) else none := by
  unfold render?
  by_cases hbound : lock.revision < revisionBound
  · have hfits : lock.revision ≤ 2 ^ 63 - 1 := by
      unfold revisionBound at hbound
      omega
    rw [if_pos hbound, if_pos hfits, Option.map_some, parse_ofList_write lock hbound]
  · have hlarge : ¬ lock.revision ≤ 2 ^ 63 - 1 := by
      unfold revisionBound at hbound
      omega
    rw [if_neg hbound, if_neg hlarge, Option.map_none]

end Lock

end PackageLock
