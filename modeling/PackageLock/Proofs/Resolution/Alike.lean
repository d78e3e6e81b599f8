import Mathlib.Data.List.Perm.Basic
import PackageLock.Proofs.Resolution.Answers
import PackageLock.Proofs.Text.Reading

/-!
# Locks that differ in the order of things

Two locks are alike if their entries can be paired off so that the entries of a pair differ at most in the
order of their dependencies. Whatever a resolution asks of a lock has the same answer for both: what has
an entry and in which version, what is declared, and whether there is a graph of it. So a verdict that is
right for one of them is right for the other (`Verdict.alike`), and so is that of the check on graphs of
two locks that are alike (`check_alike`).
-/

set_option autoImplicit false

namespace PackageLock

/-! ## Entries -/

/-- The packages are the same, the order of their dependencies apart. -/
structure Package.Alike (package package' : Package) : Prop where
  source : package.source = package'.source
  version : package.version = package'.version
  dependencies : package.dependencies.Perm package'.dependencies

namespace Package.Alike

variable {package package' : Package}

/-- A package is like itself. -/
theorem refl (package : Package) : package.Alike package :=
  ⟨rfl, rfl, List.Perm.refl _⟩

/-- Likeness of packages goes both ways. -/
theorem symm (h : package.Alike package') : package'.Alike package :=
  ⟨h.source.symm, h.version.symm, h.dependencies.symm⟩

/-- Like packages depend on the same packages. -/
theorem dependsOn_eq (h : package.Alike package') (id : String) :
    package.dependsOn id = package'.dependsOn id := by
  rw [Bool.eq_iff_iff, dependsOn_iff, dependsOn_iff]
  simp only [h.dependencies.mem_iff]

end Package.Alike

/-! ## Locks -/

/-- The locks have the same revision, and the entries of the first, in some order, are those of the second
up to the order of the dependencies of each. -/
structure Lock.Alike (lock lock' : Lock) : Prop where
  revision : lock.revision = lock'.revision
  entries : ∃ packages, lock.packages.Perm packages ∧
    List.Forall₂ Package.Alike packages lock'.packages

/-- Locks of one revision whose entries are the same in another order are alike. -/
theorem Lock.alike_of_perm {lock lock' : Lock} (revision : lock.revision = lock'.revision)
    (perm : lock.packages.Perm lock'.packages) : lock.Alike lock' :=
  ⟨revision, lock'.packages, perm, List.forall₂_same.mpr fun package _ => Package.Alike.refl package⟩

namespace Lock.Alike

variable {lock lock' : Lock}

/-- Likeness of locks goes both ways. -/
theorem symm (h : lock.Alike lock') : lock'.Alike lock := by
  obtain ⟨packages, perm, pairs⟩ := h.entries
  have swapped : List.Forall₂ Package.Alike lock'.packages packages :=
    pairs.flip.imp fun _ _ alike => alike.symm
  have composed : (Relation.Comp (List.Forall₂ Package.Alike) List.Perm) lock'.packages lock.packages :=
    ⟨packages, swapped, perm.symm⟩
  rw [List.forall₂_comp_perm_eq_perm_comp_forall₂] at composed
  exact ⟨h.revision.symm, composed⟩

/-- Like locks have entries for the same sources. -/
theorem sources_perm (h : lock.Alike lock') :
    (lock.packages.map (·.source)).Perm (lock'.packages.map (·.source)) := by
  obtain ⟨packages, perm, pairs⟩ := h.entries
  have same : packages.map (·.source) = lock'.packages.map (·.source) := by
    rw [← List.forall₂_eq_eq_eq, List.forall₂_map_left_iff, List.forall₂_map_right_iff]
    exact pairs.imp fun _ _ alike => alike.source
  exact same ▸ perm.map _

/-- No source has two entries in a lock that is like one in which none has. -/
theorem sources_nodup (h : lock.Alike lock') (nodup : (lock.packages.map (·.source)).Nodup) :
    (lock'.packages.map (·.source)).Nodup :=
  h.sources_perm.nodup_iff.mp nodup

/-- Each entry has a like one in a like lock. -/
theorem exists_mem (h : lock.Alike lock') {package : Package} (hmem : package ∈ lock.packages) :
    ∃ package' ∈ lock'.packages, package.Alike package' := by
  obtain ⟨packages, perm, pairs⟩ := h.entries
  exact (Text.exists_mem_of_forall₂ pairs).1 package (perm.mem_iff.mp hmem)

/-- Like locks contain the same packages. -/
theorem contains_eq (h : lock.Alike lock') (id : String) : lock.contains id = lock'.contains id := by
  rw [Bool.eq_iff_iff, contains_iff, contains_iff, h.sources_perm.mem_iff]

/-- What is declared in a lock is declared in a like one. -/
theorem declares (h : lock.Alike lock') {a b : String} (declares : Declares lock.packages a b) :
    Declares lock'.packages a b := by
  obtain ⟨package, hmem, hsource, depends⟩ := declares
  obtain ⟨package', hmem', alike⟩ := h.exists_mem hmem
  exact ⟨package', hmem', alike.source ▸ hsource, alike.dependsOn_eq b ▸ depends⟩

/-- Like locks declare the same. -/
theorem declares_eq (h : lock.Alike lock') : Declares lock.packages = Declares lock'.packages := by
  funext a b
  exact propext ⟨h.declares, h.symm.declares⟩

/-- A lock that is like a well-formed one is well formed. -/
theorem wellFormed (h : lock.Alike lock') (wellFormed : lock.WellFormed) : lock'.WellFormed :=
  ⟨h.sources_nodup wellFormed.sources_nodup, h.declares_eq ▸ wellFormed.acyclic⟩

/-- What is found in a lock has a like entry that is found in a like lock. -/
theorem exists_find? (h : lock.Alike lock') (nodup : (lock.packages.map (·.source)).Nodup)
    {id : String} {package : Package} (found : lock.find? id = some package) :
    ∃ package', lock'.find? id = some package' ∧ package.Alike package' := by
  obtain ⟨hmem, hsource⟩ := (find?_eq_some_iff nodup).mp found
  obtain ⟨package', hmem', alike⟩ := h.exists_mem hmem
  have nodup' := h.sources_nodup nodup
  exact ⟨package', (find?_eq_some_iff nodup').mpr ⟨hmem', alike.source ▸ hsource⟩, alike⟩

/-- A dependency that is violated in a lock is violated in a like one. -/
theorem violates (h : lock.Alike lock') (nodup : (lock.packages.map (·.source)).Nodup)
    {dependency : Dependency} (violates : lock.Violates dependency) : lock'.Violates dependency := by
  obtain ⟨constraint, package, hconstraint, found, incompatible⟩ := violates
  obtain ⟨package', found', alike⟩ := h.exists_find? nodup found
  exact ⟨constraint, package', hconstraint, found', alike.version ▸ incompatible⟩

/-- Like locks violate the same dependencies. -/
theorem violates_iff (h : lock.Alike lock') (nodup : (lock.packages.map (·.source)).Nodup)
    (dependency : Dependency) : lock'.Violates dependency ↔ lock.Violates dependency :=
  ⟨h.symm.violates (h.sources_nodup nodup), h.violates nodup⟩

/-- In like locks the same is needed, in whatever order it is asked for. -/
theorem needs_iff (h : lock.Alike lock') {asked asked' : List Dependency} (perm : asked.Perm asked')
    (source id : String) : lock.Needs source asked id ↔ lock'.Needs source asked' id := by
  simp only [Needs, h.declares_eq, perm.mem_iff]

/-! ## Writes -/

/-- Like locks are alike after a write. -/
theorem next (h : lock.Alike lock') : lock.next.Alike lock'.next :=
  ⟨congrArg (· + 1) h.revision, h.entries⟩

/-- Like locks are alike after like packages have been added. -/
theorem add (h : lock.Alike lock') {package package' : Package} (alike : package.Alike package') :
    (lock.add package).Alike (lock'.add package') := by
  obtain ⟨packages, perm, pairs⟩ := h.entries
  exact ⟨h.revision, packages ++ [package], perm.append_right [package],
    List.rel_append pairs (.cons alike .nil)⟩

/-- Like locks are alike after an entry has been taken out. -/
theorem erase (h : lock.Alike lock') (nodup : (lock.packages.map (·.source)).Nodup) (id : String) :
    (lock.erase id).Alike (lock'.erase id) := by
  obtain ⟨packages, perm, pairs⟩ := h.entries
  refine ⟨h.revision, packages.filter (·.source != id), ?_, ?_⟩
  · rw [packages_erase nodup]
    exact perm.filter _
  · rw [packages_erase (h.sources_nodup nodup)]
    refine List.rel_filter (fun package package' alike => ?_) pairs
    simp only [alike.source]

end Lock.Alike

/-! ## Verdicts -/

/-- A verdict does not depend on the order in which dependencies are asked for. -/
theorem Verdict.perm {lock : Lock} {asked asked' : List Dependency} {needed : Finset String}
    {outcome : Outcome} (h : Verdict lock asked needed outcome) (perm : asked.Perm asked') :
    Verdict lock asked' needed outcome := by
  cases h with
  | missing nonempty ascends mem_iff => exact .missing nonempty ascends mem_iff
  | incompatible complete nonempty ascends mem_iff =>
    simp only [perm.mem_iff] at mem_iff
    exact .incompatible complete nonempty ascends mem_iff
  | satisfied complete compatible =>
    simp only [perm.mem_iff] at compatible
    exact .satisfied complete compatible

/-- A verdict is the same for a like lock, in whatever order the dependencies are asked for. -/
theorem Verdict.alike {lock lock' : Lock} {asked asked' : List Dependency} {needed : Finset String}
    {outcome : Outcome} (h : Verdict lock asked needed outcome) (alike : lock.Alike lock')
    (nodup : (lock.packages.map (·.source)).Nodup) (perm : asked.Perm asked') :
    Verdict lock' asked' needed outcome :=
  (h.congr (fun id _ => (alike.contains_eq id).symm) fun dependency _ =>
    alike.violates_iff nodup dependency).perm perm

/-- On graphs of locks that are alike, the check says the same of packages that are alike. -/
theorem check_alike {lock lock' : Lock} {g g' : Graph} {package package' : Package}
    (h : g.Represents lock.packages) (h' : g'.Represents lock'.packages) (locks : lock.Alike lock')
    (packages : package.Alike package') (present : lock.contains package.source = true) :
    (Plan.check Graph.service g package).value = (Plan.check Graph.service g' package').value := by
  have present' : lock'.contains package'.source = true := by
    rw [← packages.source, ← locks.contains_eq, present]
  obtain ⟨needed, hneeded, verdict⟩ := Plan.check_verdict h present
  obtain ⟨needed', hneeded', verdict'⟩ := Plan.check_verdict h' present'
  have hsame : needed = needed' := by
    ext id
    rw [hneeded, hneeded', locks.needs_iff packages.dependencies, packages.source]
  rw [← hsame] at verdict'
  exact (verdict.alike locks h.sources_nodup packages.dependencies).unique verdict'

end PackageLock
