import Mathlib.Data.List.Nodup
import PackageLock.Lock.Basic

/-!
# The entries of a lock

What a lock tells of its entries, before and after one is added or erased. An entry that is erased is the
first one of its source (`exists_erase`), so another of the same source would stay. Where no two entries
share a source, none stays (`contains_erase`); those of other sources are found as before
(`find?_erase_of_ne`).
-/

set_option autoImplicit false

namespace PackageLock

/-- Where no two members share a key, each is found under its own. -/
theorem find?_key_eq_some_iff {α : Type} {key : α → String} {l : List α} (nodup : (l.map key).Nodup)
    {id : String} {a : α} : l.find? (key · == id) = some a ↔ a ∈ l ∧ key a = id := by
  constructor
  · intro h
    exact ⟨List.mem_of_find?_eq_some h, by simpa using List.find?_some h⟩
  · rintro ⟨hmem, rfl⟩
    have found : (l.find? (key · == key a)).isSome :=
      List.find?_isSome.mpr ⟨a, hmem, beq_self_eq_true _⟩
    obtain ⟨other, hother⟩ := Option.isSome_iff_exists.mp found
    have same : key other = key a := by simpa using List.find?_some hother
    rw [hother, List.inj_on_of_nodup_map nodup (List.mem_of_find?_eq_some hother) hmem same]

namespace Lock

variable {lock : Lock} {id : String} {package : Package}

/-! ## What a lock tells -/

/-- A lock has an entry for the sources of its packages. -/
theorem contains_iff : lock.contains id = true ↔ id ∈ lock.packages.map (·.source) := by
  simp [contains, find?]

/-- What has no entry is no source of a package. -/
theorem not_mem_of_absent (absent : lock.contains id = false) :
    id ∉ lock.packages.map (·.source) := by
  rw [← contains_iff, absent]
  exact Bool.false_ne_true

/-- What has no entry is not found. -/
theorem contains_eq_false_iff : lock.contains id = false ↔ lock.find? id = none := by
  simp [contains]

/-- Where no two entries share a source, an entry is found under its own. -/
theorem find?_eq_some_iff (nodup : (lock.packages.map (·.source)).Nodup) :
    lock.find? id = some package ↔ package ∈ lock.packages ∧ package.source = id :=
  find?_key_eq_some_iff nodup

/-- Where no two entries share a source, their order does not matter to a look-up. -/
theorem find?_eq_of_perm {other : Lock} (perm : other.packages.Perm lock.packages)
    (nodup : (lock.packages.map (·.source)).Nodup) (id : String) : other.find? id = lock.find? id := by
  have nodup' : (other.packages.map (·.source)).Nodup := (perm.map _).nodup_iff.mpr nodup
  ext package
  rw [find?_eq_some_iff nodup', find?_eq_some_iff nodup, perm.mem_iff]

/-- An entry is recorded for whatever the lock contains. -/
theorem exists_find? (h : lock.contains id = true) : ∃ package, lock.find? id = some package :=
  Option.isSome_iff_exists.mp h

/-! ## Adding and erasing -/

/-- A write changes no entry. -/
theorem contains_next : lock.next.contains id = lock.contains id :=
  rfl

/-- The entries after one is added: those before, and this one. -/
theorem contains_add :
    (lock.add package).contains id = true ↔ lock.contains id = true ∨ package.source = id := by
  rw [contains_iff, contains_iff, add, List.map_append, List.mem_append]
  exact or_congr_right (by simp [eq_comm])

/-- Erasing takes out the first entry for a source and leaves the others as they stand. -/
theorem exists_erase (h : lock.contains id = true) :
    ∃ before package after, lock.packages = before ++ package :: after ∧
      (∀ other ∈ before, other.source ≠ id) ∧ package.source = id ∧
      (lock.erase id).packages = before ++ after := by
  obtain ⟨package, hmem, hsource⟩ := List.mem_map.mp (contains_iff.mp h)
  obtain ⟨entry, before, after, hbefore, hentry, hlock, herase⟩ :=
    List.exists_of_eraseP (p := (·.source == id)) hmem (by simp [hsource])
  refine ⟨before, entry, after, hlock, ?_, by simpa using hentry, herase⟩
  intro other hother hid
  exact hbefore other hother (by simp [hid])

/-- Where no two entries share a source, erasing leaves those of other sources. -/
theorem packages_erase (nodup : (lock.packages.map (·.source)).Nodup) :
    (lock.erase id).packages = lock.packages.filter (·.source != id) := by
  show lock.packages.eraseP (·.source == id) = _
  revert nodup
  induction lock.packages with
  | nil => exact fun _ => rfl
  | cons package packages ih =>
    intro nodup
    rw [List.map_cons, List.nodup_cons] at nodup
    by_cases hid : package.source = id
    · -- the entry that is erased is the only one of its source
      have others : packages.filter (·.source != id) = packages := by
        refine List.filter_eq_self.mpr fun other hother => bne_iff_ne.mpr fun same => ?_
        exact nodup.1 (hid.trans same.symm ▸ List.mem_map_of_mem hother)
      simp [hid, others]
    · simp [hid, ih nodup.2]

/-- Where no two entries share a source, erasing leaves none for it. -/
theorem contains_erase (nodup : (lock.packages.map (·.source)).Nodup) :
    (lock.erase id).contains id = false := by
  rw [← Bool.not_eq_true, contains_iff, packages_erase nodup]
  simp

/-- Erasing an entry leaves the others where they are found. -/
theorem find?_erase_of_ne {other : String} (hne : other ≠ id) :
    (lock.erase id).find? other = lock.find? other := by
  show (lock.packages.eraseP (·.source == id)).find? (·.source == other) =
    lock.packages.find? (·.source == other)
  induction lock.packages with
  | nil => rfl
  | cons package packages ih =>
    by_cases hid : package.source = id
    · simp [hid, hne.symm]
    · simp [List.find?_cons, hid, ih]

/-- Taking out an entry leaves the others. -/
theorem contains_erase_of_ne {other : String} (hne : other ≠ id) :
    (lock.erase id).contains other = lock.contains other := by
  rw [contains, contains, find?_erase_of_ne hne]

end Lock

end PackageLock
