import PackageLock.Proofs.Resolution.Integrity

/-!
# Active resolutions on a sound lock

Where the lock is well-formed and the store serves, an active resolution comes to a verdict, unless the
package has no entry and one of its own dependencies leads back to it (`run_verdict`). A verdict goes by
what is needed, by which of that has an entry, and by the versions on record, so it is the same for two
locks that agree on these (`Verdict.congr`).
-/

set_option autoImplicit false

open Relation (ReflTransGen TransGen)

namespace PackageLock

/-- A verdict is right for every lock that has entries for the same part of what is needed, and in which
the same constraints are violated. -/
theorem Verdict.congr {lock lock' : Lock} {asked : List Dependency} {needed : Finset String}
    {outcome : Outcome} (h : Verdict lock asked needed outcome)
    (recorded : ∀ id ∈ needed, lock'.contains id = lock.contains id)
    (violated : ∀ dependency ∈ asked, lock'.Violates dependency ↔ lock.Violates dependency) :
    Verdict lock' asked needed outcome := by
  have htally (invalid : Nat) : lock.tally needed invalid = lock'.tally needed invalid := by
    have hfilter : (needed.filter fun id => lock.contains id = true) =
        needed.filter fun id => lock'.contains id = true :=
      Finset.filter_congr fun id hid => by rw [recorded id hid]
    rw [Lock.tally, Lock.tally, hfilter]
  have hviolated (id : String) :
      (∃ dependency ∈ asked, dependency.package = id ∧ lock.Violates dependency) ↔
        ∃ dependency ∈ asked, dependency.package = id ∧ lock'.Violates dependency := by
    refine exists_congr fun dependency => and_congr_right fun hdependency => ?_
    rw [violated dependency hdependency]
  cases h with
  | @missing ids nonempty ascends mem_iff =>
    rw [htally]
    refine Verdict.missing nonempty ascends fun id => ?_
    rw [mem_iff]
    exact and_congr_right fun hid => by rw [recorded id hid]
  | @incompatible ids complete nonempty ascends mem_iff =>
    rw [htally]
    refine Verdict.incompatible (fun id hid => ?_) nonempty ascends fun id => ?_
    · rw [recorded id hid]
      exact complete id hid
    · rw [mem_iff, hviolated]
  | satisfied complete compatible =>
    rw [htally]
    refine Verdict.satisfied (fun id hid => ?_) fun dependency hdependency => ?_
    · rw [recorded id hid]
      exact complete id hid
    · rw [violated dependency hdependency]
      exact compatible dependency hdependency

variable {σ : Type} {store : LockStore (StateM σ)} {stored : σ → Lock} {request : Request}
  {package : Package} {s : σ}

/-- On a well-formed lock an active resolution comes to the right verdict if the package has its entry or
none of its dependencies leads back to it. -/
theorem run_verdict (serves : store.Serves stored) (wellFormed : (stored s).WellFormed)
    (active : request.revision.desiredState = .active)
    (describes : Describes request.metadata request.revision package)
    (fits : (stored s).contains package.source = false → ∀ dependency ∈ package.dependencies,
      ¬ ReflTransGen (Declares (stored s).packages) dependency.package package.source) :
    stored ((request.run store).run s).2 = (stored s).register package ∧
      ∃ needed : Finset String,
        (∀ id, id ∈ needed ↔
          ((stored s).register package).Needs package.source package.dependencies id) ∧
        Verdict ((stored s).register package) package.dependencies needed
          ((request.run store).run s).1.value := by
  have hended := resolve_ended serves.toKeeps Graph.service request.metadata request.revision s
  have grounded : ∀ cause, ((request.run store).run s).1.value ≠ .error (.graph cause) := by
    intro cause failed
    obtain ⟨_, source, target, _, leadsBack⟩ := hended.leadsBack wellFormed failed
    obtain ⟨_, ⟨other, describes', rfl, declares⟩, absent, path⟩ := leadsBack
    have hsame : other = package := describes'.unique describes
    rw [hsame] at declares absent path
    obtain ⟨dependency, hdependency, rfl⟩ := Package.dependsOn_iff.mp declares
    exact fits absent dependency hdependency path
  have hjudged := hended.judged serves describes grounded
  obtain ⟨other, describes', hafter, _, needed, hneeds, verdict⟩ := hended.verdict active hjudged
  have hsame : other = package := describes'.unique describes
  rw [hsame] at hafter hneeds verdict
  rw [hafter] at hneeds verdict
  exact ⟨hafter, needed, hneeds, verdict⟩

/-- Where the package has its entry, the lock stays as it was. -/
theorem run_verdict_of_present (serves : store.Serves stored) (wellFormed : (stored s).WellFormed)
    (active : request.revision.desiredState = .active)
    (describes : Describes request.metadata request.revision package)
    (present : (stored s).contains package.source = true) :
    stored ((request.run store).run s).2 = stored s ∧
      ∃ needed : Finset String,
        (∀ id, id ∈ needed ↔ (stored s).Needs package.source package.dependencies id) ∧
        Verdict (stored s) package.dependencies needed ((request.run store).run s).1.value := by
  have hverdict := run_verdict serves wellFormed active describes fun absent => by
    rw [present] at absent
    cases absent
  rwa [Lock.register_of_present present] at hverdict

end PackageLock
