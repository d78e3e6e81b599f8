import PackageLock.Proofs.Resolution.Endings
import PackageLock.Proofs.Resolution.Verdict

/-!
# What the outcome of a resolution says

An active resolution that gets as far as a verdict comes to the one that is right for the lock it leaves
behind, in which its package has an entry (`Ended.verdict`). From this follow what a success promises
and how far the counts of an outcome hang together. Both have a limit: what a dependency needs that is
not declared on the way from the entry of the package is not looked for, and a dependency of the package
on itself is never counted.
-/

set_option autoImplicit false

open Relation (ReflTransGen TransGen)

namespace PackageLock

/-! ## The graph that is checked -/

/-- The graph that is checked is the graph of the lock that is left behind. -/
theorem Grounds.represents {lock : Lock} {package : Package} {g : Graph}
    (h : Grounds Graph.service lock package g) : g.Represents (lock.register package).packages := by
  cases h with
  | known init present =>
    rw [Lock.register_of_present present]
    exact Graph.service_init_represents init
  | attached init absent attach =>
    rw [Lock.register_of_absent absent]
    have hbuilt := Graph.service_init_represents init
    have fresh : package.source ∉ lock.packages.map (·.source) := Lock.not_mem_of_absent absent
    exact hbuilt.attach fresh attach

/-! ## Reach of declarations -/

/-- All that declarations lead to from what is asked for, and what is asked for itself, has an entry. -/
def Lock.Provides (lock : Lock) (asked : List Dependency) : Prop :=
  ∀ dependency ∈ asked, ∀ id, ReflTransGen (Declares lock.packages) dependency.package id →
    lock.contains id = true

/-- Where all that is needed has an entry, the rest depends on what is asked for beside the way from the
entry for `source`. -/
theorem Lock.provides_iff {lock : Lock} {source : String} {asked : List Dependency}
    (hsource : lock.contains source = true)
    (complete : ∀ id, lock.Needs source asked id → lock.contains id = true) :
    lock.Provides asked ↔ ∀ dependency ∈ asked, dependency.package ≠ source →
      ¬ TransGen (Declares lock.packages) source dependency.package →
      ∀ id, TransGen (Declares lock.packages) dependency.package id → lock.contains id = true := by
  constructor
  · intro provides dependency hdependency _ _ id path
    exact provides dependency hdependency id path.to_reflTransGen
  · -- what is asked for is `source`, is reached from it, or stands beside it
    intro beside dependency hdependency id path
    by_cases self : dependency.package = source
    · rw [self] at path
      rcases Relation.reflTransGen_iff_eq_or_transGen.mp path with rfl | path
      · exact hsource
      · exact complete id (Or.inl path)
    · by_cases reached : TransGen (Declares lock.packages) source dependency.package
      · exact complete id (Or.inl (reached.trans_left path))
      · rcases Relation.reflTransGen_iff_eq_or_transGen.mp path with rfl | path
        · exact complete _ (Or.inr ⟨self, dependency, hdependency, rfl⟩)
        · exact beside dependency hdependency self reached id path

/-! ## Verdicts -/

section Outcomes

variable {σ : Type} {store : LockStore (StateM σ)} {stored : σ → Lock} {metadata : Metadata}
  {revision : Revision} {s : σ} {outcome : Outcome} {after : Lock}

/-- A resolution that ends with a verdict on what an active revision needs has come to the right one. -/
theorem Ended.verdict (h : Ended Graph.service store stored metadata revision s outcome after)
    (active : revision.desiredState = .active) (judged : Judged outcome) :
    ∃ package, Describes metadata revision package ∧ after = (stored s).register package ∧
      ¬ after.Needs package.source package.dependencies package.source ∧
      ∃ needed : Finset String,
        (∀ id, id ∈ needed ↔ after.Needs package.source package.dependencies id) ∧
        Verdict after package.dependencies needed outcome := by
  cases h with
  | checked _ describes grounds =>
    refine ⟨_, describes, rfl, ?_, Plan.check_verdict grounds.represents Lock.contains_register⟩
    rintro (cycle | ⟨hne, _⟩)
    · exact grounds.represents.not_transGen_self _ cycle
    · exact hne rfl
  | absent inactive =>
    rw [active] at inactive
    cases inactive
  | removed inactive =>
    rw [active] at inactive
    cases inactive
  | unknownKind => cases judged
  | unreadable => cases judged
  | unbuilt => cases judged
  | unnamed => cases judged
  | undeclared => cases judged
  | unattached => cases judged
  | refused => cases judged

/-- Where the store serves, the revision can be read and the graph built, there is a verdict. -/
theorem Ended.judged {package : Package} (serves : store.Serves stored)
    (h : Ended Graph.service store stored metadata revision s outcome after)
    (describes : Describes metadata revision package)
    (grounded : ∀ cause, outcome ≠ .error (.graph cause)) : Judged outcome := by
  obtain ⟨⟨reference, named, _⟩, declared, known, converted⟩ := describes
  cases h with
  | checked _ _ grounds =>
    obtain ⟨needed, _, verdict⟩ := Plan.check_verdict grounds.represents Lock.contains_register
    exact verdict.judged
  | absent => trivial
  | removed => trivial
  | unknownKind unknown =>
    rw [known] at unknown
    cases unknown
  | unreadable failed =>
    rw [serves.get_ok] at failed
    cases failed
  | unbuilt => exact absurd rfl (grounded _)
  | unnamed failed =>
    rw [named] at failed
    cases failed
  | undeclared _ known' failed =>
    rw [known] at known'
    cases known'
    rw [converted] at failed
    cases failed
  | unattached => exact absurd rfl (grounded _)
  | refused revision_eq failed =>
    rw [← serves.get_stored s] at revision_eq
    rw [serves.accepts _ _ revision_eq] at failed
    cases failed

/-- The verdict of an active resolution: the lock afterwards has an entry for the package, the old one or
a new one with the dependencies of the metadata, and the outcome is the one that is right for it. -/
theorem resolve_active_verdict {package : Package} (serves : store.Serves stored)
    (active : revision.desiredState = .active) (describes : Describes metadata revision package) (s : σ)
    (grounded : ∀ cause,
      ((resolve Graph.service store metadata revision).run s).1.value ≠ .error (.graph cause)) :
    stored ((resolve Graph.service store metadata revision).run s).2 = (stored s).register package ∧
      ∃ needed : Finset String,
        (∀ id, id ∈ needed ↔
          ((stored s).register package).Needs package.source package.dependencies id) ∧
        ∀ outcome, Verdict ((stored s).register package) package.dependencies needed outcome ↔
          ((resolve Graph.service store metadata revision).run s).1.value = outcome := by
  have hended := resolve_ended serves.toKeeps Graph.service metadata revision s
  have hjudged := hended.judged serves describes grounded
  obtain ⟨other, describes', hafter, _, needed, hneeds, verdict⟩ := hended.verdict active hjudged
  have hsame : other = package := describes'.unique describes
  rw [hsame] at hafter hneeds verdict
  rw [hafter] at hneeds verdict
  refine ⟨hafter, needed, hneeds, fun outcome => ⟨fun h => verdict.unique h, ?_⟩⟩
  intro h
  rw [← h]
  exact verdict

/-- A package that is new to the lock and needs one that is installed and, through it, one that is not. -/
theorem resolve_active_verdict_of_missing :
    let lock : Lock := ⟨3, [⟨"b", "v1.0.0", [⟨"c", .provider, none⟩]⟩]⟩
    let metadata : Metadata := .known .configuration none [Declaration.referringTo .provider "b"]
    let revision : Revision := ⟨"a", .active⟩
    let package : Package := ⟨"a", "latest", [⟨"b", .provider, none⟩]⟩
    let ended := (resolve Graph.service LockStore.memory metadata revision).run lock
    revision.desiredState = .active ∧ Describes metadata revision package ∧
      (∀ cause, ended.1.value ≠ .error (.graph cause)) ∧ ended.2 = lock.register package ∧
      ∃ needed : Finset String,
        (∀ id, id ∈ needed ↔
          (lock.register package).Needs package.source package.dependencies id) ∧
        ∀ outcome, Verdict (lock.register package) package.dependencies needed outcome ↔
          ended.1.value = outcome := by
  intro lock metadata revision package ended
  have describes : Describes metadata revision package :=
    ⟨⟨⟨"a", none⟩, by cbv, rfl, rfl⟩, _, rfl, rfl⟩
  have missing : ended.1.value = .error (.missing ["c"] ⟨2, 1, 0⟩) := by cbv
  have grounded : ∀ cause, ended.1.value ≠ .error (.graph cause) := by
    intro cause h
    rw [missing] at h
    cases h
  exact ⟨rfl, describes, grounded,
    resolve_active_verdict LockStore.memory_serves rfl describes lock grounded⟩

/-! ## What a success promises -/

/-- A success answers for what is needed. Beyond that, all that declarations lead to from the
dependencies of the metadata has entries exactly if this holds on the way from those that the entry of
the package does not lead to; there are none of them if the entry is new. -/
theorem resolve_ok_provides_iff (keeps : store.Keeps stored)
    (active : revision.desiredState = .active) (s : σ) {counts : Counts}
    (ok : ((resolve Graph.service store metadata revision).run s).1.value = .ok counts) :
    let after := stored ((resolve Graph.service store metadata revision).run s).2
    ∃ package, Describes metadata revision package ∧
      (∀ id, after.Needs package.source package.dependencies id → after.contains id = true) ∧
      (after.Provides package.dependencies ↔ ∀ dependency ∈ package.dependencies,
        dependency.package ≠ package.source →
        ¬ TransGen (Declares after.packages) package.source dependency.package →
        ∀ id, TransGen (Declares after.packages) dependency.package id → after.contains id = true) ∧
      ((stored s).contains package.source = false → after.Provides package.dependencies) := by
  intro after
  have hended := resolve_ended keeps Graph.service metadata revision s
  rw [ok] at hended
  obtain ⟨package, describes, hafter, _, needed, hneeds, verdict⟩ := hended.verdict active trivial
  have complete : ∀ id, after.Needs package.source package.dependencies id →
      after.contains id = true := by
    intro id hid
    cases verdict with
    | satisfied complete _ => exact complete id ((hneeds id).mpr hid)
  have hsource : after.contains package.source = true := by
    rw [show after = (stored s).register package from hafter]
    exact Lock.contains_register
  have hprovides := Lock.provides_iff hsource complete
  refine ⟨package, describes, complete, hprovides, fun absent => hprovides.mpr ?_⟩
  -- a new entry has the dependencies of the metadata, so it leads to each of them
  intro dependency hdependency _ unreached
  have hdeclares : Declares after.packages package.source dependency.package := by
    rw [show after = (stored s).register package from hafter, Lock.register_of_absent absent]
    exact ⟨package, List.mem_append_right _ (List.mem_singleton_self package), rfl,
      Package.dependsOn_iff.mpr ⟨dependency, hdependency, rfl⟩⟩
  exact absurd (TransGen.single hdeclares) unreached

/-- A package that is new to the lock and needs one that is installed. -/
theorem resolve_ok_provides_of_fresh :
    let lock : Lock := ⟨3, [⟨"b", "v1.0.0", []⟩]⟩
    let metadata : Metadata := .known .configuration none [Declaration.referringTo .provider "b"]
    let revision : Revision := ⟨"a", .active⟩
    let ended := (resolve Graph.service LockStore.memory metadata revision).run lock
    ended.1.value = .ok ⟨1, 1, 0⟩ ∧
      ∃ package, Describes metadata revision package ∧
        (∀ id, ended.2.Needs package.source package.dependencies id → ended.2.contains id = true) ∧
        (lock.contains package.source = false → ended.2.Provides package.dependencies) := by
  intro lock metadata revision ended
  have ok : ended.1.value = .ok ⟨1, 1, 0⟩ := by cbv
  obtain ⟨package, describes, complete, _, fresh⟩ :=
    resolve_ok_provides_iff LockStore.memory_serves.toKeeps rfl lock ok
  exact ⟨ok, package, describes, complete, fresh⟩

/-- A package that has an entry without dependencies is resolved with metadata that asks for another one.
That one has an entry, what it needs in turn has none, and nothing is reported. -/
theorem not_provides_of_resolve_ok :
    let lock : Lock := ⟨3, [⟨"a", "v1.0.0", []⟩, ⟨"b", "v1.0.0", [⟨"c", .provider, none⟩]⟩]⟩
    let metadata : Metadata := .known .configuration none [Declaration.referringTo .provider "b"]
    let revision : Revision := ⟨"a", .active⟩
    let ended := (resolve Graph.service LockStore.memory metadata revision).run lock
    Describes metadata revision ⟨"a", "latest", [⟨"b", .provider, none⟩]⟩ ∧
      ended.1.value = .ok ⟨1, 1, 0⟩ ∧ ended.2 = lock ∧
      ¬ ended.2.Provides [⟨"b", .provider, none⟩] := by
  intro lock metadata revision ended
  have describes : Describes metadata revision ⟨"a", "latest", [⟨"b", .provider, none⟩]⟩ :=
    ⟨⟨⟨"a", none⟩, by cbv, rfl, rfl⟩, _, rfl, rfl⟩
  have unchanged : ended.2 = lock := by cbv
  refine ⟨describes, by cbv, unchanged, ?_⟩
  rw [unchanged]
  intro provides
  have path : ReflTransGen (Declares lock.packages) "b" "c" :=
    ReflTransGen.single ⟨⟨"b", "v1.0.0", [⟨"c", .provider, none⟩]⟩, by simp [lock], rfl, by decide⟩
  have absent : lock.contains "c" = false := by decide
  rw [provides ⟨"b", .provider, none⟩ List.mem_cons_self "c" path] at absent
  cases absent

/-! ## Counts -/

/-- Of the members of a set and one more, there are not more than the set has unless there are all. -/
theorem card_le_card_iff_of_subset_insert {ids needed : Finset String} {source : String}
    (hsource : source ∉ needed) (hsub : ids ⊆ insert source needed) :
    ids.card ≤ needed.card ↔ ¬ (source ∈ ids ∧ needed ⊆ ids) := by
  have hcard : (insert source needed).card = needed.card + 1 := Finset.card_insert_of_notMem hsource
  constructor
  · rintro hle ⟨hmem, hneeded⟩
    have hall : insert source needed ⊆ ids := Finset.insert_subset hmem hneeded
    have hcards := Finset.card_le_card hall
    omega
  · intro hnot
    by_contra hlt
    have hall : ids = insert source needed := Finset.eq_of_subset_of_card_le hsub (by omega)
    rw [hall] at hnot
    exact hnot ⟨Finset.mem_insert_self source needed, Finset.subset_insert source needed⟩

/-- Of the packages listed as incompatible, only the one that is asked for its own dependencies is not
counted. -/
theorem Verdict.incompatible_counts {lock : Lock} {source : String} {asked : List Dependency}
    {needed : Finset String} {ids : List String} {counts : Counts}
    (h : Verdict lock asked needed (.error (.incompatible ids counts)))
    (hneeds : ∀ id, id ∈ needed ↔ lock.Needs source asked id)
    (hself : ¬ lock.Needs source asked source) :
    counts = lock.tally needed ids.length ∧
      ((∀ id ∈ ids, id ∈ needed ∧ lock.contains id = true) ↔
        ¬ ∃ dependency ∈ asked, dependency.package = source ∧ lock.Violates dependency) ∧
      (counts.invalid ≤ counts.installed ↔
        ¬ ((∃ dependency ∈ asked, dependency.package = source ∧ lock.Violates dependency) ∧
          ∀ id ∈ needed, id ∈ ids)) := by
  obtain ⟨hcounts, complete, nodup, hmem⟩ := h.of_incompatible
  have hsource : source ∉ needed := fun hin => hself ((hneeds source).mp hin)
  have hlisted : ∀ id ∈ ids, id ≠ source → id ∈ needed := by
    intro id hid hne
    obtain ⟨dependency, hdependency, hpackage, _⟩ := (hmem id).mp hid
    exact (hneeds id).mpr (Or.inr ⟨hne, dependency, hdependency, hpackage⟩)
  rw [← hmem source]
  refine ⟨hcounts, ?_, ?_⟩
  · constructor
    · intro counted hin
      exact hsource (counted source hin).1
    · intro hnot id hid
      have hne : id ≠ source := by
        rintro rfl
        exact hnot hid
      exact ⟨hlisted id hid hne, complete id (hlisted id hid hne)⟩
  · have hinstalled : counts.installed = needed.card := by
      rw [hcounts, Lock.tally, Finset.filter_true_of_mem complete]
    have hinvalid : counts.invalid = ids.toFinset.card := by
      rw [hcounts, Lock.tally, List.toFinset_card_of_nodup nodup]
    have hsub : ids.toFinset ⊆ insert source needed := by
      intro id hid
      by_cases hne : id = source
      · rw [hne]
        exact Finset.mem_insert_self source needed
      · exact Finset.mem_insert_of_mem (hlisted id (List.mem_toFinset.mp hid) hne)
    have hiff := card_le_card_iff_of_subset_insert hsource hsub
    rw [hinstalled, hinvalid, hiff]
    simp only [List.mem_toFinset, Finset.subset_iff]

/-- Without a verdict nothing is counted and nothing listed. -/
theorem Ended.active_or_uncounted
    (h : Ended Graph.service store stored metadata revision s outcome after) :
    revision.desiredState = .active ∧ Judged outcome ∨
      Outcome.counts outcome = Counts.zero ∧
        ∀ ids counts, outcome ≠ .error (.incompatible ids counts) := by
  cases h with
  | checked active _ grounds =>
    obtain ⟨needed, _, verdict⟩ := Plan.check_verdict grounds.represents Lock.contains_register
    exact Or.inl ⟨active, verdict.judged⟩
  | _ => exact Or.inr ⟨rfl, fun _ _ h => nomatch h⟩

/-- How far the counts hang together: what is installed is part of what is needed, and what is invalid is
part of what is installed unless the metadata declares a dependency of the package on itself that its
entry violates. Then this one is listed without being counted, which shows in the counts if all the rest
that is needed is listed, too. -/
theorem resolve_counts_consistent_iff (keeps : store.Keeps stored) (metadata : Metadata)
    (revision : Revision) (s : σ) :
    let ended := (resolve Graph.service store metadata revision).run s
    let after := stored ended.2
    (Outcome.counts ended.1.value).installed ≤ (Outcome.counts ended.1.value).total ∧
      ((∀ ids counts, ended.1.value ≠ .error (.incompatible ids counts)) →
        (Outcome.counts ended.1.value).invalid ≤ (Outcome.counts ended.1.value).installed) ∧
      ∀ ids counts, ended.1.value = .error (.incompatible ids counts) →
        ∃ package, Describes metadata revision package ∧ ∃ needed : Finset String,
          (∀ id, id ∈ needed ↔ after.Needs package.source package.dependencies id) ∧
          counts = after.tally needed ids.length ∧
          ((∀ id ∈ ids, id ∈ needed ∧ after.contains id = true) ↔
            ¬ ∃ dependency ∈ package.dependencies,
              dependency.package = package.source ∧ after.Violates dependency) ∧
          (counts.invalid ≤ counts.installed ↔
            ¬ ((∃ dependency ∈ package.dependencies,
                dependency.package = package.source ∧ after.Violates dependency) ∧
              ∀ id ∈ needed, id ∈ ids)) := by
  intro ended after
  have hended : Ended Graph.service store stored metadata revision s ended.1.value after :=
    resolve_ended keeps Graph.service metadata revision s
  rcases hended.active_or_uncounted with ⟨active, judged⟩ | ⟨hzero, hnone⟩
  · obtain ⟨package, describes, _, hself, needed, hneeds, verdict⟩ := hended.verdict active judged
    refine ⟨?_, ?_, ?_⟩
    · obtain ⟨invalid, hcounts⟩ := verdict.counts_eq_tally
      rw [hcounts]
      exact Lock.tally_installed_le after needed invalid
    · intro compatible
      rw [verdict.counts_eq compatible]
      exact Nat.zero_le _
    · intro ids counts hincompatible
      rw [hincompatible] at verdict
      exact ⟨package, describes, needed, hneeds, verdict.incompatible_counts hneeds hself⟩
  · rw [hzero]
    exact ⟨Nat.le_refl 0, fun _ => Nat.le_refl 0, fun ids counts h => absurd h (hnone ids counts)⟩

end Outcomes

/-- The counts of a package that asks for itself tell that its entry violates what is asked. -/
theorem violates_self_of_counts :
    let lock : Lock := ⟨1, [⟨"a", "v1.0.0", []⟩]⟩
    let metadata : Metadata := .known .configuration none
      [(Declaration.referringTo .provider "a").withVersion ">=2.0.0"]
    let revision : Revision := ⟨"a", .active⟩
    let ended := (resolve Graph.service LockStore.memory metadata revision).run lock
    LockStore.memory.Keeps (fun lock => lock) ∧
      ended.1.value = .error (.incompatible ["a"] ⟨0, 0, 1⟩) ∧
      ∃ package, Describes metadata revision package ∧
        ∃ dependency ∈ package.dependencies,
          dependency.package = package.source ∧ ended.2.Violates dependency := by
  intro lock metadata revision ended
  have keeps := LockStore.memory_serves.toKeeps
  have incompatible : ended.1.value = .error (.incompatible ["a"] ⟨0, 0, 1⟩) := by decide +kernel
  obtain ⟨_, _, hlisted⟩ := resolve_counts_consistent_iff keeps metadata revision lock
  obtain ⟨package, describes, needed, _, _, _, hle⟩ := hlisted ["a"] ⟨0, 0, 1⟩ incompatible
  refine ⟨keeps, incompatible, package, describes, ?_⟩
  by_contra compatible
  have hfalse : (1 : Nat) ≤ 0 := hle.mpr fun violated => compatible violated.1
  omega

/-- A package that asks for itself in a version that it does not have is listed and not counted. -/
theorem invalid_not_le_installed :
    let lock : Lock := ⟨1, [⟨"a", "v1.0.0", []⟩]⟩
    let metadata : Metadata := .known .configuration none
      [(Declaration.referringTo .provider "a").withVersion ">=2.0.0"]
    let ended := (resolve Graph.service LockStore.memory metadata ⟨"a", .active⟩).run lock
    ended.1.value = .error (.incompatible ["a"] ⟨0, 0, 1⟩) ∧
      ¬ (Outcome.counts ended.1.value).invalid ≤ (Outcome.counts ended.1.value).installed := by
  intro lock metadata ended
  have incompatible : ended.1.value = .error (.incompatible ["a"] ⟨0, 0, 1⟩) := by decide +kernel
  rw [incompatible]
  exact ⟨rfl, by decide⟩

end PackageLock
