import PackageLock.Proofs.Resolution.Answers

/-!
# Fleets of packages

A fleet is a set of packages that depend on nothing but each other, and without cycles. Its packages may
be installed one after the other in any order: a package that comes before its dependencies is registered
all the same, and no later one is refused (`Fleet.register_next`). In the end each of them has its entry,
and what a resolution then says of it goes by the fleet alone. Main statement: `Fleet.converges`.
-/

set_option autoImplicit false

open Relation (ReflTransGen TransGen)

namespace PackageLock

/-- A request to install a package, with the entry that it describes. -/
structure Member where
  request : Request
  package : Package
  active : request.revision.desiredState = .active
  describes : Describes request.metadata request.revision package

/-- The member with the given reference and declarations. -/
def Member.ofMetadata {reference : Reference} {dependencies : List Dependency} (kind : PackageKind)
    (text : String) (declared : List Declaration) (named : Reference.parse text = .ok reference)
    (asked : declared.mapM Declaration.toDependency = .ok dependencies) : Member where
  request := ⟨.known kind none declared, ⟨text, .active⟩⟩
  package := ⟨reference.source, reference.identifierOrDefault, dependencies⟩
  active := rfl
  describes := ⟨⟨reference, named, rfl, rfl⟩, declared, rfl, asked⟩

/-- The lock in which some packages, and no others, have been registered in their order. -/
def registered (members : List Member) : Lock :=
  ⟨members.length, members.map (·.package)⟩

/-- Packages of different sources that depend on nothing but each other, and none on itself, be it
directly or through others. -/
structure Fleet where
  members : List Member
  wellFormed : (registered members).WellFormed
  closed : ∀ a b, Declares (registered members).packages a b → (registered members).contains b = true

namespace Fleet

variable {fleet : Fleet} {order done rest : List Member} {member : Member}

/-! ## Members in any order -/

/-- The members of a fleet are registered under distinct sources, in whatever order. -/
theorem nodup_of_perm (perm : order.Perm fleet.members) :
    ((registered order).packages.map (·.source)).Nodup :=
  ((perm.map _).map _).nodup_iff.mpr fleet.wellFormed.sources_nodup

/-- Part of a fleet declares nothing that the fleet does not. -/
theorem declares_of_subset (part : done ⊆ fleet.members) {a b : String}
    (declares : Declares (registered done).packages a b) :
    Declares (registered fleet.members).packages a b :=
  declares.mono (List.map_subset _ part)

/-- The lock of some members of a fleet is well formed. -/
theorem wellFormed_registered (perm : (done ++ rest).Perm fleet.members) : (registered done).WellFormed where
  sources_nodup := by
    have nodup := nodup_of_perm perm
    simp only [registered, List.map_append, List.nodup_append] at nodup
    exact nodup.1
  acyclic id cycle := by
    have part : done ⊆ fleet.members := fun member hmember =>
      perm.subset (List.mem_append_left rest hmember)
    exact fleet.wellFormed.acyclic id (TransGen.mono (fun _ _ => declares_of_subset part) id id cycle)

/-! ## Registering members -/

/-- The next member is registered, whatever comes of the check of its dependencies. -/
theorem register_next (perm : (done ++ member :: rest).Perm fleet.members) :
    let ended := (member.request.run LockStore.memory).run (registered done)
    ended.2 = registered (done ++ [member]) ∧ Judged ended.1.value := by
  intro ended
  have nodup := nodup_of_perm perm
  have absent : (registered done).contains member.package.source = false := by
    rw [← Bool.not_eq_true, Lock.contains_iff]
    intro hmem
    simp only [registered, List.map_append, List.map_cons, List.nodup_append] at nodup
    exact nodup.2.2 _ hmem _ List.mem_cons_self rfl
  have part : done ⊆ fleet.members := fun other hother =>
    perm.subset (List.mem_append_left _ hother)
  -- a dependency that leads back would close a cycle in the fleet
  have fits : ∀ dependency ∈ member.package.dependencies, ¬ ReflTransGen
      (Declares (registered done).packages) dependency.package member.package.source := by
    intro dependency hdependency back
    have hmember : member ∈ fleet.members := perm.subset (by simp)
    have step : Declares (registered fleet.members).packages member.package.source
        dependency.package :=
      ⟨member.package, List.mem_map_of_mem hmember, rfl,
        Package.dependsOn_iff.mpr ⟨dependency, hdependency, rfl⟩⟩
    have path := ReflTransGen.mono (fun _ _ => declares_of_subset part) _ _ back
    exact fleet.wellFormed.acyclic _ (TransGen.head' step path)
  obtain ⟨hlock, _, _, verdict⟩ := run_verdict LockStore.memory_serves (wellFormed_registered perm)
    member.active member.describes fun _ => fits
  refine ⟨?_, verdict.judged⟩
  have hnext : (registered done).register member.package = registered (done ++ [member]) := by
    rw [Lock.register_of_absent absent]
    simp [Lock.add, Lock.next, registered]
  rw [← hnext]
  exact hlock

/-- What has been registered is what has been asked for, in this order. -/
theorem runAll_eq_registered (perm : (done ++ rest).Perm fleet.members) :
    Request.runAll LockStore.memory (done.map (·.request)) Lock.empty = registered done := by
  induction done using List.reverseRecOn generalizing rest with
  | nil => rfl
  | append_singleton done member ih =>
    rw [List.append_assoc, List.singleton_append] at perm
    have hdone := ih perm
    rw [Request.runAll] at hdone ⊢
    rw [List.map_append, List.foldl_append, hdone]
    exact (register_next perm).1

/-! ## Registered members -/

/-- What a registered member comes to goes by the fleet and not by the order of the entries. -/
theorem run_registered (perm : order.Perm fleet.members)
    (hmember : member.package ∈ (registered fleet.members).packages) :
    let ended := (member.request.run LockStore.memory).run (registered order)
    let asked := member.package.dependencies
    ended.2 = registered order ∧ ∃ needed : Finset String,
      (∀ id, id ∈ needed ↔
        TransGen (Declares (registered fleet.members).packages) member.package.source id) ∧
      (∀ id ∈ needed, (registered fleet.members).contains id = true) ∧
      Verdict (registered fleet.members) asked needed ended.1.value := by
  intro ended asked
  have hperm : (registered order).packages.Perm (registered fleet.members).packages := perm.map _
  have hfind (id : String) : (registered order).find? id = (registered fleet.members).find? id :=
    Lock.find?_eq_of_perm hperm fleet.wellFormed.sources_nodup id
  have hcontains (id : String) : (registered order).contains id =
      (registered fleet.members).contains id := congrArg Option.isSome (hfind id)
  have present : (registered order).contains member.package.source = true := by
    rw [hcontains, Lock.contains_iff]
    exact List.mem_map_of_mem hmember
  have whole : (order ++ []).Perm fleet.members := by simpa using perm
  have wellFormed : (registered order).WellFormed := wellFormed_registered whole
  obtain ⟨hlock, needed, hneeds, verdict⟩ := run_verdict_of_present LockStore.memory_serves wellFormed
    member.active member.describes present
  have hneeded (id : String) : id ∈ needed ↔
      TransGen (Declares (registered fleet.members).packages) member.package.source id := by
    have hdeclares : Declares (registered order).packages =
        Declares (registered fleet.members).packages := by
      funext a b
      exact propext ⟨Declares.mono hperm.subset, Declares.mono hperm.symm.subset⟩
    rw [hneeds, Lock.Needs, hdeclares]
    refine or_iff_left_of_imp ?_
    -- what the metadata asks for is declared by the entry as well
    rintro ⟨_, dependency, hdependency, rfl⟩
    exact TransGen.single ⟨member.package, hmember, rfl,
      Package.dependsOn_iff.mpr ⟨dependency, hdependency, rfl⟩⟩
  refine ⟨hlock, needed, hneeded, fun id hid => ?_, ?_⟩
  · obtain ⟨before, _, last⟩ := TransGen.tail'_iff.mp ((hneeded id).mp hid)
    exact fleet.closed before id last
  · exact verdict.congr (fun id _ => (hcontains id).symm) fun dependency _ =>
      Lock.violates_congr (hfind dependency.package).symm

/-- Further resolutions of registered members leave the lock as it is. -/
theorem runAll_further (perm : order.Perm fleet.members) {further : List Member}
    (hfurther : ∀ member ∈ further, member.package ∈ (registered fleet.members).packages) :
    Request.runAll LockStore.memory (further.map (·.request)) (registered order) =
      registered order := by
  induction further with
  | nil => rfl
  | cons member further ih =>
    have hmember := (run_registered perm (hfurther member List.mem_cons_self)).1
    have hrest := ih fun other hother => hfurther other (List.mem_cons_of_mem member hother)
    rw [Request.runAll] at hrest ⊢
    rw [List.map_cons, List.foldl_cons, hmember]
    exact hrest

/-- A fleet that is installed from nothing, one package after the other and in any order, is installed
in the end: no package is refused, each of them has its entry, and the lock has been written once for
each. From then on resolving them again writes nothing. All that entries lead to from a package is
counted and found, and so the outcome is success, or it lists the dependencies of which the package
asks for another version; whichever it is, the order plays no part in it. -/
theorem converges (fleet : Fleet) {order : List Member} (perm : order.Perm fleet.members) :
    let fleetLock := registered fleet.members
    let final : Lock := ⟨fleet.members.length, order.map (·.package)⟩
    (∀ done member rest, order = done ++ member :: rest →
      Judged ((member.request.run LockStore.memory).run
        (Request.runAll LockStore.memory (done.map (·.request)) Lock.empty)).1.value) ∧
    ∀ further : List Member, (∀ member ∈ further, member.package ∈ fleetLock.packages) →
      Request.runAll LockStore.memory ((order ++ further).map (·.request)) Lock.empty = final ∧
      ∀ member : Member, member.package ∈ fleetLock.packages →
        let ended := (member.request.run LockStore.memory).run final
        let asked := member.package.dependencies
        ended.2 = final ∧
        (∀ calls, ∃ gets, (member.request.run LockStore.memory.counted).run (final, calls) =
          (ended.1, final, ⟨gets, calls.updates⟩)) ∧
        ∃ needed : Finset String,
          (∀ id, id ∈ needed ↔
            TransGen (Declares fleetLock.packages) member.package.source id) ∧
          ((∀ dependency ∈ asked, ¬ fleetLock.Violates dependency) →
            ended.1.value = .ok ⟨needed.card, needed.card, 0⟩) ∧
          ((∃ dependency ∈ asked, fleetLock.Violates dependency) →
            ∃ ids : List String, ids.Pairwise (· < ·) ∧
              (∀ id, id ∈ ids ↔
                ∃ dependency ∈ asked, dependency.package = id ∧ fleetLock.Violates dependency) ∧
              ended.1.value = .error (.incompatible ids ⟨needed.card, needed.card, ids.length⟩)) := by
  intro fleetLock final
  have hfinal : registered order = final := by
    show Lock.mk order.length _ = Lock.mk fleet.members.length _
    rw [perm.length_eq]
  refine ⟨?_, fun further hfurther => ⟨?_, fun member hmember => ?_⟩⟩
  · rintro done member rest rfl
    rw [runAll_eq_registered perm]
    exact (register_next perm).2
  · have whole : (order ++ []).Perm fleet.members := by simpa using perm
    have hfirst := runAll_eq_registered whole
    have hrest := runAll_further perm hfurther
    rw [Request.runAll] at hfirst hrest ⊢
    rw [List.map_append, List.foldl_append, hfirst, hrest, hfinal]
  · intro ended asked
    obtain ⟨unchanged, needed, hneeded, complete, verdict⟩ := run_registered perm hmember
    rw [hfinal] at unchanged verdict
    exact ⟨unchanged, Request.counted_of_unchanged unchanged, needed, hneeded,
      verdict.of_complete complete⟩

/-- A package that comes before the two that it needs, of which it asks one for another version. -/
theorem converges_of_dependent_first :
    let b : Dependency := ⟨"b", .provider, some ">=2.0.0"⟩
    let c : Dependency := ⟨"c", .function, none⟩
    let final : Lock := ⟨3, [⟨"a", "v1.0.0", [b]⟩, ⟨"b", "v1.0.0", [c]⟩, ⟨"c", "latest", []⟩]⟩
    ∃ (fleet : Fleet) (order : List Member), order.Perm fleet.members ∧
      (registered fleet.members).packages = final.packages.reverse ∧
      Request.runAll LockStore.memory (order.map (·.request)) Lock.empty = final ∧
      ∃ member ∈ fleet.members,
        ((member.request.run LockStore.memory).run final).2 = final ∧
        ∃ ids counts, "b" ∈ ids ∧
          ((member.request.run LockStore.memory).run final).1.value =
            .error (.incompatible ids counts) := by
  intro b c final
  have namedA : Reference.parse "a:v1.0.0" = .ok ⟨"a", some "v1.0.0"⟩ := by decide +kernel
  have namedB : Reference.parse "b:v1.0.0" = .ok ⟨"b", some "v1.0.0"⟩ := by decide +kernel
  have namedC : Reference.parse "c" = .ok ⟨"c", none⟩ := by decide +kernel
  have askedA : [(Declaration.referringTo .provider "b").withVersion ">=2.0.0"].mapM
      Declaration.toDependency = .ok [b] := by decide +kernel
  have askedB : [Declaration.referringTo .function "c"].mapM Declaration.toDependency = .ok [c] := rfl
  let memberA := Member.ofMetadata .configuration "a:v1.0.0" _ namedA askedA
  let memberB := Member.ofMetadata .provider "b:v1.0.0" _ namedB askedB
  let memberC := Member.ofMetadata .function "c" [] namedC rfl
  let lock : Lock := ⟨3, final.packages.reverse⟩
  have wellFormed : lock.WellFormed := of_decide_eq_true (by
    simp only [lock, final, b, c]
    cbv)
  have closed (x y : String) (declares : Declares lock.packages x y) : lock.contains y = true := by
    obtain ⟨package, hmem, rfl, hdepends⟩ := declares
    simp only [lock, final, List.reverse_cons, List.reverse_nil, List.nil_append, List.cons_append,
      List.mem_cons, List.not_mem_nil, or_false] at hmem
    rcases hmem with rfl | rfl | rfl
    · cases hdepends
    · have hy : c.package = y := by simpa [Package.dependsOn] using hdepends
      subst hy
      rfl
    · have hy : b.package = y := by simpa [Package.dependsOn] using hdepends
      subst hy
      rfl
  let fleet : Fleet := ⟨[memberC, memberB, memberA], wellFormed, closed⟩
  have perm : [memberA, memberB, memberC].Perm fleet.members :=
    List.reverse_perm [memberC, memberB, memberA]
  obtain ⟨-, settled⟩ := converges fleet perm
  obtain ⟨reached, verdicts⟩ := settled [] (by simp)
  have hmember : memberA ∈ fleet.members := by simp [fleet]
  obtain ⟨unchanged, -, needed, -, -, incompatible⟩ :=
    verdicts memberA (List.mem_map_of_mem hmember)
  have violated : lock.Violates b :=
    ⟨">=2.0.0", ⟨"b", "v1.0.0", [c]⟩, by decide +kernel, rfl, by decide +kernel⟩
  obtain ⟨ids, -, hids, outcome⟩ := incompatible ⟨b, List.mem_singleton_self b, violated⟩
  have listed : "b" ∈ ids := (hids "b").mpr ⟨b, List.mem_singleton_self b, rfl, violated⟩
  exact ⟨fleet, _, perm, rfl, reached, memberA, hmember, unchanged, ids, _, listed, outcome⟩

end Fleet

end PackageLock
