import PackageLock.Proofs.Resolution.Alike

/-!
# Resolutions once more

Asked for the same once more, a resolution in memory has nothing left to write and comes to the same
outcome. This takes an argument only if the first one has written (`run_again`): then the second one finds
the entry that the first one has made, or none where the first one has taken it out. It checks the
dependencies on another graph, but this one represents the same entries. Main statement: `run_twice`.
-/

set_option autoImplicit false

namespace PackageLock

variable {metadata : Metadata} {revision : Revision} {declared : List Declaration} {lock : Lock}

/-! ## Plans with nothing left to write -/

/-- Where there is no entry to take out, nothing is written. -/
theorem make_of_absent {reference : Reference} (wellFormed : lock.WellFormed)
    (inactive : revision.desiredState = .inactive) (named : revision.reference = .ok reference)
    (absent : lock.contains reference.source = false) :
    (Plan.make Graph.service declared revision lock).value = .finish (.ok Counts.zero) := by
  obtain ⟨built, init⟩ := Graph.init_of_wellFormed wellFormed
  rw [make_eq_of_init init, Plan.ofGraph, named]
  simp only [inactive, Plan.deactivate, absent]
  rfl

/-- Where there is the entry already, the dependencies are checked and nothing is written. -/
theorem make_of_present {request : Request} {package : Package} (wellFormed : lock.WellFormed)
    (active : request.revision.desiredState = .active)
    (known : request.metadata.dependsOn? = some declared)
    (describes : Describes request.metadata request.revision package)
    (present : lock.contains package.source = true) :
    ∃ g : Graph, g.Represents lock.packages ∧
      (Plan.make Graph.service declared request.revision lock).value =
        .finish (Plan.check Graph.service g package).value := by
  obtain ⟨built, init⟩ := Graph.init_of_wellFormed wellFormed
  refine ⟨built.value.1, Graph.service_init_represents init, ?_⟩
  rw [make_eq_of_init init, ofGraph_of_describes active known describes, Plan.activate, if_pos present]
  rfl

/-- The check of a package says the same on all graphs of a lock. -/
theorem check_unique {package : Package} {g g' : Graph} (h : g.Represents lock.packages)
    (h' : g'.Represents lock.packages) (present : lock.contains package.source = true) :
    (Plan.check Graph.service g package).value = (Plan.check Graph.service g' package).value :=
  check_alike h h' (Lock.alike_of_perm rfl (List.Perm.refl _)) (Package.Alike.refl package) present

/-! ## The second time -/

/-- Where a resolution has changed the lock, the plan for the lock that it leaves is to end with the same
outcome. -/
theorem Ended.plan_again {σ : Type} {store : LockStore (StateM σ)} {stored : σ → Lock}
    {request : Request} {s : σ} {outcome : Outcome} {after : Lock}
    (h : Ended Graph.service store stored request.metadata request.revision s outcome after)
    (known : request.metadata.dependsOn? = some declared) (changed : after ≠ stored s) :
    (Plan.make Graph.service declared request.revision after).value = .finish outcome := by
  cases h with
  | removed inactive named init _ =>
    have wellFormed := (Graph.service_init_represents init).wellFormed_lock
    exact make_of_absent (wellFormed.erase _).next inactive named
      (Lock.contains_erase wellFormed.sources_nodup)
  | checked active describes grounds =>
    have represents := grounds.represents
    obtain ⟨g, represents', plan⟩ :=
      make_of_present represents.wellFormed_lock active known describes Lock.contains_register
    rw [plan, check_unique represents' represents Lock.contains_register]
  | _ => exact absurd rfl changed

/-- In memory, the same resolution once more comes to the same outcome and leaves the lock as it is. -/
theorem run_again (request : Request) (lock : Lock) :
    let first := (request.run LockStore.memory).run lock
    let second := (request.run LockStore.memory).run first.2
    second.1.value = first.1.value ∧ second.2 = first.2 := by
  intro first second
  by_cases changed : first.2 = lock
  · -- the second resolution is the first one over again
    have hsecond : second = first := congrArg (request.run LockStore.memory).run changed
    rw [hsecond]
    exact ⟨rfl, rfl⟩
  · have hended : Ended Graph.service LockStore.memory (fun lock => lock) request.metadata
        request.revision lock first.1.value first.2 :=
      resolve_ended LockStore.memory_serves.toKeeps Graph.service request.metadata request.revision lock
    cases known : request.metadata.dependsOn? with
    | none =>
      have hfirst : first = (.silent (.error (.invalidInput (.unknownKind request.metadata.kindName))),
          lock) := by
        show (resolve Graph.service LockStore.memory request.metadata request.revision).run lock = _
        rw [resolve, known]
        rfl
      exact absurd (congrArg Prod.snd hfirst) changed
    | some declared =>
      exact run_of_finish LockStore.memory_serves.toKeeps known rfl (hended.plan_again known changed)

/-- In memory, two resolutions of the same request one after the other come to the same outcome, and the
second one writes nothing: it leaves the lock as the first one has, and the store is not asked to write. -/
theorem run_twice (request : Request) (lock : Lock) :
    let first := (request.run LockStore.memory).run lock
    let second := (request.run LockStore.memory).run first.2
    second.1.value = first.1.value ∧ second.2 = first.2 ∧
      ∀ calls, ∃ gets, (request.run LockStore.memory.counted).run (first.2, calls) =
        (second.1, second.2, ⟨gets, calls.updates⟩) := by
  intro first second
  obtain ⟨same, unchanged⟩ : second.1.value = first.1.value ∧ second.2 = first.2 :=
    run_again request lock
  refine ⟨same, unchanged, fun calls => ?_⟩
  have hcases := request.run_course.memory_cases first.2
  rw [request.on_run, request.on_run] at hcases
  rcases hcases with ⟨_, counted⟩ | written
  · rw [unchanged]
    exact counted calls
  · -- a write would have left another revision
    have hrevision : first.2.revision = first.2.revision + 1 := (congrArg _ unchanged).symm.trans written
    omega

end PackageLock
