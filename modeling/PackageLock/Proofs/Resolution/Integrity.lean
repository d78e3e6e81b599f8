import PackageLock.Proofs.Graph.Acceptance
import PackageLock.Proofs.Resolution.Course
import PackageLock.Proofs.Resolution.Outcomes

/-!
# Resolutions keep the lock sound

A resolution adds an entry only after its links have passed the test for cycles, and it takes entries out
only whole; so a well-formed lock stays well-formed (`Ended.wellFormed`). From a well-formed lock a graph
can be built, so the only graph error that is left is the one of a package whose own dependencies lead
back to it (`Ended.leadsBack`). Main statement: this holds of every call in every sequence of resolutions
(`runAll_wellFormed`).
-/

set_option autoImplicit false

open Relation (ReflTransGen TransGen)

namespace PackageLock

/-! ## Changes of a lock -/

namespace Lock

variable {lock : Lock}

/-- Whether a lock is well-formed is found out by building its graph. -/
instance decidableWellFormed (lock : Lock) : Decidable lock.WellFormed :=
  decidable_of_iff ((Graph.service.init (lock.packages.map Node.resolved)).isOk = true) <| by
    rw [← Graph.service_init_isOk_iff]
    cases Graph.service.init (lock.packages.map Node.resolved) with
    | ok built => exact ⟨fun _ => ⟨built, rfl⟩, fun _ => rfl⟩
    | error cause => exact ⟨nofun, nofun⟩

/-- A lock stays well formed when it is written. -/
theorem WellFormed.next (h : lock.WellFormed) : lock.next.WellFormed :=
  ⟨h.sources_nodup, h.acyclic⟩

/-- Without an entry there are fewer declarations. -/
theorem WellFormed.erase (h : lock.WellFormed) (id : String) : (lock.erase id).WellFormed where
  sources_nodup := (List.eraseP_sublist.map _).nodup h.sources_nodup
  acyclic source cycle :=
    h.acyclic source (TransGen.mono (fun _ _ => Declares.mono List.eraseP_subset) source source cycle)

end Lock

/-! ## Requests -/

/-- The request is to register the package `source`, which has no entry, and `target`, one of its
dependencies, is the package itself or leads back to it through declarations of entries. -/
structure Request.LeadsBack (request : Request) (lock : Lock) (source target : String) : Prop where
  active : request.revision.desiredState = .active
  declares : ∃ package, Describes request.metadata request.revision package ∧
    package.source = source ∧ package.dependsOn target = true
  absent : lock.contains source = false
  path : ReflTransGen (Declares lock.packages) target source

section Endings

variable {σ : Type} {store : LockStore (StateM σ)} {stored : σ → Lock} {request : Request} {s : σ}
  {outcome : Outcome} {after : Lock}

/-- However a resolution ends, it leaves a well-formed lock well-formed. -/
theorem Ended.wellFormed
    (h : Ended Graph.service store stored request.metadata request.revision s outcome after)
    (wellFormed : (stored s).WellFormed) : after.WellFormed := by
  cases h with
  | removed => exact (wellFormed.erase _).next
  | checked _ _ grounds => exact grounds.represents.wellFormed_lock
  | _ => exact wellFormed

/-- With a well-formed lock an error of the graph is a dependency that leads back. -/
theorem Ended.leadsBack {cause : GraphError}
    (h : Ended Graph.service store stored request.metadata request.revision s outcome after)
    (wellFormed : (stored s).WellFormed) (failed : outcome = .error (.graph cause)) :
    after = stored s ∧
      ∃ source target, cause = .cycle source target ∧ request.LeadsBack (stored s) source target := by
  cases h with
  | unbuilt init =>
    obtain ⟨built, hbuilt⟩ := Graph.init_of_wellFormed wellFormed
    rw [hbuilt] at init
    cases init
  | unattached active describes init absent attach =>
    cases failed
    obtain ⟨dependency, hdependency, rfl, path⟩ :=
      (Graph.service_init_represents init).cycle_of_attach attach
    have declares := Package.dependsOn_iff.mpr ⟨dependency, hdependency, rfl⟩
    exact ⟨rfl, _, _, rfl, active, ⟨_, describes, rfl, declares⟩, absent, path⟩
  | checked _ _ grounds =>
    obtain ⟨_, _, verdict⟩ := Plan.check_verdict grounds.represents Lock.contains_register
    have judged := verdict.judged
    rw [failed] at judged
    cases judged
  | _ => cases failed

/-- The plan for an active revision is about the package that the revision describes. -/
theorem ofGraph_of_describes {G : Type} {service : GraphService G} {declared : List Declaration}
    {lock : Lock} {g : G} {package : Package} (active : request.revision.desiredState = .active)
    (known : request.metadata.dependsOn? = some declared)
    (describes : Describes request.metadata request.revision package) :
    Plan.ofGraph service declared request.revision lock g = Plan.activate service lock g package := by
  obtain ⟨⟨reference, named, hsource, hversion⟩, declared', known', converted⟩ := describes
  rw [known] at known'
  cases known'
  have hpackage : Package.mk reference.source reference.identifierOrDefault package.dependencies =
      package := by rw [hsource, hversion]
  rw [Plan.ofGraph, named]
  simp only [active, converted]
  rw [hpackage]

/-- A package whose dependencies lead back to it is refused before anything is written. -/
theorem make_of_leadsBack {lock : Lock} {source target : String} {declared : List Declaration}
    (wellFormed : lock.WellFormed) (leadsBack : request.LeadsBack lock source target)
    (known : request.metadata.dependsOn? = some declared) :
    ∃ target', (Plan.make Graph.service declared request.revision lock).value =
      .finish (.error (.graph (.cycle source target'))) := by
  obtain ⟨active, ⟨package, describes, rfl, declares⟩, absent, path⟩ := leadsBack
  obtain ⟨dependency, hdependency, rfl⟩ := Package.dependsOn_iff.mp declares
  obtain ⟨built, init⟩ := Graph.init_of_wellFormed wellFormed
  have represents := Graph.service_init_represents init
  have fresh : package.source ∉ lock.packages.map (·.source) := Lock.not_mem_of_absent absent
  rw [make_eq_of_init init, ofGraph_of_describes active known describes, Plan.activate,
    if_neg (by rw [absent]; exact Bool.false_ne_true)]
  cases attach : Plan.attach Graph.service built.value.1 package with
  | ok attached =>
    exact absurd path ((represents.attach_isOk_iff fresh).mp ⟨attached, attach⟩ dependency hdependency)
  | error cause =>
    obtain ⟨other, _, rfl, _⟩ := represents.cycle_of_attach attach
    exact ⟨other.package, rfl⟩

/-- A plan that ends without a write tells the outcome, and the lock stays as it was. -/
theorem run_of_finish {declared : List Declaration} {lock : Lock} (keeps : store.Keeps stored)
    (known : request.metadata.dependsOn? = some declared)
    (readable : (store.get.run s).1.value = .ok lock)
    (plan : (Plan.make Graph.service declared request.revision (stored s)).value = .finish outcome) :
    ((request.run store).run s).1.value = outcome ∧ stored ((request.run store).run s).2 = stored s := by
  obtain ⟨hvalue, hstate⟩ := request.run_of_readable store known readable
  rw [keeps.get_value s lock readable, plan] at hvalue hstate
  exact ⟨hvalue, (congrArg stored hstate).trans (keeps.get_stored s)⟩

/-- Where the lock can be read, a package whose dependencies lead back to it is refused. -/
theorem run_of_leadsBack {source target : String} {lock : Lock} (keeps : store.Keeps stored)
    (wellFormed : (stored s).WellFormed) (readable : (store.get.run s).1.value = .ok lock)
    (leadsBack : request.LeadsBack (stored s) source target) :
    ∃ target', ((request.run store).run s).1.value = .error (.graph (.cycle source target')) := by
  obtain ⟨_, ⟨_, ⟨_, declared, known, _⟩, _⟩, _, _⟩ := id leadsBack
  obtain ⟨target', hplan⟩ := make_of_leadsBack wellFormed leadsBack known
  exact ⟨target', (run_of_finish keeps known readable hplan).1⟩

/-! ## Sequences of resolutions -/

/-- What a sequence of resolutions leaves is well-formed if what it found was. -/
theorem wellFormed_runAll (keeps : store.Keeps stored) (wellFormed : (stored s).WellFormed)
    (requests : List Request) : (stored (Request.runAll store requests s)).WellFormed := by
  induction requests generalizing s with
  | nil => exact wellFormed
  | cons request requests ih =>
    have hended := resolve_ended keeps Graph.service request.metadata request.revision s
    exact ih (hended.wellFormed wellFormed)

/-- The lock never becomes unsound through resolutions: after any sequence of them, whatever has come of
each, a well-formed lock is still well-formed. So no further one finds an entry twice. It finds a cycle
only if it is to register a package without an entry whose own dependencies lead back to it, and then it
leaves the lock as it was; where the lock can be read, such a package is always refused. -/
theorem runAll_wellFormed (keeps : store.Keeps stored) (wellFormed : (stored s).WellFormed)
    (requests : List Request) :
    let before := Request.runAll store requests s
    (stored before).WellFormed ∧ ∀ request : Request,
      let ended := (request.run store).run before
      (∀ id, ended.1.value ≠ .error (.graph (.duplicateNode id))) ∧
      (∀ source target, ended.1.value = .error (.graph (.cycle source target)) →
        stored ended.2 = stored before ∧ request.LeadsBack (stored before) source target) ∧
      ∀ source target lock, (store.get.run before).1.value = .ok lock →
        request.LeadsBack (stored before) source target →
        ∃ target', ended.1.value = .error (.graph (.cycle source target')) := by
  intro before
  have hbefore : (stored before).WellFormed := wellFormed_runAll keeps wellFormed requests
  refine ⟨hbefore, fun request => ?_⟩
  intro ended
  have hended : Ended Graph.service store stored request.metadata request.revision before
      ended.1.value (stored ended.2) :=
    resolve_ended keeps Graph.service request.metadata request.revision before
  refine ⟨?_, ?_, ?_⟩
  · intro id failed
    obtain ⟨_, source, target, hcause, _⟩ := hended.leadsBack hbefore failed
    cases hcause
  · intro source target failed
    obtain ⟨unchanged, _, _, hcause, leadsBack⟩ := hended.leadsBack hbefore failed
    cases hcause
    exact ⟨unchanged, leadsBack⟩
  · intro source target lock readable leadsBack
    exact run_of_leadsBack keeps hbefore readable leadsBack

end Endings

/-- A package is registered, and then one on which an entry depends and whose own dependency is that
entry. -/
theorem runAll_wellFormed_of_cycle :
    let lock : Lock := ⟨1, [⟨"a", "v1", [⟨"b", .provider, none⟩]⟩]⟩
    let first : Request := ⟨.known .provider none [], ⟨"c", .active⟩⟩
    let request : Request :=
      ⟨.known .provider none [Declaration.referringTo .configuration "a"], ⟨"b", .active⟩⟩
    let before := Request.runAll LockStore.memory [first] lock
    let ended := (request.run LockStore.memory).run before
    lock.WellFormed ∧ before.WellFormed ∧ before.contains "c" = true ∧
      ended.1.value = .error (.graph (.cycle "b" "a")) ∧ ended.2 = before ∧
      request.LeadsBack before "b" "a" := by
  intro lock first request before ended
  have wellFormed : lock.WellFormed := of_decide_eq_true (by cbv)
  have hlock : before = ⟨2, lock.packages ++ [⟨"c", "latest", []⟩]⟩ := by
    show ((first.run LockStore.memory).run lock).2 = _
    cbv
  have failed : ended.1.value = .error (.graph (.cycle "b" "a")) := by
    show ((request.run LockStore.memory).run before).1.value = _
    rw [hlock]
    cbv
  obtain ⟨hbefore, hrequest⟩ :=
    runAll_wellFormed LockStore.memory_serves.toKeeps wellFormed [first]
  obtain ⟨unchanged, leadsBack⟩ := (hrequest request).2.1 "b" "a" failed
  exact ⟨wellFormed, hbefore, by rw [hlock]; decide, failed, unchanged, leadsBack⟩

end PackageLock
