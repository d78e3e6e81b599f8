import PackageLock.Proofs.Lock.Entries
import PackageLock.Proofs.Store.Contract
import PackageLock.Resolution.Plan

/-!
# How a resolution ends

All that a resolution can come to, whatever the graph it works with and whatever the store, as long as
the store keeps its lock. Each ending tells the outcome, the lock that is stored afterwards, and what has
led there. Main statement: every resolution ends in one of these ways (`resolve_ended`). What is true of
all resolutions follows from this by cases, without opening the resolution again.
-/

set_option autoImplicit false

namespace PackageLock

/-- `package` is the entry that a revision is to have: its reference names the package and the version,
its metadata the dependencies. -/
structure Describes (metadata : Metadata) (revision : Revision) (package : Package) : Prop where
  reference : ∃ reference, revision.reference = .ok reference ∧
    reference.source = package.source ∧ reference.identifierOrDefault = package.version
  dependencies : ∃ declared, metadata.dependsOn? = some declared ∧
    declared.mapM Declaration.toDependency = .ok package.dependencies

/-- There is one entry at most that a revision is to have. -/
theorem Describes.unique {metadata : Metadata} {revision : Revision} {first second : Package}
    (h : Describes metadata revision first) (h' : Describes metadata revision second) :
    first = second := by
  obtain ⟨⟨reference, hreference, hsource, hversion⟩, declared, hdeclared, hdependencies⟩ := h
  obtain ⟨⟨reference', hreference', hsource', hversion'⟩, declared', hdeclared', hdependencies'⟩ := h'
  rw [hreference] at hreference'
  cases hreference'
  rw [hdeclared] at hdeclared'
  cases hdeclared'
  rw [hdependencies] at hdependencies'
  have sources : first.source = second.source := hsource.symm.trans hsource'
  have versions : first.version = second.version := hversion.symm.trans hversion'
  have dependencies : first.dependencies = second.dependencies := Except.ok.inj hdependencies'
  cases first
  cases second
  cases sources
  cases versions
  cases dependencies
  rfl

/-- The lock after a package has been registered, unless it had its entry already. -/
def Lock.register (lock : Lock) (package : Package) : Lock :=
  if lock.contains package.source then lock else (lock.add package).next

/-- A package that has its entry is not registered again. -/
theorem Lock.register_of_present {lock : Lock} {package : Package}
    (present : lock.contains package.source = true) : lock.register package = lock :=
  if_pos present

/-- A package without an entry is added. -/
theorem Lock.register_of_absent {lock : Lock} {package : Package}
    (absent : lock.contains package.source = false) :
    lock.register package = (lock.add package).next := by
  rw [register, absent]
  rfl

/-- A package that has been registered has its entry. -/
theorem Lock.contains_register {lock : Lock} {package : Package} :
    (lock.register package).contains package.source = true := by
  cases present : lock.contains package.source with
  | true => rw [register_of_present present, present]
  | false =>
    rw [register_of_absent present, contains_next, contains_add]
    exact Or.inr rfl

variable {G : Type} {σ : Type}

/-- The graph on which the dependencies of `package` are checked: the graph of the lock, to which the
package is attached if it has no entry. -/
inductive Grounds (service : GraphService G) (lock : Lock) (package : Package) : G → Prop where
  | known {built : Logged (G × List Node)}
      (init : service.init (lock.packages.map Node.resolved) = .ok built)
      (present : lock.contains package.source = true) :
      Grounds service lock package built.value.1
  | attached {built : Logged (G × List Node)} {attached : Logged G}
      (init : service.init (lock.packages.map Node.resolved) = .ok built)
      (absent : lock.contains package.source = false)
      (attach : Plan.attach service built.value.1 package = .ok attached) :
      Grounds service lock package attached.value

/-- What a resolution comes to: its outcome and the lock that is stored afterwards. -/
inductive Ended (service : GraphService G) (store : LockStore (StateM σ)) (stored : σ → Lock)
    (metadata : Metadata) (revision : Revision) (s : σ) : Outcome → Lock → Prop where
  | unknownKind (unknown : metadata.dependsOn? = none) :
      Ended service store stored metadata revision s
        (.error (.invalidInput (.unknownKind metadata.kindName))) (stored s)
  | unreadable {cause : StoreError} (failed : (store.get.run s).1.value = .error cause) :
      Ended service store stored metadata revision s (.error (.getLock cause)) (stored s)
  | unbuilt {cause : GraphError}
      (init : service.init ((stored s).packages.map Node.resolved) = .error cause) :
      Ended service store stored metadata revision s (.error (.graph cause)) (stored s)
  | unnamed {cause : ReferenceError} (failed : revision.reference = .error cause) :
      Ended service store stored metadata revision s
        (.error (.invalidInput (.reference cause))) (stored s)
  | undeclared {declared : List Declaration} {cause : DeclarationError}
      (active : revision.desiredState = .active)
      (known : metadata.dependsOn? = some declared)
      (failed : declared.mapM Declaration.toDependency = .error cause) :
      Ended service store stored metadata revision s
        (.error (.invalidInput (.declaration cause))) (stored s)
  | absent {reference : Reference} (inactive : revision.desiredState = .inactive)
      (named : revision.reference = .ok reference)
      (absent : (stored s).contains reference.source = false) :
      Ended service store stored metadata revision s (.ok Counts.zero) (stored s)
  | removed {reference : Reference} {built : Logged (G × List Node)}
      (inactive : revision.desiredState = .inactive)
      (named : revision.reference = .ok reference)
      (init : service.init ((stored s).packages.map Node.resolved) = .ok built)
      (present : (stored s).contains reference.source = true) :
      Ended service store stored metadata revision s (.ok Counts.zero)
        ((stored s).erase reference.source).next
  | unattached {package : Package} {built : Logged (G × List Node)} {cause : GraphError}
      (active : revision.desiredState = .active)
      (describes : Describes metadata revision package)
      (init : service.init ((stored s).packages.map Node.resolved) = .ok built)
      (absent : (stored s).contains package.source = false)
      (failed : Plan.attach service built.value.1 package = .error cause) :
      Ended service store stored metadata revision s (.error (.graph cause)) (stored s)
  | refused {lock : Lock} {cause : StoreError} (revision_eq : lock.revision = (stored s).revision)
      (failed : ((store.update lock).run (store.get.run s).2).1.value = .error cause) :
      Ended service store stored metadata revision s (.error (.store cause)) (stored s)
  | checked {package : Package} {g : G} (active : revision.desiredState = .active)
      (describes : Describes metadata revision package)
      (grounds : Grounds service (stored s) package g) :
      Ended service store stored metadata revision s (Plan.check service g package).value
        ((stored s).register package)

/-! ## What plans come to -/

/-- What a plan comes to when it is carried out and its write, if there is one, succeeds. -/
def Plan.ComesTo (before : Lock) (ending : Outcome → Lock → Prop) : Plan → Prop
  | .finish outcome => ending outcome before
  | .write lock outcome => lock.revision = before.revision ∧ ending outcome.value lock.next

section Plans

variable {service : GraphService G} {store : LockStore (StateM σ)} {stored : σ → Lock}
  {metadata : Metadata} {revision : Revision} {s : σ} {built : Logged (G × List Node)}

/-- The plan for an inactive revision comes to an ending of its resolution. -/
theorem deactivate_comesTo {reference : Reference} (inactive : revision.desiredState = .inactive)
    (named : revision.reference = .ok reference)
    (init : service.init ((stored s).packages.map Node.resolved) = .ok built) :
    (Plan.deactivate (stored s) reference.source).value.ComesTo (stored s)
      (Ended service store stored metadata revision s) := by
  unfold Plan.deactivate
  cases present : (stored s).contains reference.source with
  | true => exact ⟨rfl, Ended.removed inactive named init present⟩
  | false => exact Ended.absent inactive named present

/-- The plan for an active revision comes to an ending of its resolution. -/
theorem activate_comesTo {package : Package} (active : revision.desiredState = .active)
    (describes : Describes metadata revision package)
    (init : service.init ((stored s).packages.map Node.resolved) = .ok built) :
    (Plan.activate service (stored s) built.value.1 package).value.ComesTo (stored s)
      (Ended service store stored metadata revision s) := by
  unfold Plan.activate
  cases present : (stored s).contains package.source with
  | true =>
    have hended : Ended service store stored metadata revision s
        (Plan.check service built.value.1 package).value ((stored s).register package) :=
      Ended.checked active describes (Grounds.known init present)
    rw [Lock.register_of_present present] at hended
    exact hended
  | false =>
    cases attach : Plan.attach service built.value.1 package with
    | error cause => exact Ended.unattached active describes init present attach
    | ok attached =>
      have hended : Ended service store stored metadata revision s
          (Plan.check service attached.value package).value ((stored s).register package) :=
        Ended.checked active describes (Grounds.attached init present attach)
      rw [Lock.register_of_absent present] at hended
      exact ⟨rfl, hended⟩

/-- With the graph of the lock, the plan for a revision comes to an ending of its resolution. -/
theorem ofGraph_comesTo {declared : List Declaration} (known : metadata.dependsOn? = some declared)
    (init : service.init ((stored s).packages.map Node.resolved) = .ok built) :
    (Plan.ofGraph service declared revision (stored s) built.value.1).value.ComesTo (stored s)
      (Ended service store stored metadata revision s) := by
  unfold Plan.ofGraph
  cases named : revision.reference with
  | error cause => exact Ended.unnamed named
  | ok reference =>
    cases state : revision.desiredState with
    | inactive => exact deactivate_comesTo state named init
    | active =>
      cases converted : declared.mapM Declaration.toDependency with
      | error cause => exact Ended.undeclared state known converted
      | ok dependencies =>
        exact activate_comesTo state
          ⟨⟨reference, named, rfl, rfl⟩, ⟨declared, known, converted⟩⟩ init

/-- Once the graph is built, the plan is made with it. -/
theorem make_eq_of_init {declared : List Declaration} {lock : Lock}
    (init : service.init (lock.packages.map Node.resolved) = .ok built) :
    (Plan.make service declared revision lock).value =
      (Plan.ofGraph service declared revision lock built.value.1).value := by
  obtain ⟨⟨g, created⟩, events⟩ := built
  rw [Plan.make, init]
  simp only [Logged.andThen, Logged.after]

/-- The plan for a revision comes to an ending of its resolution. -/
theorem make_comesTo {declared : List Declaration} (known : metadata.dependsOn? = some declared) :
    (Plan.make service declared revision (stored s)).value.ComesTo (stored s)
      (Ended service store stored metadata revision s) := by
  cases init : service.init ((stored s).packages.map Node.resolved) with
  | error cause =>
    rw [Plan.make, init]
    exact Ended.unbuilt init
  | ok built =>
    rw [make_eq_of_init init]
    exact ofGraph_comesTo known init

end Plans

/-! ## Carrying out a plan -/

section Run

variable {store : LockStore (StateM σ)} {stored : σ → Lock}

/-- A plan to write ends as told if the store accepts the lock, and with the error of the store otherwise.
-/
theorem run_write (store : LockStore (StateM σ)) (lock : Lock) (outcome : Logged Outcome) (s : σ) :
    (((Plan.write lock outcome).run store).run s).1.value =
        (match ((store.update lock).run s).1.value with
        | .ok () => outcome.value
        | .error cause => .error (.store cause)) ∧
      (((Plan.write lock outcome).run store).run s).2 = ((store.update lock).run s).2 := by
  simp only [Plan.run, StateT.run_bind]
  obtain ⟨⟨value, events⟩, after⟩ := (store.update lock).run s
  cases value with
  | ok _ => exact ⟨rfl, rfl⟩
  | error cause => exact ⟨rfl, rfl⟩

/-- A plan that is carried out comes to its ending, unless the store refuses the write. -/
theorem run_comesTo (keeps : store.Keeps stored) {ending : Outcome → Lock → Prop} {plan : Plan} {s : σ}
    (comes : plan.ComesTo (stored s) ending) :
    ending ((plan.run store).run s).1.value (stored ((plan.run store).run s).2) ∨
      ∃ lock cause, lock.revision = (stored s).revision ∧
        ((store.update lock).run s).1.value = .error cause ∧
        ((plan.run store).run s).1.value = .error (.store cause) ∧
        stored ((plan.run store).run s).2 = stored s := by
  cases plan with
  | finish outcome => exact Or.inl comes
  | write lock outcome =>
    obtain ⟨hrevision, hending⟩ := comes
    obtain ⟨hvalue, hstate⟩ := run_write store lock outcome s
    rw [hvalue, hstate]
    cases hupdate : ((store.update lock).run s).1.value with
    | ok _ =>
      rw [keeps.update_ok s lock hupdate]
      exact Or.inl hending
    | error cause =>
      have hkept := keeps.update_error s lock cause hupdate
      exact Or.inr ⟨lock, cause, hrevision, hupdate, rfl, hkept⟩

/-- Every resolution ends in one of the ways told of. -/
theorem resolve_ended (keeps : store.Keeps stored) (service : GraphService G) (metadata : Metadata)
    (revision : Revision) (s : σ) :
    Ended service store stored metadata revision s
      ((resolve service store metadata revision).run s).1.value
      (stored ((resolve service store metadata revision).run s).2) := by
  unfold resolve
  cases known : metadata.dependsOn? with
  | none => exact Ended.unknownKind known
  | some declared =>
    have hstored := keeps.get_stored s
    have hvalue := keeps.get_value s
    simp only [StateT.run_bind]
    rcases hget : store.get.run s with ⟨⟨value, events⟩, after⟩
    rw [hget] at hstored hvalue
    -- reading has changed nothing, so the plan is carried out on the lock that it was made from
    have hkept : stored after = stored s := hstored
    cases value with
    | error cause =>
      have hended : Ended service store stored metadata revision s (.error (.getLock cause))
          (stored s) := Ended.unreadable (by rw [hget])
      rw [← hkept] at hended
      exact hended
    | ok lock =>
      have hlock : lock = stored s := hvalue lock rfl
      have hplan : (Plan.make service declared revision (stored s)).value.ComesTo (stored after)
          (Ended service store stored metadata revision s) := by
        rw [hkept]
        exact make_comesTo known
      have hended : Ended service store stored metadata revision s
          (((Plan.make service declared revision (stored s)).value.run store).run after).1.value
          (stored (((Plan.make service declared revision (stored s)).value.run store).run after).2) := by
        rcases run_comesTo keeps hplan with hended | ⟨lock, cause, hrevision, hupdate, hrun, hlast⟩
        · exact hended
        · rw [hrun, hlast, hkept]
          exact Ended.refused (hrevision.trans (congrArg _ hkept)) (by rw [hget]; exact hupdate)
      rw [hlock]
      exact hended

end Run

end PackageLock
