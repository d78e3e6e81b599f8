import PackageLock.Proofs.Resolution.Alike
import PackageLock.Proofs.Resolution.Course

/-!
# Two resolutions side by side

Of two resolutions of one revision, let the second find the entries of the lock, their dependencies and the
declarations of the metadata in another order. They go the same way: both find a graph or none, both
attach the package or fail to, and both checks come to the same verdict (`make_alike`). So they end alike,
and leave locks that are alike (`Request.run_alike`), also when many of them follow one after the
other (`Request.runAll_alike`). Main statement: `resolve_reordered`.
-/

set_option autoImplicit false

open Relation (TransGen)

namespace PackageLock

/-! ## What is alike -/

/-- The metadata are of one kind and declare the same, in whatever order; their names may differ. -/
inductive Metadata.Alike : Metadata → Metadata → Prop where
  | known {kind : PackageKind} {name name' : Option String} {declared declared' : List Declaration}
      (perm : declared.Perm declared') : Alike (.known kind name declared) (.known kind name' declared')
  | unknown : Alike .unknown .unknown

/-- The requests are for the same revision, with metadata that are alike. -/
structure Request.Alike (request request' : Request) : Prop where
  metadata : request.metadata.Alike request'.metadata
  revision : request.revision = request'.revision

/-- The errors are of one variant. -/
inductive GraphError.Like : GraphError → GraphError → Prop where
  | duplicateNode (id id' : String) : Like (.duplicateNode id) (.duplicateNode id')
  | nodeNotFound (id id' : String) : Like (.nodeNotFound id) (.nodeNotFound id')
  | cycle (source target source' target' : String) : Like (.cycle source target) (.cycle source' target')
  | link (id message id' message' : String) : Like (.link id message) (.link id' message')

/-- The outcomes are the same, but for what the error of a declaration or of the graph is about. -/
inductive Outcome.Like : Outcome → Outcome → Prop where
  | same (outcome : Outcome) : Like outcome outcome
  | declaration (cause cause' : DeclarationError) :
      Like (.error (.invalidInput (.declaration cause))) (.error (.invalidInput (.declaration cause')))
  | graph {cause cause' : GraphError} (like : cause.Like cause') :
      Like (.error (.graph cause)) (.error (.graph cause'))

/-- What becomes of the one lock and of the other: they stay as they are, each loses its entry for the same
source, or each gets an entry behind the others, and these two entries are alike. -/
inductive Lock.Follow (lock lock' : Lock) : Lock → Lock → Prop where
  | kept : Follow lock lock' lock lock'
  | erased (id : String) (nodup : (lock.packages.map (·.source)).Nodup) :
      Follow lock lock' (lock.erase id).next (lock'.erase id).next
  | registered {package package' : Package} (alike : package.Alike package') :
      Follow lock lock' (lock.add package).next (lock'.add package').next

/-- Locks that are alike stay alike. -/
theorem Lock.Follow.alike {lock lock' after after' : Lock} (h : lock.Follow lock' after after')
    (alike : lock.Alike lock') : after.Alike after' := by
  cases h with
  | kept => exact alike
  | erased id nodup => exact (alike.erase nodup id).next
  | registered packages => exact (alike.add packages).next

/-- Locks with the same entries keep the same entries, but for those that are new. -/
theorem Lock.Follow.perm {lock lock' after after' : Lock} (h : lock.Follow lock' after after')
    (perm : lock.packages.Perm lock'.packages) :
    after.packages.Perm after'.packages ∨ ∃ package package', package.Alike package' ∧
      after.packages = lock.packages ++ [package] ∧ after'.packages = lock'.packages ++ [package'] := by
  cases h with
  | kept => exact Or.inl perm
  | erased id nodup =>
    have nodup' : (lock'.packages.map (·.source)).Nodup := (perm.map _).nodup_iff.mp nodup
    show (lock.erase id).packages.Perm (lock'.erase id).packages ∨ _
    rw [packages_erase nodup, packages_erase nodup']
    exact Or.inl (perm.filter _)
  | registered alike => exact Or.inr ⟨_, _, alike, rfl, rfl⟩

/-! ## Plans -/

/-- The outcome of a plan that is carried out. -/
def Plan.outcome : Plan → Outcome
  | .finish outcome => outcome
  | .write _ outcome => outcome.value

/-- The lock that is stored when a plan has been carried out. -/
def Plan.after (lock : Lock) : Plan → Lock
  | .finish _ => lock
  | .write written _ => written.next

/-- The plans for two locks come to outcomes that are alike, and the locks follow each other. -/
structure Plan.Alike (lock lock' : Lock) (plan plan' : Plan) : Prop where
  outcomes : Outcome.Like plan.outcome plan'.outcome
  locks : lock.Follow lock' (plan.after lock) (plan'.after lock')

/-- Plans that end at once are alike if their outcomes are. -/
theorem Plan.alike_finish {lock lock' : Lock} {outcome outcome' : Outcome}
    (like : Outcome.Like outcome outcome') :
    Plan.Alike lock lock' (.finish outcome) (.finish outcome') :=
  ⟨like, .kept⟩

section Plans

variable {lock lock' : Lock}

/-- The graphs of two locks that are alike can both be built, or both fail in the same way. -/
theorem init_alike (locks : lock.Alike lock') :
    (∃ built built', Graph.service.init (lock.packages.map Node.resolved) = .ok built ∧
      Graph.service.init (lock'.packages.map Node.resolved) = .ok built') ∨
    ∃ cause cause', Graph.service.init (lock.packages.map Node.resolved) = .error cause ∧
      Graph.service.init (lock'.packages.map Node.resolved) = .error cause' ∧ cause.Like cause' := by
  by_cases nodup : (lock.packages.map (·.source)).Nodup
  · have nodup' := locks.sources_nodup nodup
    by_cases acyclic : ∀ id, ¬ TransGen (Declares lock.packages) id id
    · obtain ⟨built, init⟩ := Graph.init_of_wellFormed ⟨nodup, acyclic⟩
      obtain ⟨built', init'⟩ := Graph.init_of_wellFormed (locks.wellFormed ⟨nodup, acyclic⟩)
      exact Or.inl ⟨built, built', init, init'⟩
    · obtain ⟨id, cycle⟩ := not_forall_not.mp acyclic
      obtain ⟨source, target, init⟩ := Graph.service_init_of_cycle nodup cycle
      rw [locks.declares_eq] at cycle
      obtain ⟨source', target', init'⟩ := Graph.service_init_of_cycle nodup' cycle
      exact Or.inr ⟨_, _, init, init', .cycle source target source' target'⟩
  · have repeated' : ¬ (lock'.packages.map (·.source)).Nodup := fun nodup' =>
      nodup (locks.symm.sources_nodup nodup')
    obtain ⟨id, init⟩ := Graph.service_init_of_repeated nodup
    obtain ⟨id', init'⟩ := Graph.service_init_of_repeated repeated'
    exact Or.inr ⟨_, _, init, init', .duplicateNode id id'⟩

/-- The plans for an inactive revision are alike for like locks. -/
theorem deactivate_alike (locks : lock.Alike lock') (nodup : (lock.packages.map (·.source)).Nodup)
    (source : String) :
    Plan.Alike lock lock' (Plan.deactivate lock source).value (Plan.deactivate lock' source).value := by
  unfold Plan.deactivate
  rw [← locks.contains_eq]
  cases lock.contains source with
  | true => exact ⟨.same _, .erased source nodup⟩
  | false => exact Plan.alike_finish (.same _)

/-- A package that is alike can be attached to both graphs, or it is refused by both. -/
theorem attach_alike {g g' : Graph} {package package' : Package} (h : g.Represents lock.packages)
    (h' : g'.Represents lock'.packages) (locks : lock.Alike lock') (packages : package.Alike package')
    (absent : lock.contains package.source = false) :
    (∃ attached attached', Plan.attach Graph.service g package = .ok attached ∧
      Plan.attach Graph.service g' package' = .ok attached' ∧
      attached.value.Represents (lock.add package).packages ∧
      attached'.value.Represents (lock'.add package').packages) ∨
    ∃ cause cause', Plan.attach Graph.service g package = .error cause ∧
      Plan.attach Graph.service g' package' = .error cause' ∧ cause.Like cause' := by
  have absent' : lock'.contains package'.source = false := by
    rw [← packages.source, ← locks.contains_eq, absent]
  have fresh : package.source ∉ lock.packages.map (·.source) := Lock.not_mem_of_absent absent
  have fresh' : package'.source ∉ lock'.packages.map (·.source) := Lock.not_mem_of_absent absent'
  have both : (∃ attached, Plan.attach Graph.service g package = .ok attached) ↔
      ∃ attached', Plan.attach Graph.service g' package' = .ok attached' := by
    rw [h.attach_isOk_iff fresh, h'.attach_isOk_iff fresh', locks.declares_eq, packages.source]
    simp only [packages.dependencies.mem_iff]
  cases attach : Plan.attach Graph.service g package with
  | ok attached =>
    obtain ⟨attached', attach'⟩ := both.mp ⟨attached, attach⟩
    exact Or.inl ⟨attached, attached', rfl, attach', h.attach fresh attach, h'.attach fresh' attach'⟩
  | error cause =>
    cases attach' : Plan.attach Graph.service g' package' with
    | ok attached' =>
      obtain ⟨attached, hattached⟩ := both.mpr ⟨attached', attach'⟩
      rw [attach] at hattached
      cases hattached
    | error cause' =>
      -- nothing but a cycle keeps a package from being attached
      obtain ⟨dependency, _, rfl, _⟩ := h.cycle_of_attach attach
      obtain ⟨dependency', _, rfl, _⟩ := h'.cycle_of_attach attach'
      exact Or.inr ⟨_, _, rfl, rfl, .cycle _ _ _ _⟩

/-- The plans for an active revision are alike for like locks and like packages. -/
theorem activate_alike {g g' : Graph} {package package' : Package} (h : g.Represents lock.packages)
    (h' : g'.Represents lock'.packages) (locks : lock.Alike lock')
    (packages : package.Alike package') :
    Plan.Alike lock lock' (Plan.activate Graph.service lock g package).value
      (Plan.activate Graph.service lock' g' package').value := by
  unfold Plan.activate
  rw [← packages.source, ← locks.contains_eq]
  cases present : lock.contains package.source with
  | true =>
    have checks := check_alike h h' locks packages present
    show Plan.Alike lock lock' (.finish (Plan.check Graph.service g package).value)
      (.finish (Plan.check Graph.service g' package').value)
    rw [checks]
    exact Plan.alike_finish (.same _)
  | false =>
    rcases attach_alike h h' locks packages present with
      ⟨attached, attached', attach, attach', hattached, hattached'⟩ |
      ⟨cause, cause', attach, attach', like⟩
    · have registered : (lock.add package).contains package.source = true :=
        Lock.contains_add.mpr (Or.inr rfl)
      have checks := check_alike hattached hattached' (locks.add packages) packages registered
      rw [attach, attach']
      refine ⟨?_, .registered packages⟩
      show Outcome.Like (Plan.check Graph.service attached.value package).value
        (Plan.check Graph.service attached'.value package').value
      rw [checks]
      exact .same _
    · rw [attach, attach']
      exact Plan.alike_finish (.graph like)

/-- Declarations in another order are the same dependencies in another order, or both lists have one that
is no dependency. -/
theorem declarations_alike {declared declared' : List Declaration} (perm : declared.Perm declared') :
    (∃ dependencies dependencies', declared.mapM Declaration.toDependency = .ok dependencies ∧
      declared'.mapM Declaration.toDependency = .ok dependencies' ∧
      dependencies.Perm dependencies') ∨
    ∃ cause cause', declared.mapM Declaration.toDependency = .error cause ∧
      declared'.mapM Declaration.toDependency = .error cause' := by
  cases read : declared.mapM Declaration.toDependency with
  | ok dependencies =>
    obtain ⟨dependencies', read', hperm⟩ := Text.exists_mapM_of_perm perm read
    exact Or.inl ⟨dependencies, dependencies', rfl, read', hperm⟩
  | error cause =>
    cases read' : declared'.mapM Declaration.toDependency with
    | error cause' => exact Or.inr ⟨cause, cause', rfl, rfl⟩
    | ok dependencies' =>
      obtain ⟨dependencies, hread, _⟩ := Text.exists_mapM_of_perm perm.symm read'
      rw [read] at hread
      cases hread

/-- With the graphs of like locks, the plans for a revision are alike. -/
theorem ofGraph_alike {g g' : Graph} {declared declared' : List Declaration}
    (h : g.Represents lock.packages) (h' : g'.Represents lock'.packages) (locks : lock.Alike lock')
    (perm : declared.Perm declared') (revision : Revision) :
    Plan.Alike lock lock' (Plan.ofGraph Graph.service declared revision lock g).value
      (Plan.ofGraph Graph.service declared' revision lock' g').value := by
  unfold Plan.ofGraph
  cases revision.reference with
  | error cause => exact Plan.alike_finish (.same _)
  | ok reference =>
    cases revision.desiredState with
    | inactive => exact deactivate_alike locks h.sources_nodup reference.source
    | active =>
      rcases declarations_alike perm with
        ⟨dependencies, dependencies', read, read', hperm⟩ | ⟨cause, cause', read, read'⟩
      · rw [read, read']
        exact activate_alike h h' locks ⟨rfl, rfl, hperm⟩
      · rw [read, read']
        exact Plan.alike_finish (.declaration cause cause')

/-- The plans for a revision are alike for like locks, in whatever order its dependencies are declared. -/
theorem make_alike {declared declared' : List Declaration} (locks : lock.Alike lock')
    (perm : declared.Perm declared') (revision : Revision) :
    Plan.Alike lock lock' (Plan.make Graph.service declared revision lock).value
      (Plan.make Graph.service declared' revision lock').value := by
  rcases init_alike locks with ⟨built, built', init, init'⟩ | ⟨cause, cause', init, init', like⟩
  · rw [make_eq_of_init init, make_eq_of_init init']
    exact ofGraph_alike (Graph.service_init_represents init) (Graph.service_init_represents init') locks
      perm revision
  · rw [Plan.make, Plan.make, init, init']
    exact Plan.alike_finish (.graph like)

end Plans

/-! ## Resolutions -/

section Runs

variable {σ σ' : Type} {store : LockStore (StateM σ)} {stored : σ → Lock}
  {store' : LockStore (StateM σ')} {stored' : σ' → Lock} {s : σ} {s' : σ'}

/-- A store that serves has the plan carried out. -/
theorem Request.run_of_known (serves : store.Serves stored) (request : Request) (s : σ)
    {declared : List Declaration} (known : request.metadata.dependsOn? = some declared) :
    let plan := (Plan.make Graph.service declared request.revision (stored s)).value
    ((request.run store).run s).1.value = plan.outcome ∧
      stored ((request.run store).run s).2 = plan.after (stored s) := by
  intro plan
  obtain ⟨hvalue, hstate⟩ := request.run_of_readable store known (serves.get_ok s)
  have hkept : stored (store.get.run s).2 = stored s := serves.get_stored s
  have comes : plan.ComesTo (stored s)
      (Ended Graph.service store stored request.metadata request.revision s) := make_comesTo known
  rw [hvalue, hstate]
  show ((plan.run store).run _).1.value = _ ∧ stored ((plan.run store).run _).2 = _
  revert comes
  cases plan with
  | finish outcome => exact fun _ => ⟨rfl, hkept⟩
  | write written outcome =>
    rintro ⟨hrevision, _⟩
    obtain ⟨hrun, hafter⟩ := run_write store written outcome (store.get.run s).2
    have accepted : ((store.update written).run (store.get.run s).2).1.value = .ok () :=
      serves.accepts _ written (hrevision.trans (congrArg Lock.revision hkept.symm))
    rw [hrun, hafter, accepted]
    exact ⟨rfl, serves.update_ok _ written accepted⟩

/-- Requests that are alike end alike on locks that are alike, and these follow each other. -/
theorem Request.run_alike (serves : store.Serves stored) (serves' : store'.Serves stored')
    {request request' : Request} (requests : request.Alike request')
    (locks : (stored s).Alike (stored' s')) :
    Outcome.Like ((request.run store).run s).1.value ((request'.run store').run s').1.value ∧
      (stored s).Follow (stored' s') (stored ((request.run store).run s).2)
        (stored' ((request'.run store').run s').2) := by
  obtain ⟨metadata, revision⟩ := request
  obtain ⟨metadata', revision'⟩ := request'
  obtain ⟨hmetadata, rfl⟩ : metadata.Alike metadata' ∧ revision = revision' :=
    ⟨requests.metadata, requests.revision⟩
  cases hmetadata with
  | unknown => exact ⟨.same _, .kept⟩
  | @known kind name name' declared declared' perm =>
    have plans := make_alike locks perm revision
    obtain ⟨houtcome, hafter⟩ := Request.run_of_known serves ⟨.known kind name declared, revision⟩ s rfl
    obtain ⟨houtcome', hafter'⟩ :=
      Request.run_of_known serves' ⟨.known kind name' declared', revision⟩ s' rfl
    rw [houtcome, hafter, houtcome', hafter']
    exact ⟨plans.outcomes, plans.locks⟩

/-- Requests that are alike, resolved one after the other, leave locks that are alike. -/
theorem Request.runAll_alike (serves : store.Serves stored) (serves' : store'.Serves stored')
    {requests requests' : List Request} (alike : List.Forall₂ Request.Alike requests requests')
    (locks : (stored s).Alike (stored' s')) :
    (stored (Request.runAll store requests s)).Alike (stored' (Request.runAll store' requests' s')) := by
  induction alike generalizing s s' with
  | nil => exact locks
  | cons first _ ih => exact ih ((Request.run_alike serves serves' first locks).2.alike locks)

/-- Two resolutions of one revision, on locks of one revision that have the same entries in whatever order,
and with metadata that declare the same in whatever order. The outcomes are of one variant, with the same
counts and the same list. The locks have one revision afterwards and again the same entries, but for the
order of the dependencies of the entry that is new. -/
theorem resolve_reordered (serves : store.Serves stored) (serves' : store'.Serves stored')
    {metadata metadata' : Metadata} (declare : metadata.Alike metadata') (revision : Revision) (s : σ)
    (s' : σ') (same : (stored s).revision = (stored' s').revision)
    (perm : (stored s).packages.Perm (stored' s').packages) :
    let ended := (resolve Graph.service store metadata revision).run s
    let ended' := (resolve Graph.service store' metadata' revision).run s'
    Outcome.Like ended.1.value ended'.1.value ∧
      (stored ended.2).revision = (stored' ended'.2).revision ∧
      ((stored ended.2).packages.Perm (stored' ended'.2).packages ∨
        ∃ package package', package.Alike package' ∧
          (stored ended.2).packages = (stored s).packages ++ [package] ∧
          (stored' ended'.2).packages = (stored' s').packages ++ [package']) := by
  intro ended ended'
  have locks : (stored s).Alike (stored' s') := Lock.alike_of_perm same perm
  have requests : Request.Alike ⟨metadata, revision⟩ ⟨metadata', revision⟩ := ⟨declare, rfl⟩
  obtain ⟨outcomes, follow⟩ := Request.run_alike serves serves' requests locks
  exact ⟨outcomes, (follow.alike locks).revision, follow.perm perm⟩

end Runs

/-- Two entries in either order, and metadata that ask for both in either order. -/
theorem resolve_reordered_of_missing :
    let b : Package := ⟨"b", "v1.0.0", [⟨"c", .provider, none⟩]⟩
    let d : Package := ⟨"d", "v1.0.0", []⟩
    let lock : Lock := ⟨3, [b, d]⟩
    let lock' : Lock := ⟨3, [d, b]⟩
    let metadata (packages : List String) : Metadata :=
      .known .configuration none (packages.map (Declaration.referringTo .provider))
    let revision : Revision := ⟨"a", .active⟩
    let ended := (resolve Graph.service LockStore.memory (metadata ["b", "d"]) revision).run lock
    let ended' := (resolve Graph.service LockStore.memory (metadata ["d", "b"]) revision).run lock'
    lock.packages.Perm lock'.packages ∧ (metadata ["b", "d"]).Alike (metadata ["d", "b"]) ∧
      ended.1.value = .error (.missing ["c"] ⟨3, 2, 0⟩) ∧
      Outcome.Like ended.1.value ended'.1.value ∧ ended.2.revision = ended'.2.revision ∧
      ∃ package package', package.Alike package' ∧ ended.2.packages = [b, d, package] ∧
        ended'.2.packages = [d, b, package'] := by
  intro b d lock lock' metadata revision ended ended'
  have perm : lock.packages.Perm lock'.packages := List.Perm.swap d b []
  have declare : (metadata ["b", "d"]).Alike (metadata ["d", "b"]) := .known (List.Perm.swap _ _ [])
  obtain ⟨outcomes, revisions, entries⟩ := resolve_reordered LockStore.memory_serves
    LockStore.memory_serves declare revision lock lock' rfl perm
  refine ⟨perm, declare, ?_, outcomes, revisions, ?_⟩
  · simp only [ended, metadata, revision, lock, b, d]
    cbv
  · -- the new entries are not the same: they have their dependencies in the orders of the metadata
    have left : ended.2.packages =
        [b, d, ⟨"a", "latest", [⟨"b", .provider, none⟩, ⟨"d", .provider, none⟩]⟩] := by
      simp only [ended, metadata, revision, lock, b, d]
      cbv
    have right : ended'.2.packages =
        [d, b, ⟨"a", "latest", [⟨"d", .provider, none⟩, ⟨"b", .provider, none⟩]⟩] := by
      simp only [ended', metadata, revision, lock', b, d]
      cbv
    refine entries.resolve_left fun same => ?_
    rw [left, right] at same
    exact absurd same (by decide)

end PackageLock
