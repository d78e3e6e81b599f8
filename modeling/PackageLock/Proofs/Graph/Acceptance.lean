import PackageLock.Proofs.Graph.Representation

/-!
# Which locks have a graph

What is asked of nodes and links in general comes down to this for a lock: its graph can be built exactly
if no two entries share a source and no declarations lead from an entry back to it
(`service_init_isOk_iff`), and a package can be attached to it exactly if none of its dependencies leads
back to it (`Represents.attach_isOk_iff`).
-/

set_option autoImplicit false

open Relation (ReflTransGen TransGen)

namespace PackageLock

/-- A path that ends where all additional arrows begin does without them. -/
theorem reflTransGen_of_or_eq {α : Type} {r r' : α → α → Prop} {a x : α}
    (hr : ∀ y z, r' y z → r y z ∨ y = a) (path : ReflTransGen r' x a) : ReflTransGen r x a := by
  induction path using ReflTransGen.head_induction_on with
  | refl => exact ReflTransGen.refl
  | head step _ ih =>
    rcases hr _ _ step with h | rfl
    · exact ReflTransGen.head h ih
    · exact ReflTransGen.refl

/-! ## Building the graph of a lock -/

/-- No two entries share a source, and no declarations lead from an entry back to it. -/
structure Lock.WellFormed (lock : Lock) : Prop where
  sources_nodup : (lock.packages.map (·.source)).Nodup
  acyclic : ∀ id, ¬ TransGen (Declares lock.packages) id id

namespace Graph

variable {g : Graph} {packages : List Package}

/-- A lock that has a graph is well formed. -/
theorem Represents.wellFormed_lock {lock : Lock} (h : g.Represents lock.packages) :
    lock.WellFormed where
  sources_nodup := h.sources_nodup
  acyclic id := by
    have harrow : g.Arrow = Declares lock.packages := by
      funext a b
      exact propext (h.arrow_iff a b)
    rw [← harrow]
    exact h.wellFormed.acyclic id

/-- The graph of a well-formed lock can be built. -/
theorem init_of_wellFormed {lock : Lock} (h : lock.WellFormed) :
    ∃ built, service.init (lock.packages.map Node.resolved) = .ok built := by
  have nodup : ((lock.packages.map Node.resolved).map Node.id).Nodup := by
    rw [map_id_resolved]
    exact h.sources_nodup
  have acyclic (id : String) : ¬ TransGen (Tells [Linker.declared] (lock.packages.map Node.resolved))
      id id := fun cycle =>
    h.acyclic id (TransGen.mono (fun _ _ => tells_declared_iff.mp) id id cycle)
  rw [service_init_eq, init_eq_ok_of_acyclic (answering_declared _) nodup acyclic]
  exact ⟨_, rfl⟩

/-- Entries of one source are refused as nodes of one identifier. -/
theorem service_init_of_repeated {packages : List Package}
    (repeated : ¬ (packages.map (·.source)).Nodup) :
    ∃ id, service.init (packages.map Node.resolved) = .error (.duplicateNode id) := by
  have hids : ¬ ((packages.map Node.resolved).map Node.id).Nodup := by
    rwa [map_id_resolved]
  obtain ⟨before, node, after, hnodes, nodup, hnode⟩ := exists_first_repeated hids
  refine ⟨node.id, ?_⟩
  rw [service_init_eq, hnodes, init_eq_duplicate nodup hnode]

/-- Declarations that lead back to an entry are refused as a cycle. -/
theorem service_init_of_cycle {packages : List Package} {id : String}
    (nodup : (packages.map (·.source)).Nodup) (cycle : TransGen (Declares packages) id id) :
    ∃ source target, service.init (packages.map Node.resolved) = .error (.cycle source target) := by
  have hids : ((packages.map Node.resolved).map Node.id).Nodup := by
    rwa [map_id_resolved]
  obtain ⟨_, link, _, _, _, _, _, hinit⟩ := init_eq_cycle (answering_declared _) hids
    (TransGen.mono (fun _ _ => tells_declared_iff.mpr) id id cycle)
  refine ⟨link.1, link.2.package, ?_⟩
  rw [service_init_eq, hinit]

/-- The graph of a lock can be built exactly if the lock is well-formed. -/
theorem service_init_isOk_iff {lock : Lock} :
    (∃ built, service.init (lock.packages.map Node.resolved) = .ok built) ↔ lock.WellFormed := by
  constructor
  · rintro ⟨built, hbuilt⟩
    exact (service_init_represents hbuilt).wellFormed_lock
  · exact init_of_wellFormed

/-! ## Attaching a package -/

/-- A package is refused only with a dependency that leads back to it. -/
theorem Represents.cycle_of_attach {package : Package} {cause : GraphError}
    (h : g.Represents packages) (failed : Plan.attach service g package = .error cause) :
    ∃ dependency ∈ package.dependencies, cause = .cycle package.source dependency.package ∧
      ReflTransGen (Declares packages) dependency.package package.source := by
  have hcovers : (Construction.on (g.place (.resolved package))).Covers [package.source] :=
    h.wellFormed.covers_place (.resolved package) []
  rw [attach_eq_linkEach] at failed
  have hsources : ∀ link ∈ (Node.resolved package).links, link.1 ∈ [package.source] := fun link hlink =>
    List.mem_singleton.mpr (Node.mem_links.mp hlink).1
  rcases Build.linkEach_cases hcovers hsources with
    ⟨made, _⟩ | ⟨before, link, after, hlinks, _, back, herror⟩
  · rw [made] at failed
    cases failed
  · rw [herror] at failed
    cases failed
    have hlink : link ∈ (Node.resolved package).links := hlinks ▸ List.mem_append_right _ (by simp)
    obtain ⟨hsource, hdependency⟩ := Node.mem_links.mp hlink
    refine ⟨link.2, hdependency, by rw [hsource]; rfl, ?_⟩
    rw [hsource] at back
    refine reflTransGen_of_or_eq (fun a b arrow => ?_) back
    -- what is not declared by an entry is a link made just now, and leaves from the package itself
    rcases Construction.arrow_attachAll.mp arrow with placed | ⟨other, hother, hends, _⟩
    · exact Or.inl ((h.arrow_iff a b).mp (arrow_place.mp placed).1)
    · have hmem : other ∈ (Node.resolved package).links := hlinks ▸ List.mem_append_left _ hother
      exact Or.inr (hends ▸ (Node.mem_links.mp hmem).1)

/-- A package can be attached exactly if none of its dependencies leads back to it. -/
theorem Represents.attach_isOk_iff {package : Package} (h : g.Represents packages)
    (fresh : package.source ∉ packages.map (·.source)) :
    (∃ attached, Plan.attach service g package = .ok attached) ↔
      ∀ dependency ∈ package.dependencies,
        ¬ ReflTransGen (Declares packages) dependency.package package.source := by
  constructor
  · rintro ⟨attached, hattach⟩ dependency hdependency back
    have hnext : attached.value.Represents (packages ++ [package]) := h.attach fresh hattach
    have step : Declares (packages ++ [package]) package.source dependency.package :=
      ⟨package, by simp, rfl, Package.dependsOn_iff.mpr ⟨dependency, hdependency, rfl⟩⟩
    have grown (a b : String) : Declares packages a b → Declares (packages ++ [package]) a b :=
      Declares.mono (List.subset_append_left packages [package])
    have cycle := TransGen.head' step (ReflTransGen.mono grown _ _ back)
    exact hnext.wellFormed.acyclic package.source
      (TransGen.mono (fun a b => (hnext.arrow_iff a b).mpr) _ _ cycle)
  · intro open_
    cases hattach : Plan.attach service g package with
    | ok attached => exact ⟨attached, rfl⟩
    | error cause =>
      obtain ⟨dependency, hdependency, _, back⟩ := h.cycle_of_attach hattach
      exact absurd back (open_ dependency hdependency)

end Graph

end PackageLock
