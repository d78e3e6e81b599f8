import PackageLock.Proofs.Graph.Inputs
import PackageLock.Resolution.Plan

/-!
# The graph of a lock

A graph represents the entries of a lock if its installed nodes are the entries, its other nodes are the
packages that entries declare and that have none, and its arrows lead from each entry to what it
declares. Main statements: the graph built of some entries represents them (`represents_of_init`), and a
graph with one more package attached represents the entries with one more (`Represents.attach`). What
can be asked of a graph follows from what it represents, whichever way it has been built.
-/

set_option autoImplicit false

open Relation (ReflTransGen TransGen)

namespace PackageLock

/-- The entry for `source` declares a dependency on `target`. -/
def Declares (packages : List Package) (source target : String) : Prop :=
  ∃ package ∈ packages, package.source = source ∧ package.dependsOn target = true

/-- More entries declare no less. -/
theorem Declares.mono {few many : List Package} (h : few ⊆ many) {source target : String}
    (declares : Declares few source target) : Declares many source target := by
  obtain ⟨package, hmem, hends⟩ := declares
  exact ⟨package, h hmem, hends⟩

/-- A graph whose nodes and arrows are those of the entries of a lock. -/
structure Graph.Represents (g : Graph) (packages : List Package) : Prop where
  wellFormed : g.WellFormed
  sources_nodup : (packages.map (·.source)).Nodup
  resolved_mem_iff : ∀ package, .resolved package ∈ g.nodes ↔ package ∈ packages
  mem_ids_iff : ∀ id, id ∈ g.ids ↔
    id ∈ packages.map (·.source) ∨ ∃ package ∈ packages, package.dependsOn id = true
  arrow_iff : ∀ a b, g.Arrow a b ↔ Declares packages a b

/-! ## Links of packages -/

/-- A package depends on what it declares. -/
theorem Package.dependsOn_iff {package : Package} {id : String} :
    package.dependsOn id = true ↔ ∃ dependency ∈ package.dependencies, dependency.package = id := by
  simp [dependsOn]

/-- The node of a package has its source as identifier. -/
theorem map_id_resolved (packages : List Package) :
    (packages.map Node.resolved).map Node.id = packages.map (·.source) := by
  simp [Node.id, Function.comp_def]

/-- The links of installed packages, in their order. -/
def linksOf (packages : List Package) : List (String × Dependency) :=
  (packages.map Node.resolved).flatMap Node.links

/-- The links of installed packages go where they declare dependencies. -/
theorem exists_link_iff {packages : List Package} {a b : String} :
    (∃ link ∈ linksOf packages, link.1 = a ∧ link.2.package = b) ↔ Declares packages a b := by
  simp only [linksOf, Declares, List.mem_flatMap, List.mem_map, Package.dependsOn_iff]
  constructor
  · rintro ⟨link, ⟨_, ⟨package, hpackage, rfl⟩, hlink⟩, rfl, rfl⟩
    obtain ⟨hsource, hdependency⟩ := Node.mem_links.mp hlink
    exact ⟨package, hpackage, hsource.symm, link.2, hdependency, rfl⟩
  · rintro ⟨package, hpackage, rfl, dependency, hdependency, rfl⟩
    exact ⟨(package.source, dependency), ⟨.resolved package, ⟨package, hpackage, rfl⟩,
      Node.mem_links.mpr ⟨rfl, hdependency⟩⟩, rfl, rfl⟩

/-- Some installed package has a link to `id` if some package depends on it. -/
theorem exists_link_to_iff {packages : List Package} {id : String} :
    (∃ link ∈ linksOf packages, link.2.package = id) ↔
      ∃ package ∈ packages, package.dependsOn id = true := by
  have h (a : String) : (∃ link ∈ linksOf packages, link.1 = a ∧ link.2.package = id) ↔
      Declares packages a id := exists_link_iff
  constructor
  · rintro ⟨link, hlink, htarget⟩
    obtain ⟨package, hpackage, _, hdepends⟩ := (h link.1).mp ⟨link, hlink, rfl, htarget⟩
    exact ⟨package, hpackage, hdepends⟩
  · rintro ⟨package, hpackage, hdepends⟩
    obtain ⟨link, hlink, _, htarget⟩ := (h package.source).mpr ⟨package, hpackage, rfl, hdepends⟩
    exact ⟨link, hlink, htarget⟩

/-! ## Building the graph of entries -/

namespace Graph

variable {g : Graph} {packages : List Package}

/-- The nodes of some entries, before any link is made. -/
def unlinked (packages : List Package) : Graph :=
  empty.addNodes (packages.map Node.resolved)

/-- The graph of packages without edges has their sources as identifiers. -/
theorem ids_unlinked (packages : List Package) :
    (unlinked packages).ids = packages.map (·.source) := by
  simp [unlinked, ids, empty, Node.id, Function.comp_def]

/-- When all links are made, the arrows are the declarations of the entries. -/
theorem arrow_linked (packages : List Package) {a b : String} :
    ((Construction.on (unlinked packages)).attachAll (linksOf packages)).graph.Arrow a b ↔
      Declares packages a b := by
  rw [unlinked, arrow_attachAll_unlinked]
  exact exists_link_iff

/-- What is told of installed packages is what they declare. -/
theorem tells_declared_iff {packages : List Package} {a b : String} :
    Tells [Linker.declared] (packages.map Node.resolved) a b ↔ Declares packages a b := by
  rw [← joins_linksBy_iff, Build.linksBy_declared]
  exact exists_link_iff

/-- To build the graph of packages is to insert their nodes and then to make their links. -/
theorem init_eq_bind (packages : List Package) :
    Build.init (packages.map Node.resolved) [Linker.declared] =
      ((packages.map Node.resolved).forM Build.insert >>= fun _ => Build.linkEach (linksOf packages)) := by
  rw [Build.init_eq_bind (answering_declared _), Build.linksBy_declared]
  rfl

/-- Linking entries to what they declare, if it succeeds, makes a graph that represents them. -/
theorem represents_of_init {after : Construction}
    (h : Build.init (packages.map Node.resolved) [Linker.declared] (.on .empty) = .ok () after) :
    after.graph.Represents packages := by
  have hwell : after.graph.WellFormed :=
    (Build.init_endsIn (packages.map Node.resolved) [Linker.declared]).of_ok h
  -- all nodes have been inserted first, and then all links could be made
  rw [init_eq_bind] at h
  obtain ⟨middle, hinsert, hlink⟩ := Build.bind_eq_ok.mp h
  obtain ⟨hmiddle, hshape⟩ :=
    (Build.insertAll_endsIn (packages.map Node.resolved) empty_wellFormed).of_ok hinsert
  have hunlinked : middle = .on (unlinked packages) := hshape
  rw [hunlinked] at hmiddle hlink
  have hafter := Build.linkEach_eq_ok hlink
  refine ⟨hwell, ids_unlinked packages ▸ hmiddle.indexed.ids_nodup, ?_, ?_, ?_⟩
  · intro package
    rw [hafter, Construction.resolved_mem_attachAll]
    simp [Construction.on, unlinked, empty]
  · intro id
    rw [hafter, Construction.mem_ids_attachAll hmiddle.indexed, exists_link_to_iff, ← ids_unlinked]
    rfl
  · intro a b
    rw [hafter]
    exact arrow_linked packages

/-- What the service answers when a graph is built. -/
theorem service_init_eq (nodes : List Node) :
    service.init nodes =
      match Build.init nodes [Linker.declared] (.on .empty) with
      | .ok _ after => .ok ⟨(after.graph, after.created), [after.graph.builtEvent after.created]⟩
      | .error e _ => .error e := by
  show (do
      let created ← (perform .empty (Build.init nodes [Linker.declared])).2
      let g := (perform .empty (Build.init nodes [Linker.declared])).1
      return ⟨(g, created), [g.builtEvent created]⟩ :
        Except GraphError (Logged (Graph × List Node))) = _
  unfold perform EStateM.run
  cases Build.init nodes [Linker.declared] (.on .empty) with
  | ok _ after => rfl
  | error e after => rfl

/-- The graph that the service builds of some entries represents them. -/
theorem service_init_represents {built : Logged (Graph × List Node)}
    (h : service.init (packages.map Node.resolved) = .ok built) :
    built.value.1.Represents packages := by
  rw [service_init_eq] at h
  cases hrun : Build.init (packages.map Node.resolved) [Linker.declared] (.on .empty) with
  | error e after =>
    rw [hrun] at h
    cases h
  | ok _ after =>
    rw [hrun] at h
    cases h
    exact represents_of_init hrun

/-! ## Attaching a package -/

/-- The nodes of a graph in which a node has been put in its place. -/
theorem mem_nodes_place (indexed : g.Indexed) {node other : Node} :
    other ∈ (g.place node).nodes ↔ other ∈ g.nodes ∧ other.id ≠ node.id ∨ other = node := by
  unfold place
  by_cases present : g.contains node.id = true
  · rw [if_pos present]
    exact indexed.mem_nodes_replaceNode present
  · have hne (a : Node) (ha : a ∈ g.nodes) : a.id ≠ node.id := fun h =>
      present (indexed.contains_iff.mpr (mem_ids.mpr ⟨a, ha, h⟩))
    rw [if_neg present]
    simp only [dropEdges, addNode, List.mem_append, List.mem_singleton]
    constructor
    · rintro (h | h)
      · exact Or.inl ⟨h, hne other h⟩
      · exact Or.inr h
    · rintro (⟨h, _⟩ | h)
      · exact Or.inl h
      · exact Or.inr h

/-- The edges that left a node before are gone when it is placed. -/
theorem edges_place (g : Graph) (node : Node) :
    (g.place node).edges = g.edges.filter (·.source != node.id) := by
  unfold place
  split
  · simp only [dropEdges, edges_replaceNode]
  · rfl

/-- The arrows after a node is placed: those before that leave another one. -/
theorem arrow_place {node : Node} {a b : String} :
    (g.place node).Arrow a b ↔ g.Arrow a b ∧ a ≠ node.id := by
  unfold place
  split
  · rw [arrow_dropEdges, arrow_replaceNode]
  · rw [arrow_dropEdges, arrow_addNode]

/-- Whether the node has been added before makes no difference to the place that it gets. -/
theorem place_addNode {node : Node} (absent : ¬ g.contains node.id = true) :
    (g.addNode node).place node = g.place node := by
  unfold place
  rw [if_pos (contains_addNode g node), if_neg absent, replaceNode_addNode]

/-- The graph in which a node is put and linked to what it declares. -/
def settle (g : Graph) (node : Node) : Graph :=
  ((Construction.on (g.place node)).attachAll node.links).graph

/-- The arrows after a node is settled: those before that leave another one, and its own. -/
theorem arrow_settle {node : Node} {a b : String} :
    (g.settle node).Arrow a b ↔
      g.Arrow a b ∧ a ≠ node.id ∨
        a = node.id ∧ ∃ dependency ∈ node.dependencies, dependency.package = b := by
  rw [settle, Construction.arrow_attachAll]
  refine or_congr arrow_place ?_
  constructor
  · rintro ⟨link, hlink, rfl, rfl⟩
    obtain ⟨hsource, hdependency⟩ := Node.mem_links.mp hlink
    exact ⟨hsource, link.2, hdependency, rfl⟩
  · rintro ⟨rfl, dependency, hdependency, rfl⟩
    exact ⟨(node.id, dependency), Node.mem_links.mpr ⟨rfl, hdependency⟩, rfl, rfl⟩

/-- The identifiers after a node is settled: those before, its own, and what it declares. -/
theorem mem_ids_settle (h : g.WellFormed) {node : Node} {id : String} :
    id ∈ (g.settle node).ids ↔
      (id ∈ g.ids ∨ node.id = id) ∨ ∃ dependency ∈ node.dependencies, dependency.package = id := by
  rw [settle, Construction.mem_ids_attachAll (h.place node).indexed]
  refine or_congr (mem_ids_place h.indexed) ?_
  constructor
  · rintro ⟨link, hlink, rfl⟩
    exact ⟨link.2, (Node.mem_links.mp hlink).2, rfl⟩
  · rintro ⟨dependency, hdependency, rfl⟩
    exact ⟨(node.id, dependency), Node.mem_links.mpr ⟨rfl, hdependency⟩, rfl⟩

/-- The packages after one is settled: those before of other sources, and this one. -/
theorem resolved_mem_settle (indexed : g.Indexed) {package other : Package} :
    .resolved other ∈ (g.settle (.resolved package)).nodes ↔
      .resolved other ∈ g.nodes ∧ other.source ≠ package.source ∨ other = package := by
  rw [settle, Construction.resolved_mem_attachAll]
  have hplace : Node.resolved other ∈ (g.place (.resolved package)).nodes ↔
      Node.resolved other ∈ g.nodes ∧ other.source ≠ package.source ∨
        Node.resolved other = .resolved package := mem_nodes_place indexed
  simpa [Construction.on] using hplace

/-- A node that is put is settled. -/
theorem put_eq_ok {node : Node} {after : Construction}
    (h : Build.put node (.on g) = .ok () after) : after.graph = g.settle node := by
  rw [Build.put_eq_linkEach] at h
  rw [Build.linkEach_eq_ok h]
  rfl

/-- The service adds a node for what has none. -/
theorem service_addNode {node : Node} (absent : ¬ g.contains node.id = true) :
    service.addNode g node = .ok (g.addNode node) := by
  have hinsert : Build.insert node (.on g) = .ok () (.on (g.addNode node)) := if_neg absent
  have hadd : g.add node = (g.addNode node, .ok []) := by
    unfold add perform EStateM.run
    rw [hinsert]
    rfl
  show (do let _ ← (g.add node).2; return (g.add node).1 : Except GraphError Graph) = _
  rw [hadd]
  rfl

/-- What the service answers when one node is put. -/
theorem service_upsert_eq (g : Graph) (node : Node) :
    service.upsert g [node] =
      match Build.put node (.on g) with
      | .ok _ after => .ok ⟨after.graph, upsertEvents after.created⟩
      | .error e _ => .error e := by
  have hsingle : Build.upsert [node] = Build.put node := by
    simp only [Build.upsert, List.forM_eq_forM, List.forM_cons, List.forM_nil, bind_pure_unit]
  show (do
      let created ← (g.perform (Build.upsert [node])).2
      return ⟨(g.perform (Build.upsert [node])).1, upsertEvents created⟩ :
        Except GraphError (Logged Graph)) = _
  rw [hsingle]
  unfold perform EStateM.run
  cases Build.put node (.on g) with
  | ok _ after => rfl
  | error e after => rfl

/-- Attaching a package puts its node, whether or not it had one. -/
theorem attach_eq (g : Graph) (package : Package) :
    Plan.attach service g package =
      match Build.put (.resolved package) (.on g) with
      | .ok _ after => .ok ⟨after.graph, upsertEvents after.created⟩
      | .error e _ => .error e := by
  have hcontains : service.contains g package.source = g.contains (Node.resolved package).id := rfl
  unfold Plan.attach
  rw [hcontains]
  by_cases present : g.contains (Node.resolved package).id = true
  · rw [if_pos present, pure_bind]
    exact service_upsert_eq g (.resolved package)
  · have hput : Build.put (.resolved package) (.on (g.addNode (.resolved package))) =
        Build.put (.resolved package) (.on g) := by
      rw [Build.put_eq, Build.put_eq]
      simp only [Construction.modify, Construction.on, place_addNode present]
    rw [if_neg present, service_addNode present, ← hput]
    exact service_upsert_eq (g.addNode (.resolved package)) (.resolved package)

/-- A package is attached by putting its node in its place and making its links. -/
theorem attach_eq_linkEach (g : Graph) (package : Package) :
    Plan.attach service g package =
      match Build.linkEach (Node.resolved package).links (.on (g.place (.resolved package))) with
      | .ok _ after => .ok ⟨after.graph, upsertEvents after.created⟩
      | .error e _ => .error e := by
  rw [attach_eq, Build.put_eq_linkEach]
  rfl

/-- Attaching a package settles its node. -/
theorem attach_eq_ok {package : Package} {attached : Logged Graph} (hg : g.WellFormed)
    (h : Plan.attach service g package = .ok attached) :
    attached.value = g.settle (.resolved package) ∧ attached.value.WellFormed := by
  rw [attach_eq] at h
  cases hput : Build.put (.resolved package) (.on g) with
  | error e after =>
    rw [hput] at h
    cases h
  | ok _ after =>
    rw [hput] at h
    cases h
    exact ⟨put_eq_ok hput, (Build.put_endsIn (.resolved package) (c := .on g) hg).of_ok hput⟩

/-- A graph with a package attached represents one entry more. -/
theorem Represents.attach {package : Package} {attached : Logged Graph} (h : g.Represents packages)
    (fresh : package.source ∉ packages.map (·.source))
    (hattach : Plan.attach service g package = .ok attached) :
    attached.value.Represents (packages ++ [package]) := by
  obtain ⟨hgraph, hwell⟩ := attach_eq_ok h.wellFormed hattach
  -- the node of the package has been a placeholder at most: it takes no entry and no arrow away
  have hother {other : Package} (hmem : other ∈ packages) : other.source ≠ package.source := fun heq =>
    fresh (heq ▸ List.mem_map_of_mem hmem)
  rw [hgraph] at hwell ⊢
  refine ⟨hwell, ?_, ?_, ?_, ?_⟩
  · rw [List.map_append, List.nodup_append]
    refine ⟨h.sources_nodup, List.nodup_singleton _, ?_⟩
    intro a ha b hb hab
    have hsource : a = package.source := hab.trans (List.mem_singleton.mp hb)
    exact fresh (hsource ▸ ha)
  · intro other
    rw [resolved_mem_settle h.wellFormed.indexed, h.resolved_mem_iff, List.mem_append, List.mem_singleton]
    constructor
    · rintro (⟨hmem, _⟩ | heq)
      · exact Or.inl hmem
      · exact Or.inr heq
    · rintro (hmem | heq)
      · exact Or.inl ⟨hmem, hother hmem⟩
      · exact Or.inr heq
  · intro id
    rw [mem_ids_settle h.wellFormed, h.mem_ids_iff]
    simp only [Node.id, Node.dependencies, ← Package.dependsOn_iff, List.map_append, List.map_cons,
      List.map_nil, List.mem_append, List.mem_singleton, or_and_right, exists_or, exists_eq_left]
    rw [eq_comm (a := package.source), or_assoc, or_or_or_comm]
  · intro a b
    rw [arrow_settle, h.arrow_iff]
    simp only [Declares, Node.id, Node.dependencies, ← Package.dependsOn_iff, List.mem_append,
      List.mem_singleton, or_and_right, exists_or, exists_eq_left]
    constructor
    · rintro (⟨hdeclares, _⟩ | ⟨rfl, hdepends⟩)
      · exact Or.inl hdeclares
      · exact Or.inr ⟨rfl, hdepends⟩
    · rintro (⟨other, hmem, rfl, hdepends⟩ | ⟨rfl, hdepends⟩)
      · exact Or.inl ⟨⟨other, hmem, rfl, hdepends⟩, hother hmem⟩
      · exact Or.inr ⟨rfl, hdepends⟩

end Graph

end PackageLock
