import PackageLock.Proofs.Graph.Rebuilding
import PackageLock.Proofs.Lock.Entries

/-!
# The graph of a lock, node by node

A graph that has been built of the entries of a lock has a node for each entry, in their order, and
behind these a placeholder for each package that is declared and has no entry, in the order in which they
are first declared (`nodes_of_ofPackages`). The edges are those of the entries. Main statement: what the
graph lists, and what it tells of the work on it, can be read off the lock (`ofPackages_mirrors`).
-/

set_option autoImplicit false

namespace PackageLock

/-- What entries declare and no entry is there for, each package as it is declared first. -/
def Lock.unmet (lock : Lock) : List Dependency :=
  (firstDeclared (lock.packages.flatMap (·.dependencies))).filter fun dependency =>
    !lock.contains dependency.package

/-- A dependency is unmet if a package declares it and no entry has it. -/
theorem Lock.exists_unmet_iff {lock : Lock} {id : String} :
    (∃ dependency ∈ lock.unmet, dependency.package = id) ↔
      lock.contains id = false ∧ ∃ package ∈ lock.packages, package.dependsOn id = true := by
  have declared : (∃ package ∈ lock.packages, package.dependsOn id = true) ↔
      ∃ dependency ∈ firstDeclared (lock.packages.flatMap (·.dependencies)),
        dependency.package = id := by
    rw [exists_firstDeclared]
    simp only [Package.dependsOn_iff, List.mem_flatMap]
    constructor
    · rintro ⟨package, hpackage, dependency, hdependency, hid⟩
      exact ⟨dependency, ⟨package, hpackage, hdependency⟩, hid⟩
    · rintro ⟨dependency, ⟨package, hpackage, hdependency⟩, hid⟩
      exact ⟨package, hpackage, dependency, hdependency, hid⟩
  rw [declared]
  simp only [Lock.unmet, List.mem_filter, Bool.not_eq_true']
  constructor
  · rintro ⟨dependency, ⟨hfirst, absent⟩, rfl⟩
    exact ⟨absent, dependency, hfirst, rfl⟩
  · rintro ⟨absent, dependency, hfirst, rfl⟩
    exact ⟨dependency, ⟨hfirst, absent⟩, rfl⟩

namespace Graph

variable {g : Graph} {packages : List Package} {lock : Lock}

/-! ## What has been built -/

/-- The graph of some entries comes of their nodes when all links are made. -/
theorem init_of_ofPackages (built : ofPackages packages = .ok g) :
    let made := (Construction.on (unlinked packages)).attachAll (linksOf packages)
    g = made.graph ∧
      Graph.init (packages.map Node.resolved) [Linker.declared] = (g, .ok made.created) := by
  intro made
  have nodup : ((packages.map Node.resolved).map Node.id).Nodup := by
    rw [map_id_resolved]
    exact (ofPackages_represents built).sources_nodup
  rw [ofPackages_eq] at built
  cases hinit : Build.init (packages.map Node.resolved) [Linker.declared] (.on .empty) with
  | error e after =>
    rw [hinit] at built
    cases built
  | ok _ after =>
    rw [hinit] at built
    cases built
    have hlinks : Build.linkEach (linksOf packages) (.on (unlinked packages)) = .ok () after := by
      rw [← hinit, init_eq_linkEach (answering_declared _) nodup, Build.linksBy_declared]
      rfl
    have hafter : after = made := Build.linkEach_eq_ok hlinks
    refine ⟨congrArg Construction.graph hafter, ?_⟩
    unfold Graph.init perform EStateM.run
    rw [hinit, ← hafter]

/-- The placeholders that the packages of a lock await are those of its unmet dependencies. -/
theorem awaited_unlinked (nodup : (lock.packages.map (·.source)).Nodup) :
    (unlinked lock.packages).awaited ((linksOf lock.packages).map (·.2)) =
      lock.unmet.map Node.placeholder := by
  have hlinks : (linksOf lock.packages).map (·.2) = lock.packages.flatMap (·.dependencies) := by
    simp [linksOf, List.map_flatMap, List.flatMap_map, Node.links, Node.dependencies]
  have indexed : (unlinked lock.packages).Indexed := (covers_unlinked_sources nodup).1.indexed
  have hcontains (id : String) : (unlinked lock.packages).contains id = lock.contains id := by
    rw [Bool.eq_iff_iff, indexed.contains_iff, ids_unlinked, Lock.contains_iff]
  simp only [awaited, hlinks, hcontains, Lock.unmet]

/-- Behind the entries stand placeholders for what they declare and none of them is. -/
theorem nodes_of_ofPackages (built : ofPackages lock.packages = .ok g) :
    g.nodes = lock.packages.map Node.resolved ++ lock.unmet.map Node.placeholder ∧
      Graph.init (lock.packages.map Node.resolved) [Linker.declared] =
        (g, .ok (lock.unmet.map Node.placeholder)) := by
  have nodup := (ofPackages_represents built).sources_nodup
  obtain ⟨hgraph, hinit⟩ := init_of_ofPackages built
  have hnodes := Construction.nodes_attachAll (.on (unlinked lock.packages)) (linksOf lock.packages)
  rw [Construction.created_attachAll, Construction.on, awaited_unlinked nodup] at hinit
  rw [← hgraph, Construction.on, awaited_unlinked nodup] at hnodes
  refine ⟨hnodes.trans ?_, hinit⟩
  simp [unlinked, empty]

/-- The graph of a lock has the edges of its packages, in their order. -/
theorem edges_of_ofPackages (built : ofPackages packages = .ok g) :
    g.edges = (packages.map Node.resolved).flatMap Node.edges := by
  have nodup : ((packages.map Node.resolved).map Node.id).Nodup := by
    rw [map_id_resolved]
    exact (ofPackages_represents built).sources_nodup
  have unlinkedEdges : (Construction.on (unlinked packages)).graph.edges = [] := by
    simp [Construction.on, unlinked, empty]
  rw [(init_of_ofPackages built).1, linksOf, Construction.edges_attachAll_links nodup, unlinkedEdges,
    List.nil_append]
  simp [unlinkedEdges]

/-! ## What it lists -/

/-- The graph of a lock mirrors the lock. Its nodes are the entries and, behind them, one placeholder for
each package that is declared and has no entry, in the order of the first declarations, which they carry;
these are the placeholders that it lists, in ascending order, and those that have been created on the way.
Each entry depends on what it declares, as it is declared first. What depends on a package are the
entries that declare it. -/
theorem ofPackages_mirrors (built : ofPackages lock.packages = .ok g) :
    let created := lock.unmet.map Node.placeholder
    g.nodes = lock.packages.map Node.resolved ++ created ∧ g.ids.Nodup ∧
    (∀ id, id ∈ created.map Node.id ↔
      lock.contains id = false ∧ ∃ package ∈ lock.packages, package.dependsOn id = true) ∧
    g.placeholders.Perm created ∧ g.placeholders.map Node.id = ascending (created.map Node.id) ∧
    Graph.init (lock.packages.map Node.resolved) [Linker.declared] = (g, .ok created) ∧
    (∀ package ∈ lock.packages, g.LinksAsDeclared (.resolved package)) ∧
    ∀ id, (g.dependentsOf id).map Node.id =
      ascending ((lock.dependentsOf id).map (·.source)) := by
  intro created
  have represents := ofPackages_represents built
  have h := represents.wellFormed
  obtain ⟨hnodes, hinit⟩ := nodes_of_ofPackages built
  have hplaceholders : g.nodes.filter Node.isPlaceholder = created := by
    rw [hnodes, List.filter_append]
    simp [created, List.filter_map, Node.isPlaceholder, Function.comp_def]
  refine ⟨hnodes, h.indexed.ids_nodup, fun id => ?_, ?_, ?_, hinit, fun package hpackage => ?_,
    fun id => ?_⟩
  · rw [← Lock.exists_unmet_iff]
    simp [created, Node.id]
  · rw [← hplaceholders]
    exact perm_sortNodes _
  · rw [map_id_placeholders h.indexed, hplaceholders]
  · refine h.linksAsDeclared fun e => ?_
    have nodup : ((lock.packages.map Node.resolved).map Node.id).Nodup := by
      rw [map_id_resolved]
      exact represents.sources_nodup
    rw [edges_of_ofPackages built]
    exact Node.mem_edges_iff nodup (List.mem_map_of_mem hpackage)
  · refine h.map_id_dependentsOf fun source => ?_
    rw [represents.arrow_iff, Lock.dependentsOf, List.mem_map]
    refine exists_congr fun package => ?_
    rw [List.mem_filter]
    tauto

/-- A package that comes after the one that declares it, and one without an entry that two of them
declare, the first of these twice. -/
theorem ofPackages_mirrors_of_repeated :
    let lock : Lock := ⟨1, [
      ⟨"a", "v1", [⟨"c", .provider, some ">=1"⟩, ⟨"b", .provider, none⟩, ⟨"c", .function, none⟩]⟩,
      ⟨"b", "v1", [⟨"d", .configuration, none⟩, ⟨"c", .provider, some "^2"⟩]⟩]⟩
    let created : List Node :=
      [.placeholder ⟨"c", .provider, some ">=1"⟩, .placeholder ⟨"d", .configuration, none⟩]
    ∃ g, ofPackages lock.packages = .ok g ∧ g.nodes = lock.packages.map Node.resolved ++ created ∧
      Graph.init (lock.packages.map Node.resolved) [Linker.declared] = (g, .ok created) ∧
      g.placeholders.map Node.id = ["c", "d"] ∧
      (g.dependenciesOf "a").map (·.target) = ["b", "c"] ∧
      (g.dependentsOf "c").map Node.id = ["a", "b"] := by
  intro lock created
  have accepted : (ofPackages lock.packages).isOk = true := by
    simp only [lock]
    cbv
  cases built : ofPackages lock.packages with
  | error e =>
    rw [built] at accepted
    cases accepted
  | ok g =>
    obtain ⟨hnodes, _, _, _, hplaceholders, hinit, links, dependents⟩ := ofPackages_mirrors built
    have hcreated : lock.unmet.map Node.placeholder = created := by decide
    rw [hcreated] at hnodes hplaceholders hinit
    refine ⟨g, rfl, hnodes, hinit, hplaceholders, ?_, ?_⟩
    · exact (links ⟨"a", "v1", _⟩ List.mem_cons_self).targets
    · exact dependents "c"

end Graph

end PackageLock
