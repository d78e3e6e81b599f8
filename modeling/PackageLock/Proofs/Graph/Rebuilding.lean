import PackageLock.Proofs.Graph.Acceptance
import PackageLock.Proofs.Graph.Declarations
import PackageLock.Proofs.Graph.Lookups

/-!
# One package more, or the graph anew

A package that is attached to the graph of some entries comes in late: its node may have been a
placeholder, and it stands where that one stood. In a graph built anew with the package as the last entry
its node is there before any link is made. Both ways the same links are tested on the same edges
(`linkEach_agree`), and each identifier gets the node of an entry or else the first dependency that names
it (`find?_attachAll`). Main statement: both graphs have the same nodes and edges, or both ways the
package is refused with the same cycle (`attach_agrees`).
-/

set_option autoImplicit false

open Relation (ReflTransGen TransGen)

namespace PackageLock

/-! ## The tests of links -/

namespace Build

variable {c c' : Construction} {ids ids' : List String}

/-- On the same edges the same links are made, or the same one is refused. -/
theorem linkEach_agree {links : List (String × Dependency)} (h : c.Covers ids) (h' : c'.Covers ids')
    (edges : c.graph.edges = c'.graph.edges) (sources : ∀ link ∈ links, link.1 ∈ ids)
    (sources' : ∀ link ∈ links, link.1 ∈ ids') :
    (linkEach links c = .ok () (c.attachAll links) ∧ (c.attachAll links).Covers ids) ∧
        linkEach links c' = .ok () (c'.attachAll links) ∧ (c'.attachAll links).Covers ids' ∨
      ∃ source target left left', linkEach links c = .error (.cycle source target) left ∧
        linkEach links c' = .error (.cycle source target) left' := by
  classical
  induction links generalizing c c' with
  | nil => exact Or.inl ⟨⟨rfl, h⟩, rfl, h'⟩
  | cons link links ih =>
    have harrow : c'.graph.Arrow = c.graph.Arrow := by
      funext a b
      simp only [Graph.Arrow, edges]
    have hlink := link_eq_of_wellFormed h.1 link.1 link.2
    have hlink' := link_eq_of_wellFormed h'.1 link.1 link.2
    rw [harrow] at hlink'
    by_cases path : ReflTransGen c.graph.Arrow link.2.package link.1
    · rw [if_pos path] at hlink hlink'
      refine Or.inr ⟨link.1, link.2.package, c.ensure link.2, c'.ensure link.2, ?_, ?_⟩
      · rw [linkEach_cons, hlink]
      · rw [linkEach_cons, hlink']
    · rw [if_neg path] at hlink hlink'
      have hmem : link.1 ∈ ids := sources link List.mem_cons_self
      have hmem' : link.1 ∈ ids' := sources' link List.mem_cons_self
      rw [linkEach_cons, hlink, linkEach_cons, hlink']
      apply ih (h.attach hmem path) (h'.attach hmem' (harrow ▸ path))
      · exact Construction.edges_attachAll_congr edges [link]
      · exact fun other hother => sources other (List.mem_cons_of_mem link hother)
      · exact fun other hother => sources' other (List.mem_cons_of_mem link hother)

end Build

/-! ## Attaching and rebuilding -/

namespace Graph

variable {g g' : Graph} {packages : List Package} {package : Package}

/-- The same nodes, in whatever order they have come in, found under the same identifiers, and the same
edges. -/
structure Same (g g' : Graph) : Prop where
  nodes : g.nodes.Perm g'.nodes
  found : ∀ id, g.find? id = g'.find? id
  edges : g.edges = g'.edges

/-- Two graphs are the same if they find the same nodes and have the same edges. -/
theorem same_of_find?_eq (h : g.Indexed) (h' : g'.Indexed) (found : ∀ id, g.find? id = g'.find? id)
    (edges : g.edges = g'.edges) : g.Same g' := by
  have nodup : g.nodes.Nodup := List.Nodup.of_map Node.id h.ids_nodup
  have nodup' : g'.nodes.Nodup := List.Nodup.of_map Node.id h'.ids_nodup
  refine ⟨(List.perm_ext_iff_of_nodup nodup nodup').mpr fun node => ?_, found, edges⟩
  have hmem : node ∈ g.nodes ↔ g.find? node.id = some node := by simp [h.find?_eq_some_iff]
  have hmem' : node ∈ g'.nodes ↔ g'.find? node.id = some node := by simp [h'.find?_eq_some_iff]
  rw [hmem, hmem', found]

/-- The graph of packages, as the work that builds it ends. -/
theorem ofPackages_eq (packages : List Package) :
    ofPackages packages =
      match Build.init (packages.map Node.resolved) [Linker.declared] (.on .empty) with
      | .ok _ after => .ok after.graph
      | .error e _ => .error e := by
  unfold ofPackages Graph.init perform EStateM.run
  cases Build.init (packages.map Node.resolved) [Linker.declared] (.on .empty) with
  | ok _ after => rfl
  | error e after => rfl

/-- A graph that is built of packages represents them. -/
theorem ofPackages_represents (built : ofPackages packages = .ok g) : g.Represents packages := by
  rw [ofPackages_eq] at built
  cases hinit : Build.init (packages.map Node.resolved) [Linker.declared] (.on .empty) with
  | ok _ after =>
    rw [hinit] at built
    cases built
    exact represents_of_init hinit
  | error e after =>
    rw [hinit] at built
    cases built

/-- Entries of different sources are put in as nodes, and then it is left to make their links. -/
theorem ofPackages_eq_linkEach (nodup : (packages.map (·.source)).Nodup) :
    ofPackages packages =
      match Build.linkEach (linksOf packages) (.on (unlinked packages)) with
      | .ok _ after => .ok after.graph
      | .error e _ => .error e := by
  have nodup' : ((packages.map Node.resolved).map Node.id).Nodup := by
    rwa [map_id_resolved]
  rw [ofPackages_eq, init_eq_linkEach (answering_declared _) nodup', Build.linksBy_declared]
  rfl

/-- The graph of packages without edges covers their sources. -/
theorem covers_unlinked_sources (nodup : (packages.map (·.source)).Nodup) :
    (Construction.on (unlinked packages)).Covers (packages.map (·.source)) := by
  rw [← map_id_resolved] at nodup ⊢
  exact covers_unlinked nodup

/-- The node of a further package comes last. -/
theorem unlinked_append (packages : List Package) (package : Package) :
    unlinked (packages ++ [package]) = (unlinked packages).addNode (.resolved package) := by
  simp [unlinked, addNodes, List.foldl_append]

/-- The links of a further package come last. -/
theorem linksOf_append (packages : List Package) (package : Package) :
    linksOf (packages ++ [package]) = linksOf packages ++ (Node.resolved package).links := by
  simp [linksOf]

/-- The links of packages leave the packages. -/
theorem source_mem_of_mem_linksOf {link : String × Dependency} (hlink : link ∈ linksOf packages) :
    link.1 ∈ packages.map (·.source) := by
  obtain ⟨package, hpackage, hsource, _⟩ := exists_link_iff.mp ⟨link, hlink, rfl, rfl⟩
  exact hsource ▸ List.mem_map_of_mem hpackage

/-- No edge leaves a package that has no entry yet, so putting its node takes no edge away. -/
theorem Represents.edges_place (h : g.Represents packages)
    (fresh : package.source ∉ packages.map (·.source)) :
    (g.place (.resolved package)).edges = g.edges := by
  rw [Graph.edges_place]
  apply List.filter_eq_self.mpr
  intro e he
  obtain ⟨other, hother, hsource, _⟩ := (h.arrow_iff e.source e.target).mp ⟨e, he, rfl, rfl⟩
  have hne : e.source ≠ package.source := fun same =>
    fresh (same ▸ hsource ▸ List.mem_map_of_mem hother)
  exact bne_iff_ne.mpr hne

/-- The nodes come to the same, whether the node of the package is put in its place after the links of
the entries or is there before them. -/
theorem find?_attachAll_agree (nodup : (packages.map (·.source)).Nodup)
    (fresh : package.source ∉ packages.map (·.source))
    (wellFormed : ((Construction.on (unlinked packages)).attachAll (linksOf packages)).graph.WellFormed)
    (links : List (String × Dependency)) (id : String) :
    ((Construction.on
        (((Construction.on (unlinked packages)).attachAll (linksOf packages)).graph.place
          (.resolved package))).attachAll links).graph.find? id =
      ((Construction.on (unlinked (packages ++ [package]))).attachAll
        (linksOf packages ++ links)).graph.find? id := by
  have indexed : (unlinked packages).Indexed := (covers_unlinked_sources nodup).1.indexed
  have absent : (Node.resolved package).id ∉ (unlinked packages).ids := by
    rw [ids_unlinked]
    exact fresh
  have hentries := Construction.find?_attachAll (c := .on (unlinked packages)) indexed
    (linksOf packages) id
  have hplace := wellFormed.indexed.find?_place (.resolved package) id
  have hlate := Construction.find?_attachAll (c := .on (unlinked (packages ++ [package])))
    (unlinked_append packages package ▸ indexed.addNode absent) (linksOf packages ++ links) id
  have hnode : (Construction.on (unlinked (packages ++ [package]))).graph.find? id =
      if package.source = id then some (.resolved package) else (unlinked packages).find? id := by
    rw [unlinked_append]
    exact indexed.find?_addNode absent id
  rw [Construction.find?_attachAll (wellFormed.place _).indexed, hlate, hnode, placeholderFor_append,
    ← Option.or_assoc]
  refine congrArg (Option.or · (placeholderFor links id)) (hplace.trans ?_)
  rw [hentries]
  by_cases same : package.source = id
  · simp [Node.id, same]
  · simp [Node.id, same, Construction.on]

/-- Attaching a package to the graph of entries, and building the graph of the entries with the package
behind them, leave the same nodes and edges, or both of them fail with the same cycle. -/
theorem attach_agrees (built : ofPackages packages = .ok g)
    (fresh : package.source ∉ packages.map (·.source)) :
    (∃ attached rebuilt, Plan.attach service g package = .ok attached ∧
        ofPackages (packages ++ [package]) = .ok rebuilt ∧ attached.value.Same rebuilt) ∨
      ∃ source target, Plan.attach service g package = .error (.cycle source target) ∧
        ofPackages (packages ++ [package]) = .error (.cycle source target) := by
  have represents := ofPackages_represents built
  have nodup := represents.sources_nodup
  have nodup' : ((packages ++ [package]).map (·.source)).Nodup := by
    rw [List.map_append, List.map_singleton]
    exact List.Nodup.append nodup (List.nodup_singleton _) (by simpa using fresh)
  let base := Construction.on (unlinked packages)
  let late := Construction.on (unlinked (packages ++ [package]))
  have hbase : base.Covers (packages.map (·.source)) := covers_unlinked_sources nodup
  have hlate : late.Covers ((packages ++ [package]).map (·.source)) := covers_unlinked_sources nodup'
  have hsources (link : String × Dependency) (hlink : link ∈ linksOf packages) :
      link.1 ∈ packages.map (·.source) := source_mem_of_mem_linksOf hlink
  have hsources' (link : String × Dependency) (hlink : link ∈ linksOf packages) :
      link.1 ∈ (packages ++ [package]).map (·.source) := by
    rw [List.map_append]
    exact List.mem_append_left _ (hsources link hlink)
  have hlinks (link : String × Dependency) (hlink : link ∈ (Node.resolved package).links) :
      link.1 = package.source := (Node.mem_links.mp hlink).1
  -- the links of the entries could be made without the node of the package, and it does not hinder them
  have unlinkedEdges : base.graph.edges = late.graph.edges := by
    simp [base, late, Construction.on, unlinked]
  rcases Build.linkEach_agree hbase hlate unlinkedEdges hsources hsources' with
    ⟨⟨hmade, hcovers⟩, hmade', hcovers'⟩ | ⟨_, _, _, _, herror, _⟩
  · rw [ofPackages_eq_linkEach nodup, hmade] at built
    cases built
    have placed : (Construction.on ((base.attachAll (linksOf packages)).graph.place
        (.resolved package))).Covers [package.source] :=
      hcovers.1.covers_place (.resolved package) []
    have edges := (represents.edges_place fresh).trans
      (Construction.edges_attachAll_congr unlinkedEdges (linksOf packages))
    have tested : ∀ link ∈ (Node.resolved package).links, link.1 ∈ [package.source] :=
      fun link hlink => List.mem_singleton.mpr (hlinks link hlink)
    have tested' : ∀ link ∈ (Node.resolved package).links,
        link.1 ∈ (packages ++ [package]).map (·.source) :=
      fun link hlink => by simp [hlinks link hlink]
    rw [attach_eq_linkEach, ofPackages_eq_linkEach nodup', linksOf_append, Build.linkEach_append,
      Build.bind_of_ok hmade']
    -- so the links of the package are tested on the same edges both ways
    rcases Build.linkEach_agree placed hcovers' edges tested tested' with
      ⟨⟨hput, hattached⟩, hput', hrebuilt⟩ | ⟨source, target, left, left', herror, herror'⟩
    · rw [hput, hput']
      refine Or.inl ⟨_, _, rfl, rfl, ?_⟩
      apply same_of_find?_eq hattached.1.indexed hrebuilt.1.indexed
      · intro id
        rw [← Construction.attachAll_append]
        exact find?_attachAll_agree nodup fresh hcovers.1 (Node.resolved package).links id
      · exact Construction.edges_attachAll_congr edges _
    · rw [herror, herror']
      exact Or.inr ⟨source, target, rfl, rfl⟩
  · rw [ofPackages_eq_linkEach nodup, herror] at built
    cases built

/-- A package takes the place of its placeholder and needs another one itself. -/
theorem attach_agrees_of_placeholder :
    let packages : List Package :=
      [⟨"a", "v1", [⟨"b", .provider, some ">=1"⟩, ⟨"c", .function, none⟩]⟩]
    let package : Package := ⟨"b", "v1", [⟨"c", .provider, some "^2"⟩, ⟨"d", .provider, none⟩]⟩
    ∃ g attached rebuilt, ofPackages packages = .ok g ∧ package.source ∉ packages.map (·.source) ∧
      Plan.attach service g package = .ok attached ∧
      ofPackages (packages ++ [package]) = .ok rebuilt ∧ attached.value.Same rebuilt := by
  intro packages package
  have accepted : (ofPackages packages).isOk = true ∧
      (ofPackages (packages ++ [package])).isOk = true := by
    constructor <;> cbv
  have fresh : package.source ∉ packages.map (·.source) := by decide
  cases built : ofPackages packages with
  | error e =>
    rw [built] at accepted
    cases accepted.1
  | ok g =>
    rcases attach_agrees built fresh with
      ⟨attached, rebuilt, hattach, hrebuild, same⟩ | ⟨_, _, _, refused⟩
    · exact ⟨g, attached, rebuilt, rfl, fresh, hattach, hrebuild, same⟩
    · rw [refused] at accepted
      cases accepted.2

end Graph

end PackageLock
