import Mathlib
import PackageLock.Proofs.Graph.WellFormed

/-!
# Building keeps graphs well-formed

Work on a graph ends well or is refused, and in both cases something is known of the graph that it
leaves. `EndsIn` states both; it is established step by step, as a postcondition is. Main statements:
all work that builds or changes a graph leaves a well-formed one, however it ends
(`init_endsIn`, `insert_endsIn`, `upsert_endsIn`).

Mathlib is imported whole here, before all modules that evaluate work on graphs: these then share the equations
of the definitions that they unfold, instead of each deriving its own.
-/

set_option autoImplicit false

open Relation (ReflTransGen TransGen)

namespace PackageLock

/-! ## Links -/

/-- The links of a node: itself with each dependency that it declares. -/
def Node.links (node : Node) : List (String × Dependency) :=
  node.dependencies.map fun dependency => (node.id, dependency)

/-- The links of a node lead from it to what it declares. -/
theorem Node.mem_links {node : Node} {link : String × Dependency} :
    link ∈ node.links ↔ link.1 = node.id ∧ link.2 ∈ node.dependencies := by
  rcases link with ⟨source, dependency⟩
  simp only [links, List.mem_map, Prod.mk.injEq]
  constructor
  · rintro ⟨_, h, rfl, rfl⟩
    exact ⟨rfl, h⟩
  · rintro ⟨rfl, h⟩
    exact ⟨dependency, h, rfl, rfl⟩

namespace Construction

/-- The graph is well-formed and has nodes for all of `ids`. -/
def Covers (ids : List String) (c : Construction) : Prop :=
  c.graph.WellFormed ∧ ∀ id ∈ ids, id ∈ c.graph.ids

/-- The construction with one link more, whether or not it closes a cycle. -/
def attach (c : Construction) (link : String × Dependency) : Construction :=
  (c.ensure link.2).modify (·.addEdge link.1 link.2)

/-- The construction with more links, one after the other. -/
def attachAll (c : Construction) (links : List (String × Dependency)) : Construction :=
  links.foldl attach c

variable {c : Construction}

/-- Afterwards the dependency has a node, and otherwise the same identifiers have one as before. -/
theorem mem_ids_ensure (indexed : c.graph.Indexed) {dependency : Dependency} {id : String} :
    id ∈ (c.ensure dependency).graph.ids ↔ id ∈ c.graph.ids ∨ dependency.package = id := by
  unfold ensure
  split
  · rename_i present
    constructor
    · exact Or.inl
    · rintro (h | rfl)
      · exact h
      · exact indexed.contains_iff.mp present
  · simp [Node.id, eq_comm]

/-- The index stays right when a dependency gets its node. -/
theorem indexed_ensure (indexed : c.graph.Indexed) (dependency : Dependency) :
    (c.ensure dependency).graph.Indexed := by
  unfold ensure
  split
  · exact indexed
  · rename_i absent
    exact indexed.addNode fun hmem => absent (indexed.contains_iff.mpr hmem)

/-- The index stays right when a link is attached. -/
theorem indexed_attach (indexed : c.graph.Indexed) (link : String × Dependency) :
    (c.attach link).graph.Indexed :=
  (indexed_ensure indexed link.2).congr (Graph.nodes_addEdge _ _ _) (Graph.index_addEdge _ _ _)

/-- The index stays right when links are attached. -/
theorem indexed_attachAll (indexed : c.graph.Indexed) (links : List (String × Dependency)) :
    (c.attachAll links).graph.Indexed := by
  induction links generalizing c with
  | nil => exact indexed
  | cons link links ih => exact ih (indexed_attach indexed link)

/-- A placeholder adds no arrow. -/
@[simp] theorem arrow_ensure {dependency : Dependency} {a b : String} :
    (c.ensure dependency).graph.Arrow a b ↔ c.graph.Arrow a b := by
  unfold ensure
  split
  · exact Iff.rfl
  · exact Graph.arrow_addNode

/-- Making sure of a node adds no installed package. -/
theorem resolved_mem_ensure {dependency : Dependency} {package : Package} :
    .resolved package ∈ (c.ensure dependency).graph.nodes ↔ .resolved package ∈ c.graph.nodes := by
  unfold ensure
  split
  · exact Iff.rfl
  · simp [Graph.addNode]

/-- What is covered stays covered when a dependency gets its node. -/
theorem Covers.ensure {ids : List String} (h : c.Covers ids) (dependency : Dependency) :
    (c.ensure dependency).Covers ids := by
  refine ⟨?_, fun id hid => (mem_ids_ensure h.1.indexed).mpr (Or.inl (h.2 id hid))⟩
  unfold Construction.ensure
  split
  · exact h.1
  · rename_i absent
    exact h.1.addNode fun hmem => absent (h.1.indexed.contains_iff.mpr hmem)

/-- A link whose target does not lead to its source may be attached. -/
theorem Covers.attach {ids : List String} (h : c.Covers ids) {link : String × Dependency}
    (hsource : link.1 ∈ ids) (noReturn : ¬ ReflTransGen c.graph.Arrow link.2.package link.1) :
    (c.attach link).Covers ids := by
  have hensure := h.ensure link.2
  have htarget : link.2.package ∈ (c.ensure link.2).graph.ids :=
    (mem_ids_ensure h.1.indexed).mpr (Or.inr rfl)
  have hopen : ¬ ReflTransGen (c.ensure link.2).graph.Arrow link.2.package link.1 := fun path =>
    noReturn (ReflTransGen.mono (fun _ _ => arrow_ensure.mp) _ _ path)
  refine ⟨hensure.1.addEdge (hensure.2 _ hsource) htarget hopen, fun id hid => ?_⟩
  simpa [Construction.attach, modify] using hensure.2 id hid

/-- The identifiers after links are attached: those before, and the targets of the links. -/
theorem mem_ids_attachAll (indexed : c.graph.Indexed) {links : List (String × Dependency)}
    {id : String} :
    id ∈ (c.attachAll links).graph.ids ↔
      id ∈ c.graph.ids ∨ ∃ link ∈ links, link.2.package = id := by
  induction links generalizing c with
  | nil => simp [attachAll]
  | cons link links ih =>
    have hstep : id ∈ (c.attach link).graph.ids ↔ id ∈ c.graph.ids ∨ link.2.package = id := by
      simp only [attach, modify, Graph.ids_addEdge, mem_ids_ensure indexed]
    have hrest := ih (indexed_attach indexed link)
    rw [hstep, or_assoc] at hrest
    simpa [attachAll] using hrest

/-- The arrows after links are attached: those before, and the links. -/
theorem arrow_attachAll {links : List (String × Dependency)} {a b : String} :
    (c.attachAll links).graph.Arrow a b ↔
      c.graph.Arrow a b ∨ ∃ link ∈ links, link.1 = a ∧ link.2.package = b := by
  induction links generalizing c with
  | nil => simp [attachAll]
  | cons link links ih =>
    have hstep : (c.attach link).graph.Arrow a b ↔
        c.graph.Arrow a b ∨ link.1 = a ∧ link.2.package = b := by
      simp only [attach, modify, Graph.arrow_addEdge, arrow_ensure, eq_comm]
    have hrest := ih (c := c.attach link)
    rw [hstep, or_assoc] at hrest
    simpa [attachAll] using hrest

/-- Links add no installed package. -/
theorem resolved_mem_attachAll {links : List (String × Dependency)} {package : Package} :
    .resolved package ∈ (c.attachAll links).graph.nodes ↔ .resolved package ∈ c.graph.nodes := by
  induction links generalizing c with
  | nil => simp [attachAll]
  | cons link links ih =>
    have hstep : .resolved package ∈ (c.attach link).graph.nodes ↔
        .resolved package ∈ c.graph.nodes := by
      simp only [attach, modify, Graph.nodes_addEdge, resolved_mem_ensure]
    have hrest := ih (c := c.attach link)
    rw [hstep] at hrest
    simpa [attachAll] using hrest

end Construction

namespace Graph

variable {g : Graph}

/-- The graph with `node` in the place of the node of the same identifier, or as a node more, and without
the edges that left it. -/
def place (g : Graph) (node : Node) : Graph :=
  (if g.contains node.id then g.replaceNode node else g.addNode node).dropEdges node.id

/-- The identifiers after a node is placed: those before, and its own. -/
theorem mem_ids_place (indexed : g.Indexed) {node : Node} {id : String} :
    id ∈ (g.place node).ids ↔ id ∈ g.ids ∨ node.id = id := by
  unfold place
  split
  · rename_i present
    rw [ids_dropEdges, indexed.ids_replaceNode]
    constructor
    · exact Or.inl
    · rintro (h | rfl)
      · exact h
      · exact indexed.contains_iff.mp present
  · simp [eq_comm]

/-- A graph stays well formed when a node is placed: the edges that left it before are gone. -/
theorem WellFormed.place (h : g.WellFormed) (node : Node) : (g.place node).WellFormed := by
  unfold Graph.place
  split
  · exact (h.replaceNode node).dropEdges node.id
  · rename_i absent
    exact (h.addNode fun hmem => absent (h.indexed.contains_iff.mpr hmem)).dropEdges node.id

/-- A node that is put in its place is there. -/
theorem WellFormed.covers_place (h : g.WellFormed) (node : Node) (created : List Node) :
    (Construction.mk (g.place node) created).Covers [node.id] := by
  refine ⟨h.place node, fun id hid => ?_⟩
  exact (mem_ids_place h.indexed).mpr (Or.inr (List.mem_singleton.mp hid).symm)

/-- The graph with more nodes, one after the other. -/
def addNodes (g : Graph) (nodes : List Node) : Graph :=
  nodes.foldl addNode g

/-- The nodes that are added come after the others. -/
@[simp] theorem nodes_addNodes (g : Graph) (nodes : List Node) :
    (g.addNodes nodes).nodes = g.nodes ++ nodes := by
  induction nodes generalizing g with
  | nil => simp [addNodes]
  | cons node nodes ih =>
    have hrest : (g.addNodes (node :: nodes)).nodes = ((g.addNode node).addNodes nodes).nodes := rfl
    rw [hrest, ih]
    simp [addNode]

/-- Nodes are added without edges. -/
@[simp] theorem edges_addNodes (g : Graph) (nodes : List Node) :
    (g.addNodes nodes).edges = g.edges := by
  induction nodes generalizing g with
  | nil => rfl
  | cons node nodes ih => exact ih (g.addNode node)

end Graph

namespace Build

/-! ## How work ends -/

/-- Work that begins with `c` and ends well leaves a construction as in `good`, and work that is refused
leaves one as in `refused`. -/
def EndsIn (work : Build Unit) (c : Construction) (good : Construction → Prop)
    (refused : GraphError → Construction → Prop) : Prop :=
  match work c with
  | .ok _ after => good after
  | .error e after => refused e after

variable {good good' : Construction → Prop} {refused refused' : GraphError → Construction → Prop}
  {c : Construction}

/-- What is known of work that ends well is known of the construction that it leaves. -/
theorem EndsIn.of_ok {work : Build Unit} {after : Construction} (h : work.EndsIn c good refused)
    (run : work c = .ok () after) : good after := by
  unfold EndsIn at h
  rwa [run] at h

/-- Work in two parts is told by the second part, after whatever the first may leave. -/
theorem EndsIn.bind {first second : Build Unit}
    (h : first.EndsIn c (fun after => second.EndsIn after good refused) refused) :
    (first >>= fun _ => second).EndsIn c good refused := by
  unfold EndsIn at h ⊢
  show match EStateM.bind first (fun _ => second) c with
    | .ok _ after => good after
    | .error e after => refused e after
  unfold EStateM.bind
  cases hfirst : first c with
  | ok _ after => simpa [hfirst] using h
  | error e after => simpa [hfirst] using h

/-- What is known of the ending of some work may be weakened. -/
theorem EndsIn.mono {work : Build Unit} (h : work.EndsIn c good refused)
    (hgood : ∀ after, good after → good' after)
    (hrefused : ∀ e after, refused e after → refused' e after) : work.EndsIn c good' refused' := by
  unfold EndsIn at h ⊢
  cases hwork : work c with
  | ok _ after => exact hgood after (by simpa [hwork] using h)
  | error e after => exact hrefused e after (by simpa [hwork] using h)

/-- First one work, then, if it ends well, the other. -/
theorem EndsIn.andThen {first second : Build Unit} (h : first.EndsIn c good refused)
    (next : ∀ after, good after → second.EndsIn after good' refused) :
    (first >>= fun _ => second).EndsIn c good' refused :=
  EndsIn.bind (h.mono next fun _ _ => id)

/-- Two things that are known of how work ends are known together. -/
theorem EndsIn.and {work : Build Unit} (h : work.EndsIn c good refused)
    (h' : work.EndsIn c good' refused') :
    work.EndsIn c (fun after => good after ∧ good' after)
      fun e after => refused e after ∧ refused' e after := by
  unfold EndsIn at h h' ⊢
  cases hwork : work c with
  | ok _ after => exact ⟨by simpa [hwork] using h, by simpa [hwork] using h'⟩
  | error e after => exact ⟨by simpa [hwork] using h, by simpa [hwork] using h'⟩

/-- Work done for each of a list keeps what every step of it keeps. -/
theorem EndsIn.forM {α : Type} {f : α → Build Unit} {l : List α}
    (step : ∀ a ∈ l, ∀ c, good c → (f a).EndsIn c good refused) (h : good c) :
    (l.forM f).EndsIn c good refused := by
  induction l generalizing c with
  | nil => exact h
  | cons a l ih =>
    refine (step a List.mem_cons_self c h).andThen fun after hafter => ?_
    exact ih (fun b hb => step b (List.mem_cons_of_mem a hb)) hafter

/-! ## Every ending is well-formed -/

/-- A link that passes the test is attached; one that does not has done no more than to make sure of
its target. -/
theorem link_eq (source : String) (dependency : Dependency) (c : Construction) :
    link source dependency c =
      if source = dependency.package ∨
          (c.ensure dependency).graph.reaches dependency.package source = true then
        .error (.cycle source dependency.package) (c.ensure dependency)
      else .ok () (c.attach (source, dependency)) := by
  simp only [link, Construction.attach, Bool.or_eq_true, decide_eq_true_eq]

/-- The test of a link asks whether its target leads to its source. -/
theorem link_eq_of_wellFormed (h : c.graph.WellFormed) (source : String) (dependency : Dependency)
    [Decidable (ReflTransGen c.graph.Arrow dependency.package source)] :
    link source dependency c =
      if ReflTransGen c.graph.Arrow dependency.package source then
        .error (.cycle source dependency.package) (c.ensure dependency)
      else .ok () (c.attach (source, dependency)) := by
  have hcovers : c.Covers [] := ⟨h, by simp⟩
  have hensure := (hcovers.ensure dependency).1
  have htarget : dependency.package ∈ (c.ensure dependency).graph.ids :=
    (Construction.mem_ids_ensure h.indexed).mpr (Or.inr rfl)
  have harrows : (c.ensure dependency).graph.Arrow = c.graph.Arrow := by
    funext a b
    exact propext Construction.arrow_ensure
  -- a placeholder that has just been made has no arrows, so the test sees those of the old graph
  have htest : (source = dependency.package ∨
      (c.ensure dependency).graph.reaches dependency.package source = true) ↔
        ReflTransGen c.graph.Arrow dependency.package source := by
    rw [Graph.reaches_iff hensure.closed, harrows]
    constructor
    · rintro (rfl | ⟨_, path⟩)
      · exact ReflTransGen.refl
      · exact path
    · exact fun path => Or.inr ⟨htarget, path⟩
  rw [link_eq]
  exact if_congr htest rfl rfl

/-- A link of a covered source leaves the graph covering, whether or not it is refused. -/
theorem link_endsIn {ids : List String} {source : String} (hsource : source ∈ ids)
    (dependency : Dependency) (h : c.Covers ids) :
    (link source dependency).EndsIn c (Construction.Covers ids) fun _ => Construction.Covers ids := by
  classical
  unfold EndsIn
  rw [link_eq_of_wellFormed h.1]
  by_cases path : ReflTransGen c.graph.Arrow dependency.package source
  · rw [if_pos path]
    exact h.ensure dependency
  · rw [if_neg path]
    exact h.attach hsource path

/-- Links from one node keep what each of them keeps. -/
theorem linkAll_endsIn {kept : Construction → Prop} {source : String}
    (step : ∀ dependency c, kept c → (link source dependency).EndsIn c kept fun _ => kept)
    (dependencies : List Dependency) (h : kept c) :
    (linkAll source dependencies).EndsIn c kept fun _ => kept :=
  EndsIn.forM (fun dependency _ c h => step dependency c h) h

/-- What every link of a node preserves, all links that a linker gives it preserve. -/
theorem linkBy_endsIn {kept : Construction → Prop} {node : Node}
    (step : ∀ dependency c, kept c → (link node.id dependency).EndsIn c kept fun _ => kept)
    (position : Nat) (linker : Linker) (h : kept c) :
    (linkBy position node linker).EndsIn c kept fun _ => kept := by
  unfold linkBy
  cases linker position node with
  | ok dependencies => exact linkAll_endsIn step dependencies h
  | error e => exact h

/-- Linking nodes keeps what every link from one of them keeps. -/
theorem linkNodes_endsIn {kept : Construction → Prop} {nodes : List Node}
    (step : ∀ node ∈ nodes, ∀ dependency c, kept c →
      (link node.id dependency).EndsIn c kept fun _ => kept)
    (linkers : List Linker) (position : Nat) (h : kept c) :
    (linkNodes linkers position nodes).EndsIn c kept fun _ => kept := by
  induction nodes generalizing position c with
  | nil => exact h
  | cons node nodes ih =>
    have hnode := step node List.mem_cons_self
    have hlinkers : (linkers.forM (linkBy position node)).EndsIn c kept fun _ => kept :=
      EndsIn.forM (fun linker _ _ h => linkBy_endsIn hnode position linker h) h
    refine hlinkers.andThen fun after hafter => ?_
    exact ih (fun other hother => step other (List.mem_cons_of_mem node hother)) (position + 1) hafter

/-- An insertion adds the node without edges, or it is refused and changes nothing. -/
theorem insert_endsIn (node : Node) (h : c.graph.WellFormed) :
    (insert node).EndsIn c (fun after => after.graph.WellFormed ∧ after = c.modify (·.addNode node))
      fun _ after => after = c := by
  unfold EndsIn insert
  by_cases present : c.graph.contains node.id = true
  · rw [if_pos present]
  · rw [if_neg present]
    exact ⟨h.addNode fun hmem => present (h.indexed.contains_iff.mpr hmem), rfl⟩

/-- Nodes that are inserted one after the other stand behind those that were there. -/
theorem insertAll_endsIn (nodes : List Node) (h : c.graph.WellFormed) :
    (nodes.forM insert).EndsIn c
      (fun after => after.graph.WellFormed ∧ after = c.modify (·.addNodes nodes))
      fun _ after => after.graph.WellFormed := by
  induction nodes generalizing c with
  | nil => exact ⟨h, rfl⟩
  | cons node nodes ih =>
    have hinsert : (insert node).EndsIn c
        (fun after => after.graph.WellFormed ∧ after = c.modify (·.addNode node))
        fun _ after => after.graph.WellFormed := by
      refine (insert_endsIn node h).mono (fun _ => id) fun e after hafter => ?_
      rw [hafter]
      exact h
    refine hinsert.andThen ?_
    rintro after ⟨hafter, rfl⟩
    exact ih hafter

/-- Nodes that could all be inserted are there when their links are made. -/
theorem insertAll_covers (nodes : List Node) :
    (nodes.forM insert).EndsIn (.on .empty) (Construction.Covers (nodes.map Node.id))
      fun _ after => after.graph.WellFormed := by
  refine (insertAll_endsIn nodes Graph.empty_wellFormed).mono ?_ fun _ _ => id
  rintro _ ⟨hafter, rfl⟩
  refine ⟨hafter, fun id hid => ?_⟩
  simpa [Construction.modify, Construction.on, Graph.empty, Graph.ids] using hid

/-- Building a graph leaves a well-formed one. -/
theorem init_endsIn (nodes : List Node) (linkers : List Linker) :
    (init nodes linkers).EndsIn (.on .empty) (fun after => after.graph.WellFormed)
      fun _ after => after.graph.WellFormed := by
  refine (insertAll_covers nodes).andThen fun after hcovers => ?_
  exact (linkNodes_endsIn (fun _ hnode dependency _ => link_endsIn (List.mem_map_of_mem hnode) dependency)
    linkers 0 hcovers).mono (fun _ => And.left) fun _ _ => And.left

/-- A node is put in its place, and then its links are made. -/
theorem put_eq (node : Node) (c : Construction) :
    put node c = linkAll node.id node.dependencies (c.modify (·.place node)) :=
  rfl

/-- How it ends to put a node is how it ends to link it after it has been placed. -/
theorem EndsIn.put {node : Node} (h : (linkAll node.id node.dependencies).EndsIn
    (c.modify (·.place node)) good refused) : (put node).EndsIn c good refused := by
  unfold EndsIn at h ⊢
  rw [put_eq]
  exact h

/-- The graph stays well formed when a node is put, whether or not one of its links is refused. -/
theorem put_endsIn (node : Node) (h : c.graph.WellFormed) :
    (put node).EndsIn c (fun after => after.graph.WellFormed) fun _ after => after.graph.WellFormed := by
  -- links leave from the node alone, so that it is there is all that has to be known on the way
  have hcovers : (c.modify (·.place node)).Covers [node.id] := h.covers_place node c.created
  exact EndsIn.put ((linkAll_endsIn (fun dependency _ => link_endsIn (List.mem_singleton_self _) dependency)
    node.dependencies hcovers).mono (fun _ => And.left) fun _ _ => And.left)

/-- Replacing and adding nodes leaves a well-formed graph. -/
theorem upsert_endsIn (nodes : List Node) (h : c.graph.WellFormed) :
    (upsert nodes).EndsIn c (fun after => after.graph.WellFormed)
      fun _ after => after.graph.WellFormed :=
  EndsIn.forM (fun node _ _ h => put_endsIn node h) h

end Build

end PackageLock
