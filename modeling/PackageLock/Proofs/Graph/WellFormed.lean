import PackageLock.Graph.Build
import PackageLock.Proofs.Graph.Reachability

/-!
# The invariant of dependency graphs

A graph is well-formed if its index is right, every edge joins two nodes, no two edges join the same two
nodes in the same direction, and no path of arrows leads back to its start. All changes that building
makes to a graph keep this, one lemma for each of them. Only for an edge something is needed beside the
nodes that it joins: its target must not lead to its source (`WellFormed.addEdge`).
-/

set_option autoImplicit false

open Relation (ReflTransGen TransGen)

namespace PackageLock

/-- What every graph that has been built satisfies. -/
structure Graph.WellFormed (g : Graph) : Prop where
  indexed : g.Indexed
  source_mem : ∀ e ∈ g.edges, e.source ∈ g.ids
  target_mem : ∀ e ∈ g.edges, e.target ∈ g.ids
  edges_nodup : (g.edges.map fun e => (e.source, e.target)).Nodup
  acyclic : ∀ id, ¬ TransGen g.Arrow id id

/-! ## One more arrow -/

/-- A path over one more arrow does without the new arrow or leads to its source and from its target
on. -/
theorem transGen_insert {α : Type} {r r' : α → α → Prop} {a b : α}
    (hr : ∀ x y, r' x y → r x y ∨ x = a ∧ y = b) {x y : α} (path : TransGen r' x y) :
    TransGen r x y ∨ ReflTransGen r x a ∧ ReflTransGen r b y := by
  induction path with
  | single step =>
    rcases hr _ _ step with h | ⟨rfl, rfl⟩
    · exact Or.inl (TransGen.single h)
    · exact Or.inr ⟨ReflTransGen.refl, ReflTransGen.refl⟩
  | tail _ step ih =>
    rcases hr _ _ step with h | ⟨rfl, rfl⟩
    · rcases ih with path | ⟨toA, fromB⟩
      · exact Or.inl (path.tail h)
      · exact Or.inr ⟨toA, fromB.tail h⟩
    · rcases ih with path | ⟨toA, _⟩
      · exact Or.inr ⟨path.to_reflTransGen, ReflTransGen.refl⟩
      · exact Or.inr ⟨toA, ReflTransGen.refl⟩

/-- One more arrow closes no cycle unless its target leads to its source already. -/
theorem acyclic_insert {α : Type} {r r' : α → α → Prop} {a b : α}
    (hr : ∀ x y, r' x y → r x y ∨ x = a ∧ y = b) (acyclic : ∀ x, ¬ TransGen r x x)
    (noReturn : ¬ ReflTransGen r b a) (x : α) : ¬ TransGen r' x x := by
  intro cycle
  rcases transGen_insert hr cycle with path | ⟨toA, fromB⟩
  · exact acyclic x path
  · exact noReturn (fromB.trans toA)

/-! ## Changes of a graph -/

namespace Graph

variable {g : Graph}

/-- A node that is added is listed last. -/
@[simp] theorem ids_addNode (g : Graph) (node : Node) :
    (g.addNode node).ids = g.ids ++ [node.id] := by
  simp [ids, addNode]

/-- A node in the place of another has its edges. -/
@[simp] theorem edges_replaceNode (g : Graph) (node : Node) :
    (g.replaceNode node).edges = g.edges := by
  unfold replaceNode
  split <;> rfl

/-- An edge adds no identifier. -/
@[simp] theorem ids_addEdge (g : Graph) (source : String) (dependency : Dependency) :
    (g.addEdge source dependency).ids = g.ids := by
  unfold addEdge
  split <;> rfl

/-- Dropping edges takes no identifier away. -/
@[simp] theorem ids_dropEdges (g : Graph) (id : String) : (g.dropEdges id).ids = g.ids := rfl

/-- An edge adds no node. -/
@[simp] theorem nodes_addEdge (g : Graph) (source : String) (dependency : Dependency) :
    (g.addEdge source dependency).nodes = g.nodes := by
  unfold addEdge
  split <;> rfl

/-- An edge leaves the index. -/
@[simp] theorem index_addEdge (g : Graph) (source : String) (dependency : Dependency) :
    (g.addEdge source dependency).index = g.index := by
  unfold addEdge
  split <;> rfl

/-- A node is added without arrows. -/
@[simp] theorem arrow_addNode {node : Node} {a b : String} :
    (g.addNode node).Arrow a b ↔ g.Arrow a b := Iff.rfl

/-- A node in the place of another has its arrows. -/
@[simp] theorem arrow_replaceNode {node : Node} {a b : String} :
    (g.replaceNode node).Arrow a b ↔ g.Arrow a b := by
  simp only [Arrow, edges_replaceNode]

/-- The arrows after an edge is added: those before, and this one. -/
theorem arrow_addEdge {source : String} {dependency : Dependency} {a b : String} :
    (g.addEdge source dependency).Arrow a b ↔
      g.Arrow a b ∨ a = source ∧ b = dependency.package := by
  unfold addEdge
  split
  · rename_i present
    constructor
    · exact Or.inl
    · rintro (h | ⟨rfl, rfl⟩)
      · exact h
      · exact hasEdge_iff.mp present
  · simp only [Arrow, List.mem_append, List.mem_singleton]
    constructor
    · rintro ⟨e, he | rfl, rfl, rfl⟩
      · exact Or.inl ⟨e, he, rfl, rfl⟩
      · exact Or.inr ⟨rfl, rfl⟩
    · rintro (⟨e, he, hs, ht⟩ | ⟨rfl, rfl⟩)
      · exact ⟨e, Or.inl he, hs, ht⟩
      · exact ⟨_, Or.inr rfl, rfl, rfl⟩

/-- The arrows after those of a node are dropped: those that leave another one. -/
theorem arrow_dropEdges {id a b : String} :
    (g.dropEdges id).Arrow a b ↔ g.Arrow a b ∧ a ≠ id := by
  simp only [Arrow, dropEdges, List.mem_filter, bne_iff_ne]
  constructor
  · rintro ⟨e, ⟨he, hne⟩, rfl, rfl⟩
    exact ⟨⟨e, he, rfl, rfl⟩, hne⟩
  · rintro ⟨⟨e, he, rfl, rfl⟩, hne⟩
    exact ⟨e, ⟨he, hne⟩, rfl, rfl⟩

/-- In a well-formed graph arrows lead to nodes. -/
theorem WellFormed.closed (h : g.WellFormed) (a b : String) (arrow : g.Arrow a b) : b ∈ g.ids := by
  obtain ⟨e, he, _, rfl⟩ := arrow
  exact h.target_mem e he

/-- The index of the empty graph is right. -/
theorem empty_indexed : empty.Indexed := by
  simp [Indexed, position?, ids, empty]

/-- The empty graph is well formed. -/
theorem empty_wellFormed : empty.WellFormed where
  indexed := empty_indexed
  source_mem := by simp [empty]
  target_mem := by simp [empty]
  edges_nodup := List.nodup_nil
  acyclic := by
    intro id cycle
    obtain ⟨_, ⟨_, he, _⟩, _⟩ := TransGen.head'_iff.mp cycle
    simp [empty] at he

/-- A graph stays well formed when a node is added for what has none. -/
theorem WellFormed.addNode (h : g.WellFormed) {node : Node} (fresh : node.id ∉ g.ids) :
    (g.addNode node).WellFormed where
  indexed := h.indexed.addNode fresh
  source_mem := by
    intro e he
    rw [ids_addNode]
    exact List.mem_append_left _ (h.source_mem e he)
  target_mem := by
    intro e he
    rw [ids_addNode]
    exact List.mem_append_left _ (h.target_mem e he)
  edges_nodup := h.edges_nodup
  acyclic := h.acyclic

/-- A graph stays well formed when a node takes the place of another. -/
theorem WellFormed.replaceNode (h : g.WellFormed) (node : Node) : (g.replaceNode node).WellFormed where
  indexed := h.indexed.replaceNode node
  source_mem := by rw [edges_replaceNode, h.indexed.ids_replaceNode]; exact h.source_mem
  target_mem := by rw [edges_replaceNode, h.indexed.ids_replaceNode]; exact h.target_mem
  edges_nodup := by rw [edges_replaceNode]; exact h.edges_nodup
  acyclic := by
    intro id cycle
    exact h.acyclic id (TransGen.mono (fun _ _ => arrow_replaceNode.mp) id id cycle)

/-- A graph stays well formed when edges are dropped. -/
theorem WellFormed.dropEdges (h : g.WellFormed) (id : String) : (g.dropEdges id).WellFormed where
  indexed := h.indexed.congr rfl rfl
  source_mem := fun e he => h.source_mem e (List.mem_filter.mp he).1
  target_mem := fun e he => h.target_mem e (List.mem_filter.mp he).1
  edges_nodup := (List.filter_sublist.map _).nodup h.edges_nodup
  acyclic := by
    intro a cycle
    exact h.acyclic a (TransGen.mono (fun _ _ arrow => (arrow_dropEdges.mp arrow).1) a a cycle)

/-- An edge between nodes keeps a graph well-formed unless its target leads to its source. -/
theorem WellFormed.addEdge (h : g.WellFormed) {source : String} {dependency : Dependency}
    (hsource : source ∈ g.ids) (htarget : dependency.package ∈ g.ids)
    (noReturn : ¬ ReflTransGen g.Arrow dependency.package source) :
    (g.addEdge source dependency).WellFormed := by
  -- said of the arrows, this holds whether or not the edge has been there before
  have acyclic := acyclic_insert (fun x y => (arrow_addEdge (g := g)).mp) h.acyclic noReturn
  revert acyclic
  unfold Graph.addEdge
  split
  · exact fun _ => h
  · rename_i absent
    intro acyclic
    refine ⟨h.indexed.congr rfl rfl, ?_, ?_, ?_, acyclic⟩
    · intro e he
      rcases List.mem_append.mp he with he | he
      · exact h.source_mem e he
      · rw [List.mem_singleton.mp he]
        exact hsource
    · intro e he
      rcases List.mem_append.mp he with he | he
      · exact h.target_mem e he
      · rw [List.mem_singleton.mp he]
        exact htarget
    · rw [List.map_append, List.nodup_append]
      refine ⟨h.edges_nodup, List.nodup_singleton _, ?_⟩
      intro ends hends other hother same
      obtain ⟨e, he, rfl⟩ := List.mem_map.mp hends
      have hpair : other = (source, dependency.package) := by simpa using hother
      rw [hpair, Prod.mk.injEq] at same
      exact absent (hasEdge_iff.mpr ⟨e, he, same.1, same.2⟩)

end Graph

end PackageLock
