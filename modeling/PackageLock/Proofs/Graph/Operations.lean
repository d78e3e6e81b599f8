import PackageLock.Proofs.Graph.Construction

/-!
# Graphs after any operations

A graph may be built anew, replaced by the graph of some packages, and changed, as often as one likes, and
each of these may fail in the middle and leave what it has done up to then. Every single operation keeps
a graph well-formed (`Operation.apply_wellFormed`), and so does every sequence of them. Main statement:
what this means for the index, the nodes and the edges of the graph (`afterAll_invariant`).
-/

set_option autoImplicit false

open Relation (TransGen)

namespace PackageLock

namespace Graph

/-- What can be done to a graph. -/
inductive Operation where
  | init (nodes : List Node) (linkers : List Linker)
  | ofPackages (packages : List Package)
  | add (node : Node)
  | upsert (nodes : List Node)

/-- The graph that an operation leaves, whether or not it succeeds. The graph of some packages takes the
place of the old one only if it can be built. -/
def Operation.apply (g : Graph) : Operation → Graph
  | .init nodes linkers => (Graph.init nodes linkers).1
  | .ofPackages packages =>
    match Graph.ofPackages packages with
    | .ok built => built
    | .error _ => g
  | .add node => (g.add node).1
  | .upsert nodes => (g.upsert nodes).1

/-- The graph that a sequence of operations leaves, the first of which finds a graph without nodes. -/
def afterAll (operations : List Operation) : Graph :=
  operations.foldl Operation.apply .empty

variable {g : Graph}

/-! ## One operation -/

/-- Carrying out work leaves the graph with which it ends, be it refused or not. -/
theorem perform_endsIn {work : Build Unit} {kept : Graph → Prop}
    (h : work.EndsIn (.on g) (fun after => kept after.graph) fun _ after => kept after.graph) :
    kept (g.perform work).1 := by
  unfold Build.EndsIn at h
  unfold perform EStateM.run
  cases hwork : work (.on g) with
  | ok _ after =>
    rw [hwork] at h
    exact h
  | error e after =>
    rw [hwork] at h
    exact h

/-- Whatever the nodes and the linkers are, building leaves a well-formed graph. -/
theorem init_wellFormed (nodes : List Node) (linkers : List Linker) :
    (Graph.init nodes linkers).1.WellFormed :=
  perform_endsIn (Build.init_endsIn nodes linkers)

/-- The graph of packages is the one that is built from their nodes as they declare. -/
theorem eq_of_ofPackages {packages : List Package} {built : Graph}
    (h : Graph.ofPackages packages = .ok built) :
    built = (Graph.init (packages.map Node.resolved) [Linker.declared]).1 := by
  unfold Graph.ofPackages at h
  rcases hgraph : Graph.init (packages.map Node.resolved) [Linker.declared] with ⟨after, result⟩
  rw [hgraph] at h
  cases result with
  | ok _ =>
    cases h
    rfl
  | error e => cases h

/-- What is known of every graph that is built anew is known after the graph of some packages has, or has
not, taken the place of the old one. -/
theorem Operation.apply_ofPackages {kept : Graph → Prop} (h : kept g) {packages : List Package}
    (built : kept (Graph.init (packages.map Node.resolved) [Linker.declared]).1) :
    kept ((Operation.ofPackages packages).apply g) := by
  show kept (match Graph.ofPackages packages with | .ok after => after | .error _ => g)
  cases hbuilt : Graph.ofPackages packages with
  | ok after =>
    rw [← eq_of_ofPackages hbuilt] at built
    exact built
  | error _ => exact h

/-- No operation spoils a graph, not even one that fails in the middle. -/
theorem Operation.apply_wellFormed (h : g.WellFormed) (operation : Operation) :
    (operation.apply g).WellFormed := by
  cases operation with
  | init nodes linkers => exact init_wellFormed nodes linkers
  | ofPackages packages => exact Operation.apply_ofPackages h (init_wellFormed _ _)
  | add node =>
    refine perform_endsIn ((Build.insert_endsIn node h).mono (fun _ => And.left) ?_)
    intro e after hafter
    rw [hafter]
    exact h
  | upsert nodes => exact perform_endsIn (Build.upsert_endsIn nodes h)

/-! ## Sequences of operations -/

/-- What every operation keeps is true after any sequence of them, if it is true of the empty graph. -/
theorem afterAll_of_apply {kept : Graph → Prop} (empty : kept .empty)
    (step : ∀ g, kept g → ∀ operation : Operation, kept (operation.apply g)) (operations : List Operation) :
    kept (afterAll operations) := by
  have hfold (g : Graph) (h : kept g) : kept (operations.foldl Operation.apply g) := by
    induction operations generalizing g with
    | nil => exact h
    | cons operation operations ih => exact ih _ (step g h operation)
  exact hfold .empty empty

/-- Every graph that operations leave is well formed. -/
theorem afterAll_wellFormed (operations : List Operation) : (afterAll operations).WellFormed :=
  afterAll_of_apply empty_wellFormed (fun _ => Operation.apply_wellFormed) operations

/-- After any sequence of operations, whichever of them have failed: the index has a place for an
identifier exactly if the node that stands there is of this identifier, so that each node is found and no
two share an identifier; no path of edges leads back to its start and no edge to its own source; no two
edges join the same two nodes in the same direction; and both ends of every edge are nodes. -/
theorem afterAll_invariant (operations : List Operation) :
    let g := afterAll operations
    (∀ id place, g.position? id = some place ↔
      ∃ node, g.nodes[place]? = some node ∧ node.id = id) ∧
    (∀ node ∈ g.nodes, g.find? node.id = some node) ∧ g.ids.Nodup ∧
    (∀ id, ¬ TransGen g.Arrow id id) ∧ (∀ e ∈ g.edges, e.source ≠ e.target) ∧
    (g.edges.map fun e => (e.source, e.target)).Nodup ∧
    ∀ e ∈ g.edges, (∃ node ∈ g.nodes, node.id = e.source) ∧ ∃ node ∈ g.nodes, node.id = e.target := by
  intro g
  have h : g.WellFormed := afterAll_wellFormed operations
  refine ⟨?_, ?_, h.indexed.ids_nodup, h.acyclic, ?_, h.edges_nodup, ?_⟩
  · intro id place
    rw [h.indexed id place, getElem?_ids]
  · intro node hnode
    exact h.indexed.find?_eq_some_iff.mpr ⟨hnode, rfl⟩
  · intro e he loop
    exact h.acyclic e.source (TransGen.single ⟨e, he, rfl, loop.symm⟩)
  · intro e he
    exact ⟨mem_ids.mp (h.source_mem e he), mem_ids.mp (h.target_mem e he)⟩

/-- An upsert that is refused has replaced a node, added another and made a link by then. -/
theorem afterAll_invariant_of_refused :
    let a : Package := ⟨"a", "v1", [⟨"b", .provider, none⟩]⟩
    let b : Package := ⟨"b", "v1", [⟨"c", .provider, none⟩, ⟨"a", .provider, none⟩]⟩
    let c : Node := .placeholder ⟨"c", .provider, none⟩
    let g := afterAll [.upsert [.resolved a], .upsert [.resolved b]]
    g.nodes = [.resolved a, .resolved b, c] ∧
      g.edges = [⟨"a", "b", .provider, none⟩, ⟨"b", "c", .provider, none⟩] ∧
      g.position? "c" = some 2 ∧ g.find? "c" = some c ∧ ¬ TransGen g.Arrow "b" "b" ∧
      (∃ node ∈ g.nodes, node.id = "b") ∧ ∃ node ∈ g.nodes, node.id = "c" := by
  intro a b c g
  have hgraph : g = ⟨[.resolved a, .resolved b, c],
      [⟨"a", "b", .provider, none⟩, ⟨"b", "c", .provider, none⟩],
      [("c", 2), ("b", 1), ("a", 0)]⟩ := by
    show afterAll [.upsert [.resolved ⟨"a", "v1", [⟨"b", .provider, none⟩]⟩],
      .upsert [.resolved ⟨"b", "v1", [⟨"c", .provider, none⟩, ⟨"a", .provider, none⟩]⟩]] = _
    cbv
  have hnodes : g.nodes = [.resolved a, .resolved b, c] := congrArg Graph.nodes hgraph
  have hedges : g.edges = [⟨"a", "b", .provider, none⟩, ⟨"b", "c", .provider, none⟩] :=
    congrArg Graph.edges hgraph
  obtain ⟨index, found, _, acyclic, _, _, ends⟩ :=
    afterAll_invariant [.upsert [.resolved a], .upsert [.resolved b]]
  have hplace : g.nodes[2]? = some c := by rw [hnodes]; rfl
  have hnode : c ∈ g.nodes := List.mem_of_getElem? hplace
  have hedge : ⟨"b", "c", .provider, none⟩ ∈ g.edges := by rw [hedges]; simp
  exact ⟨hnodes, hedges, (index "c" 2).mpr ⟨c, hplace, rfl⟩, found c hnode, acyclic "b",
    ends _ hedge⟩

end Graph

end PackageLock
