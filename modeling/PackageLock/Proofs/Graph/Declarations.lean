import PackageLock.Proofs.Graph.Linking
import PackageLock.Proofs.Graph.Listing

/-!
# What links add to a graph

Of several declarations of one package the first one counts: it labels the edge, and it is shown where
the package is missing. So the edges that links add are those of the first declarations
(`edges_attachAll_links`), and the nodes that they add are placeholders for the first declarations of
what had no node (`nodes_attachAll`, `created_attachAll`).
-/

set_option autoImplicit false

namespace PackageLock

/-! ## First declarations -/

/-- Of several dependencies on one package the first, in the order in which they are declared. -/
def firstDeclared : List Dependency → List Dependency
  | [] => []
  | dependency :: rest =>
    dependency :: (firstDeclared rest).filter (·.package != dependency.package)

/-- A first declaration is the one that is found for its package. -/
theorem mem_firstDeclared {dependencies : List Dependency} {dependency : Dependency} :
    dependency ∈ firstDeclared dependencies ↔
      dependencies.find? (·.package == dependency.package) = some dependency := by
  induction dependencies with
  | nil => simp [firstDeclared]
  | cons first rest ih =>
    simp only [firstDeclared, List.mem_cons, List.mem_filter, bne_iff_ne, ih, List.find?_cons]
    by_cases same : first.package = dependency.package
    · simp [same, eq_comm]
    · have other : dependency ≠ first := fun h => same (congrArg Dependency.package h.symm)
      simp [beq_false_of_ne same, other, Ne.symm same]

/-- Whatever is declared is declared for a first time. -/
theorem exists_firstDeclared {dependencies : List Dependency} {id : String} :
    (∃ dependency ∈ firstDeclared dependencies, dependency.package = id) ↔
      ∃ dependency ∈ dependencies, dependency.package = id := by
  constructor
  · rintro ⟨dependency, hfirst, rfl⟩
    exact ⟨dependency, List.mem_of_find?_eq_some (mem_firstDeclared.mp hfirst), rfl⟩
  · rintro ⟨dependency, hdependency, rfl⟩
    have found : (dependencies.find? (·.package == dependency.package)).isSome :=
      List.find?_isSome.mpr ⟨dependency, hdependency, beq_self_eq_true _⟩
    obtain ⟨first, hfirst⟩ := Option.isSome_iff_exists.mp found
    have same : first.package = dependency.package := by simpa using List.find?_some hfirst
    exact ⟨first, mem_firstDeclared.mpr (same ▸ hfirst), same⟩

/-- The edge of a dependency. -/
def Dependency.edgeFrom (source : String) (dependency : Dependency) : Edge :=
  ⟨source, dependency.package, dependency.kind, dependency.version⟩

/-- The edges of a node: one for each package that it declares, as its first declaration has it. -/
def Node.edges (node : Node) : List Edge :=
  (firstDeclared node.dependencies).map (Dependency.edgeFrom node.id)

/-- The edges of a node leave it, and each of them is labelled as the first declaration of its target. -/
theorem Node.mem_edges {node : Node} {e : Edge} :
    e ∈ node.edges ↔ e.source = node.id ∧
      node.dependencies.find? (·.package == e.target) = some ⟨e.target, e.kind, e.version⟩ := by
  simp only [Node.edges, List.mem_map, mem_firstDeclared]
  constructor
  · rintro ⟨dependency, hfirst, rfl⟩
    exact ⟨rfl, hfirst⟩
  · rintro ⟨hsource, hfirst⟩
    refine ⟨⟨e.target, e.kind, e.version⟩, hfirst, ?_⟩
    rw [Dependency.edgeFrom, ← hsource]

/-- The edges of one of several nodes are told from those of the others by their source. -/
theorem Node.mem_edges_iff {nodes : List Node} (nodup : (nodes.map Node.id).Nodup) {node : Node}
    (hnode : node ∈ nodes) {e : Edge} :
    e ∈ node.edges ↔ e ∈ nodes.flatMap Node.edges ∧ e.source = node.id := by
  rw [List.mem_flatMap]
  constructor
  · intro he
    exact ⟨⟨node, hnode, he⟩, (Node.mem_edges.mp he).1⟩
  · rintro ⟨⟨other, hother, he⟩, hsource⟩
    have same : other.id = node.id := (Node.mem_edges.mp he).1.symm.trans hsource
    rwa [← List.inj_on_of_nodup_map nodup hother hnode same]

namespace Graph

variable {g g' : Graph}

/-- What the node depends on in the graph is what it declares, in ascending order: each package once, as
the first declaration of it has it. -/
structure LinksAsDeclared (g : Graph) (node : Node) : Prop where
  targets : (g.dependenciesOf node.id).map (·.target) =
    ascending (node.dependencies.map (·.package))
  labels : ∀ e ∈ g.dependenciesOf node.id,
    node.dependencies.find? (·.package == e.target) = some ⟨e.target, e.kind, e.version⟩

/-- If the edges that leave a node are its own, arrows lead from it to what it declares. -/
theorem arrow_iff_of_edges {node : Node} (edges : ∀ e, e ∈ node.edges ↔ e ∈ g.edges ∧ e.source = node.id)
    {target : String} :
    g.Arrow node.id target ↔ ∃ dependency ∈ node.dependencies, dependency.package = target := by
  rw [← exists_firstDeclared]
  constructor
  · rintro ⟨e, he, hsource, rfl⟩
    obtain ⟨dependency, hfirst, rfl⟩ := List.mem_map.mp ((edges e).mpr ⟨he, hsource⟩)
    exact ⟨dependency, hfirst, rfl⟩
  · rintro ⟨dependency, hfirst, rfl⟩
    obtain ⟨he, hsource⟩ := (edges _).mp (List.mem_map_of_mem hfirst)
    exact ⟨_, he, hsource, rfl⟩

/-- A node links as declared if the edges that leave it are its own. -/
theorem WellFormed.linksAsDeclared (h : g.WellFormed) {node : Node}
    (edges : ∀ e, e ∈ node.edges ↔ e ∈ g.edges ∧ e.source = node.id) : g.LinksAsDeclared node where
  targets := by
    refine h.map_target_dependenciesOf fun target => ?_
    rw [List.mem_map, arrow_iff_of_edges edges]
  labels e he := (Node.mem_edges.mp ((edges e).mpr (mem_dependenciesOf.mp he))).2

/-! ## What is there before a link and after it -/

/-- Which edge is added depends on the edges alone. -/
theorem edges_addEdge_congr (edges : g.edges = g'.edges) (source : String) (dependency : Dependency) :
    (g.addEdge source dependency).edges = (g'.addEdge source dependency).edges := by
  have test : g.hasEdge source dependency.package = g'.hasEdge source dependency.package := by
    rw [hasEdge, hasEdge, edges]
  unfold addEdge
  rw [test]
  split
  · exact edges
  · simp only [edges]

/-- There is an edge after one has been added, if there was one or it is the one added. -/
theorem hasEdge_addEdge (g : Graph) (source : String) (dependency : Dependency) (a b : String) :
    (g.addEdge source dependency).hasEdge a b =
      (g.hasEdge a b || (a == source && b == dependency.package)) := by
  rw [Bool.eq_iff_iff, hasEdge_iff, arrow_addEdge]
  simp [hasEdge_iff]

/-- There is a node after one has been added, if there was one or it is the one added. -/
theorem contains_addNode_eq (g : Graph) (node : Node) (id : String) :
    (g.addNode node).contains id = (g.contains id || id == node.id) := by
  simp only [contains, position?, addNode, List.lookup_cons]
  cases id == node.id <;> simp

/-- The placeholders for what is declared and has no node. -/
def awaited (g : Graph) (dependencies : List Dependency) : List Node :=
  ((firstDeclared dependencies).filter fun dependency => !g.contains dependency.package).map
    Node.placeholder

/-- Which placeholders are awaited depends on what has a node alone. -/
theorem awaited_congr (contains : ∀ id, g.contains id = g'.contains id)
    (dependencies : List Dependency) : g.awaited dependencies = g'.awaited dependencies := by
  simp only [awaited, contains]

/-- For what has a node no placeholder is awaited. -/
theorem awaited_cons_of_contains {dependency : Dependency}
    (present : g.contains dependency.package = true) (rest : List Dependency) :
    g.awaited (dependency :: rest) = g.awaited rest := by
  simp only [awaited, firstDeclared, List.filter_cons, present, List.filter_filter]
  -- what has no node is not a dependency on that package either
  refine congrArg (List.map _) (List.filter_congr fun other _ => ?_)
  by_cases same : other.package = dependency.package <;> simp [same, present]

/-- For what has no node a placeholder is awaited, and no second one for further declarations of it. -/
theorem awaited_cons_of_absent {dependency : Dependency}
    (absent : g.contains dependency.package = false) (rest : List Dependency) :
    g.awaited (dependency :: rest) =
      .placeholder dependency :: (g.addNode (.placeholder dependency)).awaited rest := by
  simp only [awaited, firstDeclared, List.filter_cons, absent, List.filter_filter,
    contains_addNode_eq, Node.id, Bool.not_or]
  rfl

end Graph

namespace Construction

variable {c c' : Construction}

/-- Links are attached one part after the other. -/
theorem attachAll_append (c : Construction) (first second : List (String × Dependency)) :
    c.attachAll (first ++ second) = (c.attachAll first).attachAll second :=
  List.foldl_append

/-! ## The nodes that links add -/

/-- A link makes a node for its target, and its edge adds none. -/
theorem contains_attach (c : Construction) (link : String × Dependency) (id : String) :
    (c.attach link).graph.contains id = (c.ensure link.2).graph.contains id := by
  simp [attach, modify, Graph.contains, Graph.position?]

/-- Links add placeholders for what had no node, behind the nodes that were there, and these placeholders
count as created. -/
theorem placeholders_attachAll (c : Construction) (links : List (String × Dependency)) :
    (c.attachAll links).graph.nodes = c.graph.nodes ++ c.graph.awaited (links.map (·.2)) ∧
      (c.attachAll links).created = c.created ++ c.graph.awaited (links.map (·.2)) := by
  induction links generalizing c with
  | nil => simp [attachAll, Graph.awaited, firstDeclared]
  | cons link links ih =>
    -- the edge of the link changes neither list, so all that counts is whether the target had a node
    have hnodes : (c.attach link).graph.nodes = (c.ensure link.2).graph.nodes :=
      Graph.nodes_addEdge _ _ _
    have hcreated : (c.attach link).created = (c.ensure link.2).created := rfl
    obtain ⟨hnodesRest, hcreatedRest⟩ := ih (c.attach link)
    rw [hnodes, Graph.awaited_congr (contains_attach c link)] at hnodesRest
    rw [hcreated, Graph.awaited_congr (contains_attach c link)] at hcreatedRest
    show ((c.attach link).attachAll links).graph.nodes = _ ∧
      ((c.attach link).attachAll links).created = _
    rw [hnodesRest, hcreatedRest, List.map_cons]
    unfold ensure
    cases present : c.graph.contains link.2.package with
    | true =>
      rw [if_pos rfl, Graph.awaited_cons_of_contains present]
      exact ⟨rfl, rfl⟩
    | false =>
      rw [if_neg Bool.false_ne_true, Graph.awaited_cons_of_absent present]
      simp [Graph.addNode]

/-- Links add the awaited placeholders behind the nodes that were there. -/
theorem nodes_attachAll (c : Construction) (links : List (String × Dependency)) :
    (c.attachAll links).graph.nodes = c.graph.nodes ++ c.graph.awaited (links.map (·.2)) :=
  (c.placeholders_attachAll links).1

/-- The placeholders that links add count as created. -/
theorem created_attachAll (c : Construction) (links : List (String × Dependency)) :
    (c.attachAll links).created = c.created ++ c.graph.awaited (links.map (·.2)) :=
  (c.placeholders_attachAll links).2

/-! ## The edges that links add -/

/-- A placeholder adds no edge. -/
theorem edges_ensure (c : Construction) (dependency : Dependency) :
    (c.ensure dependency).graph.edges = c.graph.edges := by
  unfold ensure
  split <;> rfl

/-- The edges that links make depend on the edges before alone. -/
theorem edges_attachAll_congr (edges : c.graph.edges = c'.graph.edges)
    (links : List (String × Dependency)) :
    (c.attachAll links).graph.edges = (c'.attachAll links).graph.edges := by
  induction links generalizing c c' with
  | nil => exact edges
  | cons link links ih =>
    apply ih
    apply Graph.edges_addEdge_congr
    rw [edges_ensure, edges_ensure, edges]

/-- A link adds the edge of its dependency. -/
theorem edges_attach (c : Construction) (source : String) (dependency : Dependency) :
    (c.attach (source, dependency)).graph.edges = (c.graph.addEdge source dependency).edges :=
  Graph.edges_addEdge_congr (edges_ensure c dependency) source dependency

/-- The links of one source add the edges of their first declarations, those that are there apart. -/
theorem edges_attachAll (c : Construction) (source : String) (dependencies : List Dependency) :
    (c.attachAll (dependencies.map fun dependency => (source, dependency))).graph.edges =
      c.graph.edges ++ ((firstDeclared dependencies).filter fun dependency =>
        !c.graph.hasEdge source dependency.package).map (Dependency.edgeFrom source) := by
  induction dependencies generalizing c with
  | nil => simp [attachAll, firstDeclared]
  | cons dependency rest ih =>
    have hrest := ih (c.attach (source, dependency))
    have htest (id : String) : (c.attach (source, dependency)).graph.hasEdge source id =
        (c.graph.hasEdge source id || id == dependency.package) := by
      rw [Graph.hasEdge, edges_attach, ← Graph.hasEdge, Graph.hasEdge_addEdge, beq_self_eq_true,
        Bool.true_and]
    -- further declarations of the package find its edge there, whether or not this one has made it
    simp only [htest, edges_attach, Bool.not_or] at hrest
    show ((c.attach (source, dependency)).attachAll (rest.map fun other => (source, other))).graph.edges =
      _
    rw [hrest, Graph.addEdge, firstDeclared, List.filter_cons, List.filter_filter]
    cases c.graph.hasEdge source dependency.package with
    | true => rfl
    | false => exact List.append_assoc _ [dependency.edgeFrom source] _

/-- The links of nodes from which no edge leads yet add the edges of these nodes. -/
theorem edges_attachAll_links {nodes : List Node} (nodup : (nodes.map Node.id).Nodup)
    (unlinked : ∀ e ∈ c.graph.edges, e.source ∉ nodes.map Node.id) :
    (c.attachAll (nodes.flatMap Node.links)).graph.edges = c.graph.edges ++ nodes.flatMap Node.edges := by
  induction nodes generalizing c with
  | nil => simp [attachAll]
  | cons node nodes ih =>
    rw [List.map_cons, List.nodup_cons] at nodup
    have htest (id : String) : c.graph.hasEdge node.id id = false := by
      rw [← Bool.not_eq_true, Graph.hasEdge_iff]
      rintro ⟨e, he, hsource, _⟩
      exact unlinked e he (by simp [hsource])
    have hnode : (c.attachAll node.links).graph.edges = c.graph.edges ++ node.edges := by
      rw [Node.links, edges_attachAll]
      simp [htest, Node.edges]
    have hrest : ∀ e ∈ (c.attachAll node.links).graph.edges, e.source ∉ nodes.map Node.id := by
      intro e he
      rw [hnode, List.mem_append, Node.mem_edges] at he
      rcases he with he | ⟨hsource, _⟩
      · exact fun hmem => unlinked e he (List.mem_cons_of_mem _ hmem)
      · rw [hsource]
        exact nodup.1
    rw [List.flatMap_cons, attachAll_append, ih nodup.2 hrest, hnode, List.flatMap_cons,
      List.append_assoc]

end Construction

end PackageLock
