import PackageLock.Proofs.Graph.Declarations
import PackageLock.Proofs.Graph.Lookups
import PackageLock.Proofs.Graph.Operations
import PackageLock.Proofs.Lock.Entries

/-!
# Replacing and adding nodes

Nodes that are replaced or added one after the other leave all others alone, with the edges that lead
from them, even if the work is refused on the way (`upsert_spares`). If it is not, each identifier has the
node that has been put there last, or the one that it had, or else a placeholder (`find?_settleAll`), and
the edges of the nodes put in stand behind the others (`edges_settleAll`). So the same work once more
finds everything as it is to be, and it is not refused, since all its links are there already
(`upsert_upsert`). Main statement: `afterAll_upsert`.
-/

set_option autoImplicit false

open Relation (ReflTransGen TransGen)

namespace PackageLock

namespace Graph

variable {g g' g'' : Graph} {listed : List String}

/-! ## What is left alone -/

/-- No node has disappeared, and the nodes that are not listed, with the edges that lead from them, are
as before. -/
structure Spares (g g' : Graph) (listed : List String) : Prop where
  ids : g.ids ⊆ g'.ids
  found : ∀ id ∈ g.ids, id ∉ listed → g'.find? id = g.find? id
  edges : ∀ id, id ∉ listed → g'.edges.filter (·.source == id) = g.edges.filter (·.source == id)

/-- A graph spares itself. -/
theorem Spares.refl (g : Graph) (listed : List String) : g.Spares g listed :=
  ⟨List.Subset.refl _, fun _ _ _ => rfl, fun _ _ => rfl⟩

/-- What two changes spare, one after the other, is spared. -/
theorem Spares.trans (h : g.Spares g' listed) (h' : g'.Spares g'' listed) : g.Spares g'' listed where
  ids := List.Subset.trans h.ids h'.ids
  found id hid unlisted := (h'.found id (h.ids hid) unlisted).trans (h.found id hid unlisted)
  edges id unlisted := (h'.edges id unlisted).trans (h.edges id unlisted)

/-- What is not listed keeps its dependencies. -/
theorem Spares.dependenciesOf_eq (h : g.Spares g' listed) {id : String} (unlisted : id ∉ listed) :
    g'.dependenciesOf id = g.dependenciesOf id := by
  rw [dependenciesOf, h.edges id unlisted, dependenciesOf]

/-- Placing a listed node spares the others. -/
theorem spares_place (h : g.Indexed) {node : Node} (hnode : node.id ∈ listed) :
    g.Spares (g.place node) listed where
  ids id hid := (mem_ids_place h).mpr (Or.inl hid)
  found id _ unlisted := by
    have hne : node.id ≠ id := fun same => unlisted (same ▸ hnode)
    rw [h.find?_place, if_neg hne]
  edges id unlisted := by
    rw [edges_place, List.filter_filter]
    refine List.filter_congr fun e _ => ?_
    by_cases hsource : e.source = id
    · have hne : e.source ≠ node.id := fun same => unlisted (hsource ▸ same ▸ hnode)
      simp [hsource, hsource ▸ hne]
    · simp [hsource]

/-- A placeholder spares what is there. -/
theorem spares_ensure {c : Construction} (h : c.graph.Indexed) (dependency : Dependency) :
    c.graph.Spares (c.ensure dependency).graph listed where
  ids id hid := (Construction.mem_ids_ensure h).mpr (Or.inl hid)
  found id hid _ := by
    obtain ⟨node, hnode, hid⟩ := mem_ids.mp hid
    rw [Construction.find?_ensure h, h.find?_eq_some_iff.mpr ⟨hnode, hid⟩, Option.some_or]
  edges id _ := by rw [Construction.edges_ensure]

/-- An edge of a listed source spares the others. -/
theorem spares_addEdge {source : String} (hsource : source ∈ listed) (dependency : Dependency) :
    g.Spares (g.addEdge source dependency) listed where
  ids := by rw [ids_addEdge]; exact List.Subset.refl _
  found id _ _ := by simp only [find?, position?, nodes_addEdge, index_addEdge]
  edges id unlisted := by
    have hne : source ≠ id := fun same => unlisted (same ▸ hsource)
    unfold addEdge
    split
    · rfl
    · simp [hne]

end Graph

namespace Build

variable {c : Construction} {g : Graph} {listed : List String}

/-- The graph has a right index and spares, compared with `g`, what is not listed. -/
def Kept (g : Graph) (listed : List String) (g' : Graph) : Prop :=
  g'.Indexed ∧ g.Spares g' listed

/-- A link of a listed source spares the others, whether or not it is refused. -/
theorem link_spares {source : String} (hsource : source ∈ listed) (dependency : Dependency)
    (h : Kept g listed c.graph) :
    (link source dependency).EndsIn c (fun after => Kept g listed after.graph)
      fun _ after => Kept g listed after.graph := by
  have hensure : Kept g listed (c.ensure dependency).graph :=
    ⟨Construction.indexed_ensure h.1 dependency, h.2.trans (Graph.spares_ensure h.1 dependency)⟩
  unfold EndsIn
  rw [link_eq]
  by_cases refused : source = dependency.package ∨
      (c.ensure dependency).graph.reaches dependency.package source = true
  · rw [if_pos refused]
    exact hensure
  · rw [if_neg refused]
    exact ⟨Construction.indexed_attach h.1 (source, dependency),
        hensure.2.trans (Graph.spares_addEdge hsource dependency)⟩

/-- Putting a listed node spares the others, whether or not one of its links is refused. -/
theorem put_spares {node : Node} (hnode : node.id ∈ listed) (h : Kept g listed c.graph) :
    (put node).EndsIn c (fun after => Kept g listed after.graph)
      fun _ after => Kept g listed after.graph := by
  have hplace : Kept g listed (c.modify (·.place node)).graph :=
    ⟨h.1.place node, h.2.trans (Graph.spares_place h.1 hnode)⟩
  exact EndsIn.put (linkAll_endsIn (fun dependency _ h => link_spares hnode dependency h) _ hplace)

end Build

/-- However it ends, an upsert spares the nodes that are not among those put in. -/
theorem Graph.upsert_spares {g : Graph} (h : g.Indexed) (nodes : List Node) :
    g.Spares (g.upsert nodes).1 (nodes.map Node.id) := by
  have kept : Build.Kept g (nodes.map Node.id) (g.upsert nodes).1 :=
    perform_endsIn (Build.EndsIn.forM
      (fun node hnode c hc => Build.put_spares (List.mem_map_of_mem hnode) hc)
      ⟨h, Spares.refl g _⟩)
  exact kept.2

/-! ## What an upsert comes to -/

namespace Construction

variable {c c' : Construction} {node : Node} {nodes : List Node}

/-- The construction in which a node is put and linked to what it declares. -/
def settle (c : Construction) (node : Node) : Construction :=
  (c.modify (·.place node)).attachAll node.links

/-- The construction in which nodes are put one after the other. -/
def settleAll (c : Construction) (nodes : List Node) : Construction :=
  nodes.foldl settle c

/-- The index stays right when a node is settled. -/
theorem indexed_settle (h : c.graph.Indexed) (node : Node) : (c.settle node).graph.Indexed :=
  indexed_attachAll (h.place node) node.links

/-- What is found after a node is settled: the node itself, what was found before, or else a placeholder for
what the node declares. -/
theorem find?_settle (h : c.graph.Indexed) (node : Node) (id : String) :
    (c.settle node).graph.find? id =
      (if node.id = id then some node else c.graph.find? id).or (placeholderFor node.links id) := by
  have hplace : (c.modify (·.place node)).graph.find? id =
      if node.id = id then some node else c.graph.find? id := h.find?_place node id
  rw [settle, find?_attachAll (h.place node), hplace]

/-- An identifier has the node that has been put in for it, or the one that it had, or else the
placeholder of the first link to it. -/
theorem find?_settleAll (h : c.graph.Indexed) (distinct : (nodes.map Node.id).Nodup) (id : String) :
    (c.settleAll nodes).graph.find? id = (nodes.find? (·.id == id)).or
      ((c.graph.find? id).or (placeholderFor (nodes.flatMap Node.links) id)) := by
  induction nodes generalizing c with
  | nil => simp [settleAll, placeholderFor]
  | cons node nodes ih =>
    rw [List.map_cons, List.nodup_cons] at distinct
    show ((c.settle node).settleAll nodes).graph.find? id = _
    rw [ih (indexed_settle h node) distinct.2, find?_settle h, List.flatMap_cons,
      placeholderFor_append, List.find?_cons]
    by_cases same : node.id = id
    · -- no further node is put in for this identifier
      have absent : nodes.find? (·.id == id) = none := by
        refine List.find?_eq_none.mpr fun other hother hid => distinct.1 ?_
        rw [same, ← beq_iff_eq.mp hid]
        exact List.mem_map_of_mem hother
      simp [same, absent]
    · simp [same, beq_false_of_ne same, Option.or_assoc]

/-- The edges after a node is settled: those before that leave another one, and then its own. -/
theorem edges_settle (c : Construction) (node : Node) :
    (c.settle node).graph.edges = c.graph.edges.filter (·.source != node.id) ++ node.edges := by
  have hplace : (c.modify (·.place node)).graph.edges = c.graph.edges.filter (·.source != node.id) :=
    Graph.edges_place c.graph node
  have unlinked : ∀ e ∈ (c.modify (·.place node)).graph.edges, e.source ∉ [node].map Node.id := by
    intro e he
    rw [hplace, List.mem_filter] at he
    simpa using he.2
  have nodup : ([node].map Node.id).Nodup := List.nodup_singleton node.id
  have hlinks := edges_attachAll_links nodup unlinked
  rw [hplace] at hlinks
  simpa [settle] using hlinks

/-- The edges of the nodes put in stand behind those that lead from other nodes. -/
theorem edges_settleAll (c : Construction) (distinct : (nodes.map Node.id).Nodup) :
    (c.settleAll nodes).graph.edges =
      (c.graph.edges.filter fun e => !(nodes.map Node.id).contains e.source) ++
        nodes.flatMap Node.edges := by
  induction nodes generalizing c with
  | nil => simp [settleAll]
  | cons node nodes ih =>
    rw [List.map_cons, List.nodup_cons] at distinct
    have hown : node.edges.filter (fun e => !(nodes.map Node.id).contains e.source) = node.edges := by
      refine List.filter_eq_self.mpr fun e he => ?_
      rw [(Node.mem_edges.mp he).1]
      simpa using distinct.1
    show ((c.settle node).settleAll nodes).graph.edges = _
    rw [ih (c.settle node) distinct.2, edges_settle, List.filter_append, hown, List.filter_filter,
      List.flatMap_cons, List.append_assoc]
    refine congrArg (· ++ (node.edges ++ nodes.flatMap Node.edges)) (List.filter_congr fun e _ => ?_)
    rw [List.map_cons, List.contains_cons, Bool.not_or, Bool.and_comm, bne]

/-- An edge that leaves a node that has been put in is its own. -/
theorem mem_edges_settleAll (c : Construction) (distinct : (nodes.map Node.id).Nodup)
    (hnode : node ∈ nodes) {e : Edge} :
    e ∈ node.edges ↔ e ∈ (c.settleAll nodes).graph.edges ∧ e.source = node.id := by
  rw [Node.mem_edges_iff distinct hnode, edges_settleAll c distinct, List.mem_append, List.mem_filter]
  refine and_congr_left fun hsource => (or_iff_right ?_).symm
  rintro ⟨_, unlisted⟩
  rw [hsource] at unlisted
  simp [List.mem_map_of_mem hnode] at unlisted

/-- Putting in nodes where they have been put in leaves the edges as they are. -/
theorem edges_settleAll_of_settled (distinct : (nodes.map Node.id).Nodup)
    (settled : c'.graph.edges = (c.settleAll nodes).graph.edges) :
    (c'.settleAll nodes).graph.edges = c'.graph.edges := by
  have hown : (nodes.flatMap Node.edges).filter
      (fun e => !(nodes.map Node.id).contains e.source) = [] := by
    refine List.filter_eq_nil_iff.mpr fun e he => ?_
    obtain ⟨node, hnode, he⟩ := List.mem_flatMap.mp he
    simp [(Node.mem_edges.mp he).1, List.mem_map_of_mem hnode]
  rw [edges_settleAll c' distinct, settled, edges_settleAll c distinct, List.filter_append, hown,
    List.filter_filter, List.append_nil]
  simp only [Bool.and_self]

/-! ## Putting in what is there -/

/-- The constructions are the same, their edges apart. -/
structure SameBesidesEdges (c c' : Construction) : Prop where
  nodes : c'.graph.nodes = c.graph.nodes
  index : c'.graph.index = c.graph.index
  created : c'.created = c.created

/-- What is the same twice but for the edges is the same but for the edges. -/
theorem SameBesidesEdges.trans {c'' : Construction} (h : c.SameBesidesEdges c')
    (h' : c'.SameBesidesEdges c'') : c.SameBesidesEdges c'' where
  nodes := h'.nodes.trans h.nodes
  index := h'.index.trans h.index
  created := h'.created.trans h.created

/-- Where the edges alone differ, the same identifiers have nodes. -/
theorem SameBesidesEdges.contains_eq (h : c.SameBesidesEdges c') (id : String) :
    c'.graph.contains id = c.graph.contains id := by
  rw [Graph.contains, Graph.position?, h.index, ← Graph.position?, ← Graph.contains]

/-- Where the edges alone differ, the same nodes are found. -/
theorem SameBesidesEdges.find?_eq (h : c.SameBesidesEdges c') (id : String) :
    c'.graph.find? id = c.graph.find? id := by
  simp only [Graph.find?, Graph.position?, h.index, h.nodes]

/-- Where the edges alone could differ and do not, nothing differs. -/
theorem SameBesidesEdges.eq_of_edges (h : c.SameBesidesEdges c')
    (edges : c'.graph.edges = c.graph.edges) : c' = c := by
  obtain ⟨⟨nodes, _, index⟩, created⟩ := c
  obtain ⟨⟨nodes', _, index'⟩, created'⟩ := c'
  obtain ⟨rfl, rfl, rfl⟩ := h
  exact congrArg (fun edges => Construction.mk ⟨nodes', edges, index'⟩ created') edges

/-- Links to what has its node add edges alone. -/
theorem sameBesidesEdges_attachAll {links : List (String × Dependency)}
    (known : ∀ link ∈ links, c.graph.contains link.2.package = true) :
    c.SameBesidesEdges (c.attachAll links) := by
  induction links generalizing c with
  | nil => exact ⟨rfl, rfl, rfl⟩
  | cons link links ih =>
    have hensure : c.ensure link.2 = c := if_pos (known link List.mem_cons_self)
    have hattach : c.SameBesidesEdges (c.attach link) := by
      rw [attach, hensure]
      exact ⟨Graph.nodes_addEdge _ _ _, Graph.index_addEdge _ _ _, rfl⟩
    refine hattach.trans (ih fun other hother => ?_)
    rw [hattach.contains_eq]
    exact known other (List.mem_cons_of_mem link hother)

/-- Placing a node that is there changes edges alone. -/
theorem sameBesidesEdges_place (found : c.graph.find? node.id = some node) :
    c.SameBesidesEdges (c.modify (·.place node)) := by
  obtain ⟨place, hplace, hnode⟩ := Option.bind_eq_some_iff.mp found
  have present : c.graph.contains node.id = true := by rw [Graph.contains, hplace, Option.isSome_some]
  have replaced : c.graph.replaceNode node = c.graph := by
    obtain ⟨hlt, heq⟩ := List.getElem?_eq_some_iff.mp hnode
    rw [Graph.replaceNode, hplace, ← heq]
    simp only [List.set_getElem_self]
  have hgraph : (c.modify (·.place node)).graph = c.graph.dropEdges node.id := by
    simp only [modify, Graph.place, if_pos present, replaced]
  refine ⟨?_, ?_, rfl⟩ <;> rw [hgraph, Graph.dropEdges]

/-- Nodes that are there, with all that they declare, add nothing but edges. -/
theorem sameBesidesEdges_settleAll (found : ∀ node ∈ nodes, c.graph.find? node.id = some node)
    (known : ∀ node ∈ nodes, ∀ dependency ∈ node.dependencies,
      c.graph.contains dependency.package = true) : c.SameBesidesEdges (c.settleAll nodes) := by
  induction nodes generalizing c with
  | nil => exact ⟨rfl, rfl, rfl⟩
  | cons node nodes ih =>
    have hplace := sameBesidesEdges_place (found node List.mem_cons_self)
    have hlinks : (c.modify (·.place node)).SameBesidesEdges (c.settle node) := by
      refine sameBesidesEdges_attachAll fun link hlink => ?_
      rw [hplace.contains_eq]
      exact known node List.mem_cons_self link.2 (Node.mem_links.mp hlink).2
    have hsettle := hplace.trans hlinks
    refine hsettle.trans (ih (fun other hother => ?_) fun other hother dependency hdependency => ?_)
    · rw [hsettle.find?_eq]
      exact found other (List.mem_cons_of_mem node hother)
    · rw [hsettle.contains_eq]
      exact known other (List.mem_cons_of_mem node hother) dependency hdependency

end Construction

namespace Build

variable {c after : Construction} {node : Node} {nodes : List Node} {R : String → String → Prop}

/-! ## When an upsert ends well -/

/-- If it is not refused, an upsert comes to putting in the nodes with all their links. -/
theorem upsert_eq_ok (h : upsert nodes c = .ok () after) : after = c.settleAll nodes := by
  induction nodes generalizing c with
  | nil =>
    have h : EStateM.Result.ok () c = .ok () after := h
    cases h
    rfl
  | cons node nodes ih =>
    obtain ⟨middle, hput, hrest⟩ := bind_eq_ok.mp h
    rw [put_eq_linkEach] at hput
    rw [ih hrest, linkEach_eq_ok hput]
    rfl

/-- Putting in a node is not refused if its links and the arrows that are there lie in a relation
without cycles. -/
theorem put_eq_of_acyclic (acyclic : ∀ id, ¬ TransGen R id id) (h : c.graph.WellFormed)
    (arrows : ∀ a b, c.graph.Arrow a b → R a b)
    (declared : ∀ dependency ∈ node.dependencies, R node.id dependency.package) :
    put node c = .ok () (c.settle node) ∧ (c.settle node).graph.WellFormed ∧
      ∀ a b, (c.settle node).graph.Arrow a b → R a b := by
  have hlinks (links : List (String × Dependency)) (own : ∀ link ∈ links, link ∈ node.links)
      (a b : String) (arrow : ((c.modify (·.place node)).attachAll links).graph.Arrow a b) : R a b := by
    rcases Construction.arrow_attachAll.mp arrow with placed | ⟨link, hlink, rfl, rfl⟩
    · exact arrows a b (Graph.arrow_place.mp placed).1
    · obtain ⟨hsource, hdependency⟩ := Node.mem_links.mp (own link hlink)
      rw [hsource]
      exact declared link.2 hdependency
  have hcovers : (c.modify (·.place node)).Covers [node.id] := h.covers_place node c.created
  have hsources : ∀ link ∈ node.links, link.1 ∈ [node.id] := fun link hlink =>
    List.mem_singleton.mpr (Node.mem_links.mp hlink).1
  rw [put_eq_linkEach]
  rcases linkEach_cases hcovers hsources with ⟨made, hmade⟩ | ⟨before, link, later, hsplit, _, back, _⟩
  · exact ⟨made, hmade.1, hlinks node.links fun _ => id⟩
  · -- a refused link would close a cycle in the relation
    have hlink : link ∈ node.links := hsplit ▸ List.mem_append_right before List.mem_cons_self
    have hback := ReflTransGen.mono
      (hlinks before fun other hother => hsplit ▸ List.mem_append_left _ hother) _ _ back
    obtain ⟨hsource, hdependency⟩ := Node.mem_links.mp hlink
    have hstep : R link.1 link.2.package := hsource ▸ declared link.2 hdependency
    exact absurd (TransGen.head' hstep hback) (acyclic link.1)

/-- If arrows and declarations together have no cycle, all nodes are settled. -/
theorem upsert_eq_of_acyclic (acyclic : ∀ id, ¬ TransGen R id id) (h : c.graph.WellFormed)
    (arrows : ∀ a b, c.graph.Arrow a b → R a b)
    (declared : ∀ node ∈ nodes, ∀ dependency ∈ node.dependencies, R node.id dependency.package) :
    upsert nodes c = .ok () (c.settleAll nodes) := by
  induction nodes generalizing c with
  | nil => rfl
  | cons node nodes ih =>
    obtain ⟨hput, hsettle, harrows⟩ := put_eq_of_acyclic acyclic h arrows (declared node List.mem_cons_self)
    have hrest := ih hsettle harrows fun other hother => declared other (List.mem_cons_of_mem node hother)
    exact (bind_of_ok hput).trans hrest

end Build

namespace Graph

variable {g g' : Graph} {nodes created : List Node}

/-- If it is not refused, an upsert leaves the graph in which the nodes are put in. -/
theorem settleAll_of_upsert (h : g.upsert nodes = (g', .ok created)) :
    g' = ((Construction.on g).settleAll nodes).graph := by
  unfold upsert perform EStateM.run at h
  cases hwork : Build.upsert nodes (.on g) with
  | ok _ after =>
    rw [hwork] at h
    cases h
    rw [Build.upsert_eq_ok hwork]
  | error e after =>
    rw [hwork] at h
    cases h

/-- An upsert that has not been refused has put in each of the nodes. -/
theorem find?_of_upsert (h : g.Indexed) (distinct : (nodes.map Node.id).Nodup)
    (done : g.upsert nodes = (g', .ok created)) {node : Node} (hnode : node ∈ nodes) :
    g'.find? node.id = some node := by
  have listed : nodes.find? (·.id == node.id) = some node :=
    (find?_key_eq_some_iff distinct).mpr ⟨hnode, rfl⟩
  rw [settleAll_of_upsert done, Construction.find?_settleAll h distinct, listed, Option.some_or]

/-- Doing an upsert a second time changes nothing. -/
theorem upsert_upsert (h : g.WellFormed) (distinct : (nodes.map Node.id).Nodup)
    (done : g.upsert nodes = (g', .ok created)) : g'.upsert nodes = (g', .ok []) := by
  have hg' : g' = ((Construction.on g).settleAll nodes).graph := settleAll_of_upsert done
  have hwell : g'.WellFormed := by
    have hupsert : (g.upsert nodes).1.WellFormed := perform_endsIn (Build.upsert_endsIn nodes h)
    rwa [done] at hupsert
  have declared : ∀ node ∈ nodes, ∀ dependency ∈ node.dependencies,
      g'.Arrow node.id dependency.package := by
    intro node hnode dependency hdependency
    rw [hg', arrow_iff_of_edges fun e => Construction.mem_edges_settleAll (.on g) distinct hnode]
    exact ⟨dependency, hdependency, rfl⟩
  have hrun : Build.upsert nodes (.on g') = .ok () ((Construction.on g').settleAll nodes) :=
    Build.upsert_eq_of_acyclic hwell.acyclic hwell (fun _ _ => id) declared
  -- what is put in and what it declares is there, so that only the edges might be others
  have hsame : (Construction.on g').SameBesidesEdges ((Construction.on g').settleAll nodes) := by
    refine Construction.sameBesidesEdges_settleAll
      (fun node hnode => find?_of_upsert h.indexed distinct done hnode) ?_
    intro node hnode dependency hdependency
    obtain ⟨e, he, _, htarget⟩ := declared node hnode dependency hdependency
    exact hwell.indexed.contains_iff.mpr (htarget ▸ hwell.target_mem e he)
  have hedges : ((Construction.on g').settleAll nodes).graph.edges = g'.edges :=
    Construction.edges_settleAll_of_settled distinct (congrArg Graph.edges hg')
  unfold upsert perform EStateM.run
  rw [hrun, hsame.eq_of_edges hedges]
  rfl

/-! ## Upserts of any graph -/

/-- An upsert of nodes with different identifiers, on any graph that operations leave. However it ends, no
node disappears, and nodes that are not listed stay as they are, with the edges that leave them. If it is
not refused, each listed node is found under its identifier and linked to what it declares, no other
nodes are new than the listed ones and placeholders of what they declare, and the same upsert once more
changes nothing. -/
theorem afterAll_upsert (operations : List Operation) {nodes : List Node}
    (distinct : (nodes.map Node.id).Nodup) :
    let g := afterAll operations
    let g' := (g.upsert nodes).1
    (∀ id ∈ g.ids, id ∈ g'.ids) ∧
    (∀ id, id ∉ nodes.map Node.id →
      (id ∈ g.ids → g'.find? id = g.find? id) ∧ g'.dependenciesOf id = g.dependenciesOf id) ∧
    ∀ created, (g.upsert nodes).2 = .ok created →
      (∀ node ∈ nodes, g'.find? node.id = some node ∧ g'.LinksAsDeclared node) ∧
      (∀ id ∈ g'.ids, id ∉ g.ids → id ∉ nodes.map Node.id →
        ∃ node ∈ nodes, ∃ dependency ∈ node.dependencies, dependency.package = id ∧
          g'.find? id = some (.placeholder dependency)) ∧
      g'.upsert nodes = (g', .ok []) := by
  intro g g'
  have h : g.WellFormed := afterAll_wellFormed operations
  have hspares : g.Spares g' (nodes.map Node.id) := upsert_spares h.indexed nodes
  refine ⟨fun id hid => hspares.ids hid, fun id unlisted => ?_, fun created hok => ?_⟩
  · exact ⟨fun hid => hspares.found id hid unlisted, hspares.dependenciesOf_eq unlisted⟩
  have done : g.upsert nodes = (g', .ok created) := Prod.ext rfl hok
  have hg' : g' = ((Construction.on g).settleAll nodes).graph := settleAll_of_upsert done
  have hwell : g'.WellFormed := perform_endsIn (Build.upsert_endsIn nodes h)
  refine ⟨fun node hnode => ?_, fun id hid fresh unlisted => ?_, upsert_upsert h distinct done⟩
  · refine ⟨find?_of_upsert h.indexed distinct done hnode, hwell.linksAsDeclared fun e => ?_⟩
    rw [hg', ← Construction.mem_edges_settleAll _ distinct hnode]
  · -- a node that was not there and is not listed is that of the first link to it
    have hlisted : nodes.find? (·.id == id) = none := by
      refine List.find?_eq_none.mpr fun node hnode same => unlisted ?_
      exact beq_iff_eq.mp same ▸ List.mem_map_of_mem hnode
    have hfound := Construction.find?_settleAll (c := .on g) h.indexed distinct id
    have hold : (Construction.on g).graph.find? id = none := h.indexed.find?_eq_none_iff.mpr fresh
    rw [← hg', hlisted, hold, Option.none_or, Option.none_or] at hfound
    obtain ⟨node, hnode⟩ := Option.ne_none_iff_exists'.mp
      fun absent => hwell.indexed.find?_eq_none_iff.mp absent hid
    rw [hnode] at hfound
    obtain ⟨link, hlink, rfl⟩ := Option.map_eq_some_iff.mp hfound.symm
    obtain ⟨node, hmem, hlinks⟩ := List.mem_flatMap.mp (List.mem_of_find?_eq_some hlink)
    have hpackage : link.2.package = id := by simpa using List.find?_some hlink
    exact ⟨node, hmem, link.2, (Node.mem_links.mp hlinks).2, hpackage, hnode⟩

/-- A placeholder is replaced, of a package that declares another one twice, and a package comes in that
declares the one before. -/
theorem afterAll_upsert_of_placeholder :
    let a : Package := ⟨"a", "v1", [⟨"b", .provider, some ">=1"⟩]⟩
    let b : Package := ⟨"b", "v2", [⟨"c", .function, none⟩, ⟨"c", .provider, some "^3"⟩]⟩
    let d : Package := ⟨"d", "v1", [⟨"b", .configuration, none⟩]⟩
    let nodes : List Node := [.resolved b, .resolved d]
    let g := afterAll [.upsert [.resolved a]]
    let g' := (g.upsert nodes).1
    g.find? "b" = some (.placeholder ⟨"b", .provider, some ">=1"⟩) ∧ (nodes.map Node.id).Nodup ∧
      (g.upsert nodes).2 = .ok [.placeholder ⟨"c", .function, none⟩] ∧
      g'.dependenciesOf "a" = g.dependenciesOf "a" ∧ g'.find? "b" = some (.resolved b) ∧
      (g'.dependenciesOf "b").map (·.target) = ["c"] ∧
      (∃ dependency, g'.find? "c" = some (.placeholder dependency)) ∧
      g'.upsert nodes = (g', .ok []) := by
  intro a b d nodes g g'
  have distinct : (nodes.map Node.id).Nodup := by decide
  have before : g = ⟨[.resolved a, .placeholder ⟨"b", .provider, some ">=1"⟩],
      [⟨"a", "b", .provider, some ">=1"⟩], [("b", 1), ("a", 0)]⟩ := by
    simp only [g, a]
    cbv
  have after : g.upsert nodes =
      (⟨[.resolved a, .resolved b, .placeholder ⟨"c", .function, none⟩, .resolved d],
        [⟨"a", "b", .provider, some ">=1"⟩, ⟨"b", "c", .function, none⟩, ⟨"d", "b", .configuration, none⟩],
        [("d", 3), ("c", 2), ("b", 1), ("a", 0)]⟩, .ok [.placeholder ⟨"c", .function, none⟩]) := by
    rw [before]
    simp only [nodes, a, b, d]
    cbv
  have created : (g.upsert nodes).2 = .ok [.placeholder ⟨"c", .function, none⟩] := by rw [after]
  obtain ⟨_, kept, done⟩ := afterAll_upsert [.upsert [.resolved a]] distinct
  obtain ⟨listed, others, again⟩ := done _ created
  obtain ⟨found, links⟩ := listed (.resolved b) List.mem_cons_self
  have present : "c" ∈ g'.ids := by
    show "c" ∈ (g.upsert nodes).1.ids
    rw [after]
    decide
  have fresh : "c" ∉ g.ids := by
    rw [before]
    decide
  obtain ⟨_, _, dependency, _, _, placeholder⟩ := others "c" present fresh (by decide)
  exact ⟨by rw [before]; rfl, distinct, created, (kept "a" (by decide)).2, found, links.targets,
    ⟨dependency, placeholder⟩, again⟩

end Graph

end PackageLock
