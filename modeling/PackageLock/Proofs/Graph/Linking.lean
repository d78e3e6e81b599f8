import PackageLock.Proofs.Graph.Construction

/-!
# Links one after the other

Linkers tell of nodes which packages they depend on. The links are made in the order in which they are
told (`linkNodes_eq_linkEach`), until one of them would close a cycle with those before it. Main
statement: links are all made, or they are made up to the first one that does (`linkEach_cases`).
-/

set_option autoImplicit false

open Relation (ReflTransGen TransGen)

namespace PackageLock

/-! ## Links that are told -/

/-- The dependencies that a linker tells of a node, none if it fails. -/
def Linker.told (linker : Linker) (position : Nat) (node : Node) : List Dependency :=
  match linker position node with
  | .ok dependencies => dependencies
  | .error _ => []

/-- What is told of a node is what the linker answers. -/
theorem Linker.mem_told {linker : Linker} {position : Nat} {node : Node} {dependency : Dependency} :
    dependency ∈ linker.told position node ↔
      ∃ dependencies, linker position node = .ok dependencies ∧ dependency ∈ dependencies := by
  unfold told
  cases linker position node with
  | ok dependencies => simp
  | error e => simp

/-- The links that linkers tell of nodes, the first of which has the given position: node by node, of each
node linker by linker, and of each linker dependency by dependency. -/
def linksBy (linkers : List Linker) (position : Nat) (nodes : List Node) : List (String × Dependency) :=
  (nodes.zipIdx position).flatMap fun place =>
    linkers.flatMap fun linker =>
      (linker.told place.2 place.1).map fun dependency => (place.1.id, dependency)

/-- None of the linkers fails on any of the nodes. -/
def Answering (linkers : List Linker) (nodes : List Node) : Prop :=
  ∀ linker ∈ linkers, ∀ position node, nodes[position]? = some node →
    ∃ dependencies, linker position node = .ok dependencies

/-- The linker of declared dependencies answers for every node. -/
theorem answering_declared (nodes : List Node) : Answering [Linker.declared] nodes := by
  intro linker hlinker position node _
  rw [List.mem_singleton.mp hlinker]
  exact ⟨node.dependencies, rfl⟩

/-- Of the node for `source`, some linker tells a dependency on `target`. -/
def Tells (linkers : List Linker) (nodes : List Node) (source target : String) : Prop :=
  ∃ position node, nodes[position]? = some node ∧ node.id = source ∧
    ∃ linker ∈ linkers, ∃ dependencies, linker position node = .ok dependencies ∧
      ∃ dependency ∈ dependencies, dependency.package = target

/-- One of the links leads from `source` to `target`. -/
def Joins (links : List (String × Dependency)) (source target : String) : Prop :=
  ∃ link ∈ links, link.1 = source ∧ link.2.package = target

/-- The target of the link is its source or leads to it by links that have been made earlier. -/
def Closes (earlier : List (String × Dependency)) (link : String × Dependency) : Prop :=
  ReflTransGen (Joins earlier) link.2.package link.1

/-- A link closes no cycle if it leads to another package and no earlier link leaves this one. -/
theorem not_closes {earlier : List (String × Dependency)} {link : String × Dependency}
    (other : link.2.package ≠ link.1) (unlinked : ∀ made ∈ earlier, made.1 ≠ link.2.package) :
    ¬ Closes earlier link := by
  intro closes
  -- a path from the target would begin with an earlier link
  rcases ReflTransGen.cases_head closes with same | ⟨_, ⟨made, hmade, hsource, _⟩, _⟩
  · exact other same
  · exact unlinked made hmade hsource

/-- The links that are to be made join what the linkers tell of. -/
theorem joins_linksBy_iff {linkers : List Linker} {nodes : List Node} {source target : String} :
    Joins (linksBy linkers 0 nodes) source target ↔ Tells linkers nodes source target := by
  simp only [Joins, linksBy, List.mem_flatMap, List.mem_map, Linker.mem_told]
  constructor
  · rintro ⟨_, ⟨⟨node, position⟩, hplace, linker, hlinker, dependency, ⟨dependencies, hanswer, hmem⟩,
      rfl⟩, rfl, rfl⟩
    have hnode := List.mem_zipIdx_iff_getElem?.mp hplace
    exact ⟨position, node, hnode, rfl, linker, hlinker, dependencies, hanswer, dependency, hmem, rfl⟩
  · rintro ⟨position, node, hnode, rfl, linker, hlinker, dependencies, hanswer, dependency, hmem, rfl⟩
    have hplace : (node, position) ∈ nodes.zipIdx := List.mem_zipIdx_iff_getElem?.mpr hnode
    exact ⟨(node.id, dependency), ⟨(node, position), hplace, linker, hlinker, dependency,
      ⟨dependencies, hanswer, hmem⟩, rfl⟩, rfl, rfl⟩

/-- The links that are to be made leave the given nodes. -/
theorem source_mem_of_mem_linksBy {linkers : List Linker} {nodes : List Node}
    {link : String × Dependency} (hlink : link ∈ linksBy linkers 0 nodes) :
    link.1 ∈ nodes.map Node.id := by
  obtain ⟨_, node, hnode, hid, _⟩ := joins_linksBy_iff.mp ⟨link, hlink, rfl, rfl⟩
  exact hid ▸ List.mem_map_of_mem (List.mem_of_getElem? hnode)

/-- A link that closes a cycle with earlier ones lies on a cycle. -/
theorem Closes.transGen {earlier later : List (String × Dependency)} {link : String × Dependency}
    (h : Closes earlier link) :
    TransGen (Joins (earlier ++ link :: later)) link.1 link.1 := by
  have step : Joins (earlier ++ link :: later) link.1 link.2.package := ⟨link, by simp, rfl, rfl⟩
  have grown (a b : String) (join : Joins earlier a b) : Joins (earlier ++ link :: later) a b := by
    obtain ⟨other, hother, hends⟩ := join
    exact ⟨other, List.mem_append_left _ hother, hends⟩
  exact TransGen.head' step (ReflTransGen.mono grown _ _ h)

namespace Build

variable {c : Construction} {ids : List String}

/-! ## Making links -/

/-- Work in two parts succeeds if both parts do, one after the other. -/
theorem bind_eq_ok {first second : Build Unit} {after : Construction} :
    (first >>= fun _ => second) c = .ok () after ↔
      ∃ middle, first c = .ok () middle ∧ second middle = .ok () after := by
  show EStateM.bind first (fun _ => second) c = .ok () after ↔ _
  unfold EStateM.bind
  cases first c with
  | ok _ middle =>
    constructor
    · intro h
      exact ⟨middle, rfl, h⟩
    · rintro ⟨_, hfirst, hsecond⟩
      cases hfirst
      exact hsecond
  | error e middle => simp

/-- After a first part that succeeds the second is done. -/
theorem bind_of_ok {first second : Build Unit} {middle : Construction} (h : first c = .ok () middle) :
    (first >>= fun _ => second) c = second middle := by
  show EStateM.bind first (fun _ => second) c = _
  rw [EStateM.bind, h]

/-- A first part that fails is the end of the work. -/
theorem bind_of_error {first second : Build Unit} {e : GraphError} {middle : Construction}
    (h : first c = .error e middle) : (first >>= fun _ => second) c = .error e middle := by
  show EStateM.bind first (fun _ => second) c = _
  rw [EStateM.bind, h]

/-- A link that is made is attached. -/
theorem link_eq_ok {link : String × Dependency} {after : Construction}
    (h : Build.link link.1 link.2 c = .ok () after) : after = c.attach link := by
  rw [link_eq] at h
  split at h
  · cases h
  · cases h
    rfl

/-- Makes links one after the other. -/
def linkEach (links : List (String × Dependency)) : Build Unit :=
  links.forM fun link => Build.link link.1 link.2

/-- When all links could be made, they are attached and nothing else has changed. -/
theorem linkEach_eq_ok {links : List (String × Dependency)} {after : Construction}
    (h : linkEach links c = .ok () after) : after = c.attachAll links := by
  induction links generalizing c with
  | nil =>
    have h : EStateM.Result.ok () c = .ok () after := h
    cases h
    rfl
  | cons link links ih =>
    obtain ⟨middle, hlink, hrest⟩ := bind_eq_ok.mp h
    rw [ih hrest, link_eq_ok hlink]
    rfl

/-- Links are made one after the other, up to the first that is refused. -/
theorem linkEach_cons (link : String × Dependency) (links : List (String × Dependency))
    (c : Construction) :
    linkEach (link :: links) c =
      match Build.link link.1 link.2 c with
      | .ok _ after => linkEach links after
      | .error e after => .error e after := by
  show EStateM.bind (Build.link link.1 link.2) (fun _ => linkEach links) c = _
  unfold EStateM.bind
  cases Build.link link.1 link.2 c with
  | ok _ after => rfl
  | error e after => rfl

/-- Links are all made, or they are made up to the first one whose target leads to its source. -/
theorem linkEach_cases {links : List (String × Dependency)} (h : c.Covers ids)
    (hsources : ∀ link ∈ links, link.1 ∈ ids) :
    linkEach links c = .ok () (c.attachAll links) ∧ (c.attachAll links).Covers ids ∨
      ∃ before link after, links = before ++ link :: after ∧ (c.attachAll before).Covers ids ∧
        ReflTransGen (c.attachAll before).graph.Arrow link.2.package link.1 ∧
        linkEach links c =
          .error (.cycle link.1 link.2.package) ((c.attachAll before).ensure link.2) := by
  classical
  induction links generalizing c with
  | nil => exact Or.inl ⟨rfl, h⟩
  | cons link links ih =>
    have hlink := link_eq_of_wellFormed h.1 link.1 link.2
    -- a link that is made leaves a graph for the same nodes, from which the rest goes on
    by_cases path : ReflTransGen c.graph.Arrow link.2.package link.1
    · rw [if_pos path] at hlink
      refine Or.inr ⟨[], link, links, rfl, h, path, ?_⟩
      rw [linkEach_cons, hlink]
      rfl
    · rw [if_neg path] at hlink
      have hattach : (c.attach link).Covers ids := h.attach (hsources link List.mem_cons_self) path
      have hrest : linkEach (link :: links) c = linkEach links (c.attach link) := by
        rw [linkEach_cons, hlink]
      rw [hrest]
      rcases ih hattach fun other hother => hsources other (List.mem_cons_of_mem link hother) with
        made | ⟨before, refused, after, rfl, hbefore, back, herror⟩
      · exact Or.inl made
      · exact Or.inr ⟨link :: before, refused, after, rfl, hbefore, back, herror⟩

/-! ## Linking nodes -/

/-- To link a source to dependencies is to make its links. -/
theorem linkAll_eq_linkEach (source : String) (dependencies : List Dependency) :
    linkAll source dependencies = linkEach (dependencies.map fun dependency => (source, dependency)) := by
  simp only [linkAll, linkEach, List.forM_eq_forM, List.forM_map]

/-- To put a node is to place it and to make its links. -/
theorem put_eq_linkEach (node : Node) (c : Construction) :
    put node c = linkEach node.links (c.modify (·.place node)) := by
  rw [put_eq, linkAll_eq_linkEach]
  rfl

/-- To link a node by a linker that answers is to make the links that are told. -/
theorem linkBy_eq_linkEach {position : Nat} {node : Node} {linker : Linker}
    (answers : ∃ dependencies, linker position node = .ok dependencies) :
    linkBy position node linker =
      linkEach ((linker.told position node).map fun dependency => (node.id, dependency)) := by
  obtain ⟨dependencies, hanswer⟩ := answers
  rw [← linkAll_eq_linkEach, linkBy, Linker.told, hanswer]

/-- Links are made one part after the other. -/
theorem linkEach_append (first second : List (String × Dependency)) :
    linkEach (first ++ second) = linkEach first >>= fun _ => linkEach second := by
  simp only [linkEach, List.forM_eq_forM, List.forM_append]

/-- Where the linkers answer, linking nodes is making the links that are told. -/
theorem linkNodes_eq_linkEach {linkers : List Linker} {nodes : List Node} {position : Nat}
    (answers : ∀ place ∈ nodes.zipIdx position, ∀ linker ∈ linkers,
      ∃ dependencies, linker place.2 place.1 = .ok dependencies) :
    linkNodes linkers position nodes = linkEach (linksBy linkers position nodes) := by
  -- one node, by induction on the linkers that are still to be asked
  have hlinkers (node : Node) (position : Nat) (some : List Linker)
      (h : ∀ linker ∈ some, ∃ dependencies, linker position node = .ok dependencies) :
      some.forM (linkBy position node) = linkEach (some.flatMap fun linker =>
        (linker.told position node).map fun dependency => (node.id, dependency)) := by
    induction some with
    | nil => rfl
    | cons linker some ih =>
      have hrest := ih fun other hother => h other (List.mem_cons_of_mem linker hother)
      rw [List.flatMap_cons, linkEach_append, ← linkBy_eq_linkEach (h linker List.mem_cons_self),
        ← hrest]
      rfl
  induction nodes generalizing position with
  | nil => rfl
  | cons node nodes ih =>
    rw [List.zipIdx_cons] at answers
    have hnode := hlinkers node position linkers (answers (node, position) List.mem_cons_self)
    have hrest := ih fun place hplace => answers place (List.mem_cons_of_mem _ hplace)
    rw [linkNodes, hnode, hrest, linksBy, linksBy, List.zipIdx_cons, List.flatMap_cons,
      linkEach_append]

/-- As declared, the links that are to be made are those of the nodes. -/
theorem linksBy_declared (position : Nat) (nodes : List Node) :
    linksBy [Linker.declared] position nodes = nodes.flatMap Node.links := by
  have hplace (place : Node × Nat) : ([Linker.declared].flatMap fun linker =>
      (linker.told place.2 place.1).map fun dependency => (place.1.id, dependency)) =
      place.1.links := List.append_nil _
  rw [linksBy]
  simp only [hplace]
  rw [← List.flatMap_map, List.zipIdx_map_fst]

end Build

end PackageLock
