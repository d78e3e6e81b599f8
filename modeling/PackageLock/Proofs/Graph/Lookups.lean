import PackageLock.Proofs.Graph.Representation

/-!
# The node of an identifier

Which node an identifier has after a graph has been changed. A node that is added or put in its place
is found under its identifier, and all others as before (`Indexed.find?_addNode`,
`Indexed.find?_place`). Links change no node; what had none has the placeholder of the first link to
it (`find?_attachAll`).
-/

set_option autoImplicit false

namespace PackageLock

/-- The placeholder for `id` that the first link to it makes. -/
def placeholderFor (links : List (String × Dependency)) (id : String) : Option Node :=
  (links.find? fun link => link.2.package == id).map fun link => .placeholder link.2

/-- The placeholder is that of the first link to the identifier. -/
theorem placeholderFor_append (first second : List (String × Dependency)) (id : String) :
    placeholderFor (first ++ second) id = (placeholderFor first id).or (placeholderFor second id) := by
  rw [placeholderFor, List.find?_append, Option.map_or]
  rfl

namespace Graph

variable {g g' : Graph}

/-- Where the index is right, nothing is found for just the identifiers that are not listed. -/
theorem Indexed.find?_eq_none_iff (h : g.Indexed) {id : String} : g.find? id = none ↔ id ∉ g.ids := by
  rw [mem_ids]
  constructor
  · rintro hnone ⟨node, hmem, hid⟩
    rw [h.find?_eq_some_iff.mpr ⟨hmem, hid⟩] at hnone
    cases hnone
  · intro habsent
    cases hfind : g.find? id with
    | none => rfl
    | some node => exact absurd ⟨node, h.find?_eq_some_iff.mp hfind⟩ habsent

/-- Where a node stands for all of its identifier and the other nodes are kept, it is found under its
identifier, and the others as before. -/
theorem Indexed.find?_eq_ite (h : g.Indexed) (h' : g'.Indexed) {node : Node}
    (nodes : ∀ other, other ∈ g'.nodes ↔ other ∈ g.nodes ∧ other.id ≠ node.id ∨ other = node)
    (id : String) : g'.find? id = if node.id = id then some node else g.find? id := by
  ext other
  rw [h'.find?_eq_some_iff, nodes]
  by_cases same : node.id = id
  · rw [if_pos same, Option.some.injEq]
    constructor
    · rintro ⟨⟨_, hother⟩ | rfl, hid⟩
      · exact absurd (hid.trans same.symm) hother
      · rfl
    · rintro rfl
      exact ⟨Or.inr rfl, same⟩
  · rw [if_neg same, h.find?_eq_some_iff]
    constructor
    · rintro ⟨⟨hmem, _⟩ | rfl, hid⟩
      · exact ⟨hmem, hid⟩
      · exact absurd hid same
    · rintro ⟨hmem, rfl⟩
      exact ⟨Or.inl ⟨hmem, Ne.symm same⟩, rfl⟩

/-- A node that is added is found, and otherwise what was found before. -/
theorem Indexed.find?_addNode (h : g.Indexed) {node : Node} (fresh : node.id ∉ g.ids) (id : String) :
    (g.addNode node).find? id = if node.id = id then some node else g.find? id := by
  refine h.find?_eq_ite (h.addNode fresh) (fun other => ?_) id
  have hother : other ∈ g.nodes → other.id ≠ node.id := fun hmem same =>
    fresh (mem_ids.mpr ⟨other, hmem, same⟩)
  simp only [Graph.addNode, List.mem_append, List.mem_singleton, and_iff_left_of_imp hother]

/-- The index stays right when a node is placed. -/
theorem Indexed.place (h : g.Indexed) (node : Node) : (g.place node).Indexed := by
  unfold Graph.place
  split
  · exact (h.replaceNode node).congr rfl rfl
  · rename_i absent
    exact (h.addNode fun hmem => absent (h.contains_iff.mpr hmem)).congr rfl rfl

/-- A node that is placed is found, and otherwise what was found before. -/
theorem Indexed.find?_place (h : g.Indexed) (node : Node) (id : String) :
    (g.place node).find? id = if node.id = id then some node else g.find? id :=
  h.find?_eq_ite (h.place node) (fun _ => mem_nodes_place h) id

end Graph

namespace Construction

variable {c : Construction}

/-- What was found is found still, and the dependency has a placeholder if it had no node. -/
theorem find?_ensure (h : c.graph.Indexed) (dependency : Dependency) (id : String) :
    (c.ensure dependency).graph.find? id =
      (c.graph.find? id).or (if dependency.package = id then some (.placeholder dependency) else none) := by
  unfold ensure
  by_cases present : c.graph.contains dependency.package = true
  · rw [if_pos present]
    by_cases same : dependency.package = id
    · obtain ⟨node, hmem, hid⟩ := Graph.mem_ids.mp (h.contains_iff.mp present)
      rw [← same, h.find?_eq_some_iff.mpr ⟨hmem, hid⟩]
      rfl
    · rw [if_neg same, Option.or_none]
  · have absent : (Node.placeholder dependency).id ∉ c.graph.ids :=
      fun hmem => present (h.contains_iff.mpr hmem)
    rw [if_neg present]
    show (c.graph.addNode (.placeholder dependency)).find? id = _
    rw [h.find?_addNode absent id]
    by_cases same : dependency.package = id
    · have hnone : c.graph.find? dependency.package = none := h.find?_eq_none_iff.mpr absent
      rw [← same, hnone]
      simp [Node.id]
    · simp [Node.id, same]

/-- After links have been made, an identifier has the node that it had, or else the placeholder of the
first link to it. -/
theorem find?_attachAll (h : c.graph.Indexed) (links : List (String × Dependency)) (id : String) :
    (c.attachAll links).graph.find? id = (c.graph.find? id).or (placeholderFor links id) := by
  induction links generalizing c with
  | nil => simp [attachAll, placeholderFor]
  | cons link links ih =>
    have hstep : (c.attach link).graph.find? id = (c.ensure link.2).graph.find? id := by
      simp [attach, modify, Graph.find?, Graph.position?]
    have hfirst : placeholderFor (link :: links) id =
        (if link.2.package = id then some (.placeholder link.2) else none).or
          (placeholderFor links id) := by
      by_cases same : link.2.package = id <;> simp [placeholderFor, same]
    show ((c.attach link).attachAll links).graph.find? id = _
    rw [ih (indexed_attach h link), hstep, find?_ensure h, hfirst, Option.or_assoc]

end Construction

end PackageLock
