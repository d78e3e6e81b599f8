import Mathlib.Data.List.Nodup
import PackageLock.Graph.Build

/-!
# The index of a graph

The index of a graph is right if it tells the place of the node of each identifier and of nothing else.
A right index stays right when a node is added that was not there and when a node is replaced
(`Indexed.addNode`, `Indexed.replaceNode`). With it a look-up finds what there is among the nodes
(`Indexed.find?_eq_some_iff`), and no two nodes share an identifier (`Indexed.ids_nodup`).
-/

set_option autoImplicit false

namespace PackageLock

namespace Graph

variable {g : Graph}

/-- An identifier is listed if a node has it. -/
theorem mem_ids {id : String} : id ∈ g.ids ↔ ∃ node ∈ g.nodes, node.id = id := by
  simp [ids]

/-- The identifiers stand at the places of their nodes. -/
theorem getElem?_ids {id : String} {place : Nat} :
    g.ids[place]? = some id ↔ ∃ node, g.nodes[place]? = some node ∧ node.id = id := by
  rw [ids, List.getElem?_map, Option.map_eq_some_iff]

/-- The index tells the place of the node of each identifier and of nothing else. -/
def Indexed (g : Graph) : Prop :=
  ∀ id place, g.position? id = some place ↔ g.ids[place]? = some id

/-! ## What a right index finds -/

/-- Looking up an identifier finds the node that has it. -/
theorem Indexed.find?_eq_some_iff (h : g.Indexed) {id : String} {node : Node} :
    g.find? id = some node ↔ node ∈ g.nodes ∧ node.id = id := by
  unfold find?
  constructor
  · intro hfind
    obtain ⟨place, hplace, hnode⟩ := Option.bind_eq_some_iff.mp hfind
    obtain ⟨other, hother, hid⟩ := getElem?_ids.mp ((h id place).mp hplace)
    rw [hnode] at hother
    cases hother
    exact ⟨List.mem_of_getElem? hnode, hid⟩
  · rintro ⟨hmem, hid⟩
    obtain ⟨place, hnode⟩ := List.getElem?_of_mem hmem
    rw [(h id place).mpr (getElem?_ids.mpr ⟨node, hnode, hid⟩)]
    exact hnode

/-- Where the index is right, it has an entry for just the identifiers that are listed. -/
theorem Indexed.contains_iff (h : g.Indexed) {id : String} :
    g.contains id = true ↔ id ∈ g.ids := by
  rw [contains, Option.isSome_iff_exists, List.mem_iff_getElem?]
  exact exists_congr (h id)

/-- The index has one place for an identifier, so no two nodes share one. -/
theorem Indexed.ids_nodup (h : g.Indexed) : g.ids.Nodup := by
  refine List.nodup_iff_getElem?_ne_getElem?.mpr fun i j hij hj same => ?_
  have hplace : g.position? g.ids[j] = some j :=
    (h _ j).mpr (List.getElem?_eq_getElem hj)
  have hother : g.position? g.ids[j] = some i :=
    (h _ i).mpr (same.trans (List.getElem?_eq_getElem hj))
  rw [hplace] at hother
  exact absurd (Option.some.inj hother) (Nat.ne_of_gt hij)

/-! ## Changes of a graph -/

/-- A node of a new identifier stands behind the others. -/
theorem Indexed.addNode (h : g.Indexed) {node : Node} (fresh : node.id ∉ g.ids) :
    (g.addNode node).Indexed := by
  intro id place
  have hposition : (g.addNode node).position? id =
      if id = node.id then some g.ids.length else g.position? id := by
    unfold position? Graph.addNode
    by_cases same : id = node.id
    · simp [same, ids]
    · have hbeq : (id == node.id) = false := beq_false_of_ne same
      rw [List.lookup_cons, hbeq, if_neg same]
  have hids : (g.addNode node).ids = g.ids ++ [node.id] := by
    simp [ids, Graph.addNode]
  rw [hposition, hids]
  by_cases same : id = node.id
  · -- the new node stands behind the others, none of which has its identifier
    have habsent (i : Nat) : g.ids[i]? ≠ some node.id := fun hi => fresh (List.mem_of_getElem? hi)
    rw [if_pos same, same, List.getElem?_append]
    by_cases old : place < g.ids.length
    · rw [if_pos old]
      simp only [Option.some.injEq, habsent, iff_false]
      omega
    · rw [if_neg old, List.getElem?_singleton]
      simp only [Option.some.injEq]
      split <;> simp <;> omega
  · rw [if_neg same, h id place, List.getElem?_append]
    by_cases old : place < g.ids.length
    · rw [if_pos old]
    · rw [if_neg old, List.getElem?_eq_none (Nat.le_of_not_lt old), List.getElem?_singleton]
      split <;> simp [Ne.symm same]

/-- A node is replaced by one of the same identifier. -/
theorem Indexed.ids_replaceNode (h : g.Indexed) (node : Node) : (g.replaceNode node).ids = g.ids := by
  unfold replaceNode
  cases hplace : g.position? node.id with
  | none => rfl
  | some place =>
    -- the node that is replaced has the same identifier
    obtain ⟨hlt, hid⟩ := List.getElem?_eq_some_iff.mp ((h node.id place).mp hplace)
    simp only [ids, List.map_set]
    rw [← hid]
    exact List.set_getElem_self hlt

/-- The index stays right when a node takes the place of another. -/
theorem Indexed.replaceNode (h : g.Indexed) (node : Node) : (g.replaceNode node).Indexed := by
  have hindex : (g.replaceNode node).index = g.index := by
    unfold Graph.replaceNode
    split <;> rfl
  unfold Indexed position?
  rw [h.ids_replaceNode, hindex]
  exact h

/-- What a node replaces is the node of its identifier. -/
theorem Indexed.mem_nodes_replaceNode (h : g.Indexed) {node other : Node}
    (present : g.contains node.id = true) :
    other ∈ (g.replaceNode node).nodes ↔ other ∈ g.nodes ∧ other.id ≠ node.id ∨ other = node := by
  obtain ⟨place, hplace⟩ := Option.isSome_iff_exists.mp present
  obtain ⟨old, hold, hid⟩ := getElem?_ids.mp ((h node.id place).mp hplace)
  have hlt : place < g.nodes.length := (List.getElem?_eq_some_iff.mp hold).1
  have hnodes : (g.replaceNode node).nodes = g.nodes.set place node := by
    rw [Graph.replaceNode, hplace]
  rw [hnodes, List.mem_iff_getElem?, List.mem_iff_getElem?]
  constructor
  · rintro ⟨i, hi⟩
    rw [List.getElem?_set] at hi
    by_cases here : place = i
    · rw [if_pos here, if_pos hlt] at hi
      exact Or.inr (Option.some.inj hi).symm
    · rw [if_neg here] at hi
      refine Or.inl ⟨⟨i, hi⟩, fun same => here ?_⟩
      have hother := (h node.id i).mpr (getElem?_ids.mpr ⟨other, hi, same⟩)
      rw [hplace] at hother
      exact Option.some.inj hother
  · rintro (⟨⟨i, hi⟩, hne⟩ | rfl)
    · have here : place ≠ i := by
        rintro rfl
        rw [hold] at hi
        exact hne (Option.some.inj hi ▸ hid)
      exact ⟨i, by rw [List.getElem?_set, if_neg here, hi]⟩
    · exact ⟨place, by rw [List.getElem?_set, if_pos rfl, if_pos hlt]⟩

/-- What has been added is there. -/
theorem contains_addNode (g : Graph) (node : Node) : (g.addNode node).contains node.id = true := by
  simp [contains, position?, addNode]

/-- A node that has just been added is not changed by putting it in its own place. -/
theorem replaceNode_addNode (g : Graph) (node : Node) :
    (g.addNode node).replaceNode node = g.addNode node := by
  have hplace : (g.addNode node).position? node.id = some g.nodes.length := by
    simp [position?, addNode]
  rw [replaceNode, hplace]
  simp [addNode]

/-- The index stays right as long as neither it nor the nodes change. -/
theorem Indexed.congr {g' : Graph} (h : g.Indexed) (nodes : g'.nodes = g.nodes)
    (index : g'.index = g.index) : g'.Indexed := by
  unfold Indexed position? ids
  rw [nodes, index]
  exact h

end Graph

end PackageLock
