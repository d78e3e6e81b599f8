import Mathlib.Data.List.Sort
import PackageLock.Ascending
import PackageLock.Proofs.Graph.WellFormed

/-!
# The order of what a graph lists

Nodes are listed by their identifiers and edges by their targets, in ascending order. No two nodes share
an identifier and no two edges of one source share a target, so such a list is strictly ascending, and
its identifiers are those that it is made of in ascending order (`map_mergeSort`). What placeholders there
are, what a package depends on and what depends on it comes down to the members of such lists. A trace is
one of them; in a well-formed graph it lists what one or more edges lead to (`WellFormed.trace_eq`).
-/

set_option autoImplicit false

open Relation (TransGen)

namespace PackageLock

/-- What is sorted by a key that no two members share has these keys in ascending order. -/
theorem map_mergeSort {α : Type} (key : α → String) {l : List α} (nodup : (l.map key).Nodup) :
    (l.mergeSort fun a b => key a ≤ key b).map key = ascending (l.map key) := by
  let sorted := l.mergeSort fun a b => key a ≤ key b
  have perm : sorted.Perm l := List.mergeSort_perm l _
  have weak : sorted.Pairwise fun a b => key a ≤ key b := by
    refine (List.pairwise_mergeSort ?_ ?_ l).imp of_decide_eq_true
    · intro a b c hab hbc
      exact decide_eq_true (String.le_trans (of_decide_eq_true hab) (of_decide_eq_true hbc))
    · intro a b
      simpa using String.le_total (key a) (key b)
  have distinct : sorted.Pairwise fun a b => key a ≠ key b :=
    List.pairwise_map.mp ((perm.map key).nodup_iff.mpr nodup)
  have strict : (sorted.map key).Pairwise (· < ·) := by
    refine List.pairwise_map.mpr ((weak.and distinct).imp ?_)
    rintro a b ⟨le, ne⟩
    exact Std.lt_of_le_of_ne le ne
  refine strict.eq_of_mem_iff (pairwise_ascending _) fun id => ?_
  rw [mem_ascending, (perm.map key).mem_iff]

/-- Lists with the same members are the same in ascending order. -/
theorem ascending_congr {l l' : List String} (h : ∀ id, id ∈ l ↔ id ∈ l') : ascending l = ascending l' :=
  (pairwise_ascending l).eq_of_mem_iff (pairwise_ascending l') fun id => by
    rw [mem_ascending, mem_ascending, h]

namespace Graph

variable {g : Graph}

/-! ## Nodes -/

/-- Sorted nodes of distinct identifiers are listed with these in ascending order. -/
theorem map_id_sortNodes {nodes : List Node} (nodup : (nodes.map Node.id).Nodup) :
    (sortNodes nodes).map Node.id = ascending (nodes.map Node.id) :=
  map_mergeSort Node.id nodup

/-- Nodes picked out of a graph have different identifiers. -/
theorem Indexed.nodup_filter (h : g.Indexed) (p : Node → Bool) :
    ((g.nodes.filter p).map Node.id).Nodup :=
  (List.filter_sublist.map Node.id).nodup h.ids_nodup

/-- The placeholders are listed in ascending order. -/
theorem map_id_placeholders (h : g.Indexed) :
    g.placeholders.map Node.id = ascending ((g.nodes.filter Node.isPlaceholder).map Node.id) :=
  map_id_sortNodes (h.nodup_filter _)

/-- The nodes that depend on a package are those from which an arrow leads to it. -/
theorem WellFormed.map_id_dependentsOf (h : g.WellFormed) {id : String} {ids : List String}
    (hids : ∀ source, source ∈ ids ↔ g.Arrow source id) :
    (g.dependentsOf id).map Node.id = ascending ids := by
  refine (map_id_sortNodes (h.indexed.nodup_filter _)).trans (ascending_congr fun source => ?_)
  rw [hids, List.mem_map]
  constructor
  · rintro ⟨node, hnode, rfl⟩
    exact hasEdge_iff.mp (List.mem_filter.mp hnode).2
  · intro arrow
    have ⟨e, he, hsource, _⟩ := arrow
    obtain ⟨node, hnode, rfl⟩ := mem_ids.mp (hsource ▸ h.source_mem e he)
    exact ⟨node, List.mem_filter.mpr ⟨hnode, hasEdge_iff.mpr arrow⟩, rfl⟩

/-! ## Edges -/

/-- The dependencies of a node are the edges that leave it. -/
theorem mem_dependenciesOf {id : String} {e : Edge} :
    e ∈ g.dependenciesOf id ↔ e ∈ g.edges ∧ e.source = id := by
  rw [dependenciesOf, (List.mergeSort_perm _ _).mem_iff, List.mem_filter, beq_iff_eq]

/-- What a package depends on is that to which arrows lead from it. -/
theorem WellFormed.map_target_dependenciesOf (h : g.WellFormed) {id : String} {ids : List String}
    (hids : ∀ target, target ∈ ids ↔ g.Arrow id target) :
    (g.dependenciesOf id).map (·.target) = ascending ids := by
  have nodup : ((g.edges.filter (·.source == id)).map (·.target)).Nodup := by
    -- edges of one source that differ in their ends differ in their targets
    have pairs := List.pairwise_map.mp h.edges_nodup
    refine List.pairwise_map.mpr ((List.Pairwise.filter (·.source == id) pairs).imp_of_mem ?_)
    intro a b ha hb different same
    have hsource : a.source = b.source := by
      rw [beq_iff_eq.mp (List.mem_filter.mp ha).2, beq_iff_eq.mp (List.mem_filter.mp hb).2]
    exact different (Prod.ext hsource same)
  refine (map_mergeSort Edge.target nodup).trans (ascending_congr fun target => ?_)
  rw [hids]
  exact mem_successors

/-! ## Traces -/

/-- A trace fails if there is no node to begin with, and only then. -/
theorem trace_eq_error_iff {id : String} (indexed : g.Indexed) :
    g.trace id = .error (.nodeNotFound id) ↔ id ∉ g.ids := by
  rw [← indexed.contains_iff, trace]
  split
  · rename_i present
    simp [present]
  · rename_i absent
    simp [absent]

/-- A trace lists each identifier once, in ascending order. -/
theorem pairwise_trace {id : String} {nodes : List Node} (indexed : g.Indexed) (htrace : g.trace id = .ok nodes) :
    (nodes.map Node.id).Pairwise (· < ·) := by
  rw [trace] at htrace
  split at htrace
  · rw [← Except.ok.inj htrace, map_id_sortNodes (indexed.nodup_filter _)]
    exact pairwise_ascending _
  · cases htrace

/-- From a node a trace finds, in ascending order, the nodes that one or more edges lead to. -/
theorem WellFormed.trace_eq {id : String} (h : g.WellFormed) (hid : id ∈ g.ids) :
    ∃ nodes, g.trace id = .ok nodes ∧ (nodes.map Node.id).Pairwise (· < ·) ∧
      (∀ node ∈ nodes, g.find? node.id = some node) ∧
      ∀ key, key ∈ nodes.map Node.id ↔ TransGen g.Arrow id key := by
  obtain ⟨nodes, htrace, hnodes⟩ := trace_eq_ok h.closed h.indexed hid
  refine ⟨nodes, htrace, pairwise_trace h.indexed htrace, fun node hnode => ?_, fun key => ?_⟩
  · exact h.indexed.find?_eq_some_iff.mpr ⟨((hnodes node).mp hnode).1, rfl⟩
  · rw [List.mem_map]
    constructor
    · rintro ⟨node, hnode, rfl⟩
      obtain ⟨_, hne, path⟩ := (hnodes node).mp hnode
      exact (Relation.reflTransGen_iff_eq_or_transGen.mp path).resolve_left hne
    · intro path
      obtain ⟨before, _, last⟩ := TransGen.tail'_iff.mp path
      obtain ⟨node, hnode, rfl⟩ := mem_ids.mp (h.closed before key last)
      refine ⟨node, (hnodes node).mpr ⟨hnode, ?_, path.to_reflTransGen⟩, rfl⟩
      -- a path back to the start would be a cycle
      intro same
      rw [same] at path
      exact h.acyclic id path

end Graph

end PackageLock
