import PackageLock.Proofs.Graph.Listing
import PackageLock.Proofs.Graph.Representation
import PackageLock.Proofs.Lock.Entries

/-!
# What the graph of a lock answers

A graph that represents the entries of a lock answers by them. Looking up a package finds its entry, and
a placeholder or nothing if it has none (`Represents.node_eq`). A trace finds what entries declare,
directly or through others, with the entries told from the placeholders (`Represents.trace_eq`).
-/

set_option autoImplicit false

open Relation (TransGen)

namespace PackageLock

namespace Graph

variable {g : Graph} {lock : Lock}

/-- What is found is answered. -/
theorem node_eq_ok {id : String} {node : Node} (h : g.find? id = some node) : g.node id = .ok node := by
  rw [Graph.node, h]

/-- What is not found is answered with an error that names it. -/
theorem node_eq_error {id : String} (h : g.find? id = none) :
    g.node id = .error (.nodeNotFound id) := by
  rw [Graph.node, h]

/-- Looking up a package finds its entry; without one there is a placeholder or nothing. -/
theorem Represents.node_eq (h : g.Represents lock.packages) (id : String) :
    (∃ package, lock.find? id = some package ∧ g.node id = .ok (.resolved package)) ∨
      lock.find? id = none ∧
        (g.node id = .error (.nodeNotFound id) ∨
          ∃ dependency, g.node id = .ok (.placeholder dependency)) := by
  have recorded {package : Package} (hfind : lock.find? id = some package) :
      g.find? id = some (.resolved package) := by
    obtain ⟨hmem, hsource⟩ := (Lock.find?_eq_some_iff h.sources_nodup).mp hfind
    have hnode := (h.resolved_mem_iff package).mpr hmem
    exact h.wellFormed.indexed.find?_eq_some_iff.mpr ⟨hnode, hsource⟩
  cases hlock : lock.find? id with
  | some package => exact Or.inl ⟨package, rfl, node_eq_ok (recorded hlock)⟩
  | none =>
    refine Or.inr ⟨rfl, ?_⟩
    cases hnode : g.find? id with
    | none => exact Or.inl (node_eq_error hnode)
    | some node =>
      cases node with
      | placeholder dependency => exact Or.inr ⟨dependency, node_eq_ok hnode⟩
      | resolved package =>
        obtain ⟨hmem, hid⟩ := h.wellFormed.indexed.find?_eq_some_iff.mp hnode
        have hpackage := (h.resolved_mem_iff package).mp hmem
        rw [(Lock.find?_eq_some_iff h.sources_nodup).mpr ⟨hpackage, hid⟩] at hlock
        cases hlock

/-- A node is a placeholder if the lock has no entry for it. -/
theorem Represents.isPlaceholder_eq (h : g.Represents lock.packages) {node : Node}
    (hmem : node ∈ g.nodes) : node.isPlaceholder = !lock.contains node.id := by
  have hnode : g.node node.id = .ok node :=
    node_eq_ok (h.wellFormed.indexed.find?_eq_some_iff.mpr ⟨hmem, rfl⟩)
  rcases h.node_eq node.id with ⟨package, hfind, heq⟩ | ⟨hfind, heq | ⟨dependency, heq⟩⟩
  · rw [hnode] at heq
    rw [Lock.contains, hfind, Except.ok.inj heq]
    rfl
  · rw [hnode] at heq
    cases heq
  · rw [hnode] at heq
    rw [Lock.contains, hfind, Except.ok.inj heq]
    rfl

/-- Following arrows is following declarations. -/
theorem Represents.transGen_iff (h : g.Represents lock.packages) {a b : String} :
    TransGen g.Arrow a b ↔ TransGen (Declares lock.packages) a b := by
  have harrow : g.Arrow = Declares lock.packages := by
    funext a b
    exact propext (h.arrow_iff a b)
  rw [harrow]

/-- No entry declares what leads back to it. -/
theorem Represents.not_transGen_self (h : g.Represents lock.packages) (id : String) :
    ¬ TransGen (Declares lock.packages) id id := by
  rw [← h.transGen_iff]
  exact h.wellFormed.acyclic id

/-- A trace finds what an entry declares, directly or through other entries. -/
theorem Represents.trace_eq (h : g.Represents lock.packages) {id : String}
    (hid : lock.contains id = true) :
    ∃ tree, g.trace id = .ok tree ∧ (tree.map Node.id).Nodup ∧
      (∀ other, other ∈ tree.map Node.id ↔ TransGen (Declares lock.packages) id other) ∧
      ∀ node ∈ tree, node.isPlaceholder = !lock.contains node.id := by
  have hmem : id ∈ g.ids := (h.mem_ids_iff id).mpr (Or.inl (Lock.contains_iff.mp hid))
  obtain ⟨tree, htrace, ascends, found, hkeys⟩ := h.wellFormed.trace_eq hmem
  refine ⟨tree, htrace, ascends.nodup, fun other => ?_, fun node hnode => ?_⟩
  · rw [hkeys, h.transGen_iff]
  · have hfind := found node hnode
    exact h.isPlaceholder_eq (h.wellFormed.indexed.find?_eq_some_iff.mp hfind).1

end Graph

end PackageLock
