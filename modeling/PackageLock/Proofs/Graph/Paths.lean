import Mathlib.Data.List.Chain
import Mathlib.Data.List.Sort
import PackageLock.Graph.Tree
import PackageLock.Proofs.Graph.Listing

/-!
# Paths

A path from a node is told by the nodes that it comes to, one after the other. Told in this way, paths
have an order, that of lists: a path stands before those that begin with it, and of two that part, the
one comes first that goes on to the lesser node. In this order a depth-first search finds them that takes
siblings in ascending order (`WellFormed.pairwise_pathsWithin`). In a well-formed graph a path has fewer
arrows than the graph has nodes (`WellFormed.length_lt`), so there is a list of all of them
(`WellFormed.mem_paths`). Where they end is where one or more arrows lead to (`exists_isPath_iff`).
-/

set_option autoImplicit false

open Relation (TransGen)

namespace PackageLock

namespace Graph

variable {g : Graph} {id child : String} {path : List String} {n : Nat}

/-! ## Children -/

/-- The children of a node are the targets of its arrows. -/
theorem mem_children : child ∈ g.children id ↔ g.Arrow id child := by
  simp only [children, List.mem_map, mem_dependenciesOf, Arrow, and_assoc]

/-- Children stand in ascending order, each once. -/
theorem WellFormed.pairwise_children (h : g.WellFormed) (id : String) :
    (g.children id).Pairwise (· < ·) := by
  rw [children, h.map_target_dependenciesOf fun target => mem_successors]
  exact pairwise_ascending _

/-! ## Paths by their length -/

/-- Arrows lead from `id` to the first node of the path and from each of its nodes to the next; there is
at least one. -/
def IsPath (g : Graph) (id : String) (path : List String) : Prop :=
  path ≠ [] ∧ (id :: path).IsChain g.Arrow

/-- A path goes one arrow and then ends, or it goes on from there. -/
theorem isPath_cons :
    g.IsPath id (child :: path) ↔ g.Arrow id child ∧ (path = [] ∨ g.IsPath child path) := by
  simp only [IsPath, List.isChain_cons_cons]
  cases path with
  | nil => simp
  | cons next path => simp

/-- The paths from `id` of at most `n` arrows. -/
def pathsWithin (g : Graph) : (n : Nat) → (id : String) → List (List String)
  | 0, _ => []
  | n + 1, id => (g.children id).flatMap fun child => [child] :: (g.pathsWithin n child).map (child :: ·)

/-- The paths within a bound are those that are no longer. -/
theorem mem_pathsWithin : path ∈ g.pathsWithin n id ↔ g.IsPath id path ∧ path.length ≤ n := by
  induction n generalizing id path with
  | zero =>
    simp only [pathsWithin, List.not_mem_nil, false_iff]
    rintro ⟨⟨nonempty, _⟩, short⟩
    exact nonempty (List.length_eq_zero_iff.mp (Nat.le_zero.mp short))
  | succ n ih =>
    simp only [pathsWithin, List.mem_flatMap, List.mem_cons, List.mem_map, mem_children]
    constructor
    · rintro ⟨child, arrow, rfl | ⟨rest, hrest, rfl⟩⟩
      · exact ⟨isPath_cons.mpr ⟨arrow, Or.inl rfl⟩, Nat.succ_le_succ (Nat.zero_le n)⟩
      · obtain ⟨isPath, short⟩ := ih.mp hrest
        exact ⟨isPath_cons.mpr ⟨arrow, Or.inr isPath⟩, Nat.succ_le_succ short⟩
    · rintro ⟨isPath, short⟩
      cases path with
      | nil => exact absurd rfl isPath.1
      | cons child rest =>
        obtain ⟨arrow, rfl | isPath⟩ := isPath_cons.mp isPath
        · exact ⟨child, arrow, Or.inl rfl⟩
        · exact ⟨child, arrow, Or.inr ⟨rest, ih.mpr ⟨isPath, Nat.le_of_succ_le_succ short⟩, rfl⟩⟩

/-- Every path goes one arrow at least. -/
theorem exists_cons_of_mem_pathsWithin (hpath : path ∈ g.pathsWithin n id) :
    ∃ child rest, path = child :: rest :=
  List.exists_cons_of_ne_nil (mem_pathsWithin.mp hpath).1.1

/-- They are listed in ascending order. -/
theorem WellFormed.pairwise_pathsWithin (h : g.WellFormed) (n : Nat) (id : String) :
    (g.pathsWithin n id).Pairwise (· < ·) := by
  induction n generalizing id with
  | zero => exact List.Pairwise.nil
  | succ n ih =>
    refine List.pairwise_flatMap.mpr ⟨fun child _ => ?_, (h.pairwise_children id).imp ?_⟩
    · refine List.pairwise_cons.mpr ⟨fun path hpath => ?_, ?_⟩
      · -- what goes on from the child comes after the child itself
        obtain ⟨rest, hrest, rfl⟩ := List.mem_map.mp hpath
        obtain ⟨next, rest, rfl⟩ := exists_cons_of_mem_pathsWithin hrest
        exact List.cons_lt_cons_self.mpr (List.nil_lt_cons next rest)
      · exact List.pairwise_map.mpr ((ih child).imp List.cons_lt_cons_self.mpr)
    · -- all paths over the lesser child come before those over the greater one
      intro a b hab
      have begins {child : String} {path : List String}
          (hpath : path ∈ [child] :: (g.pathsWithin n child).map (child :: ·)) :
          ∃ rest, path = child :: rest := by
        rcases List.mem_cons.mp hpath with rfl | hpath
        · exact ⟨[], rfl⟩
        · obtain ⟨rest, _, rfl⟩ := List.mem_map.mp hpath
          exact ⟨rest, rfl⟩
      intro x hx y hy
      obtain ⟨_, rfl⟩ := begins hx
      obtain ⟨_, rfl⟩ := begins hy
      exact List.cons_lt_cons_iff.mpr (Or.inl hab)

/-! ## All paths -/

/-- A path without a cycle comes to fewer nodes than there are. -/
theorem WellFormed.length_lt (h : g.WellFormed) (isPath : g.IsPath id path) :
    path.length < g.nodes.length := by
  obtain ⟨nonempty, chain⟩ := isPath
  have ordered : (id :: path).Pairwise (TransGen g.Arrow) :=
    List.isChain_iff_pairwise.mp (chain.imp fun _ _ => TransGen.single)
  have nodup : (id :: path).Nodup := by
    refine ordered.imp fun {a b} leads same => ?_
    rw [same] at leads
    exact h.acyclic b leads
  have nodes : id :: path ⊆ g.ids := by
    intro a ha
    rcases List.mem_cons.mp ha with rfl | ha
    · obtain ⟨next, rest, rfl⟩ := List.exists_cons_of_ne_nil nonempty
      obtain ⟨e, he, rfl, _⟩ := (List.isChain_cons_cons.mp chain).1
      exact h.source_mem e he
    · obtain ⟨before, _, last⟩ := TransGen.tail'_iff.mp ((List.pairwise_cons.mp ordered).1 a ha)
      exact h.closed before a last
  have hle : (id :: path).length ≤ g.ids.length := (List.subperm_of_subset nodup nodes).length_le
  rwa [ids, List.length_map, List.length_cons] at hle

/-- The paths from `id`. -/
def paths (g : Graph) (id : String) : List (List String) :=
  g.pathsWithin g.nodes.length id

/-- In a well-formed graph all paths are listed. -/
theorem WellFormed.mem_paths (h : g.WellFormed) : path ∈ g.paths id ↔ g.IsPath id path := by
  rw [paths, mem_pathsWithin]
  exact and_iff_left_of_imp fun isPath => (h.length_lt isPath).le

/-- Of all paths, those of at most `n` arrows stand in the same order. -/
theorem WellFormed.pathsWithin_eq_filter (h : g.WellFormed) (n : Nat) (id : String) :
    g.pathsWithin n id = (g.paths id).filter (·.length ≤ n) := by
  refine (h.pairwise_pathsWithin n id).eq_of_mem_iff ((h.pairwise_pathsWithin _ id).filter _) ?_
  intro path
  rw [List.mem_filter, h.mem_paths, mem_pathsWithin, decide_eq_true_iff]

/-- Where one or more arrows lead to is where a path ends. -/
theorem exists_isPath_iff {key : String} :
    (∃ path, g.IsPath id path ∧ path.getLast? = some key) ↔ TransGen g.Arrow id key := by
  constructor
  · rintro ⟨path, isPath, last⟩
    have ordered : (id :: path).Pairwise (TransGen g.Arrow) :=
      List.isChain_iff_pairwise.mp (isPath.2.imp fun _ _ => TransGen.single)
    exact (List.pairwise_cons.mp ordered).1 key (List.mem_of_getLast? last)
  · intro leads
    induction leads using TransGen.head_induction_on with
    | single arrow => exact ⟨[key], isPath_cons.mpr ⟨arrow, Or.inl rfl⟩, rfl⟩
    | @head id child arrow _ ih =>
      obtain ⟨path, isPath, last⟩ := ih
      obtain ⟨next, rest, rfl⟩ := List.exists_cons_of_ne_nil isPath.1
      exact ⟨child :: next :: rest, isPath_cons.mpr ⟨arrow, Or.inr isPath⟩, last⟩

end Graph

end PackageLock
