import Mathlib.Logic.Relation
import PackageLock.Graph.Basic
import PackageLock.Proofs.Graph.Index

/-!
# What the depth-first search finds

An arrow is an edge without what it carries. Following arrows is the reflexive and transitive closure
of the relation, and the search computes it: `reaches_iff` says so of any graph whose arrows end at
nodes. A trace lists what is reached, the start left out (`trace_eq_ok`).
-/

set_option autoImplicit false

open Relation (ReflTransGen TransGen)

namespace PackageLock

/-! ## The search -/

/-- `b` is reached from `a` by steps to members of `allowed` only. -/
def Within {α : Type} (next : α → List α) (allowed : List α) : α → α → Prop :=
  ReflTransGen fun a b => b ∈ next a ∧ b ∈ allowed

/-- What may be stepped on may grow. -/
theorem Within.mono {α : Type} {next : α → List α} {few many : List α} (h : few ⊆ many) {a b : α}
    (path : Within next few a b) : Within next many a b :=
  ReflTransGen.mono (fun _ _ step => ⟨step.1, h step.2⟩) a b path

section Search

variable {α : Type} [DecidableEq α]

/-- A path that does not end at `a` does without `a` from the start on or from one step behind `a` on:
the step taken after its last visit of `a`. -/
theorem Within.avoid {next : α → List α} {allowed : List α} {a p x : α}
    (path : Within next allowed p x) (hx : x ≠ a) :
    p ≠ a ∧ Within next (allowed.erase a) p x ∨
      ∃ q ∈ next a, q ∈ allowed.erase a ∧ Within next (allowed.erase a) q x := by
  -- the path is followed to its end: whenever it comes from `a`, what lies before is forgotten
  induction path with
  | refl => exact Or.inl ⟨hx, ReflTransGen.refl⟩
  | @tail y z _ step ih =>
    have hz : z ∈ allowed.erase a := (List.mem_erase_of_ne hx).mpr step.2
    by_cases hy : y = a
    · subst hy
      exact Or.inr ⟨z, step.1, hz, ReflTransGen.refl⟩
    · rcases ih hy with ⟨hp, path⟩ | ⟨q, hq, hmem, path⟩
      · exact Or.inl ⟨hp, path.tail ⟨step.1, hz⟩⟩
      · exact Or.inr ⟨q, hq, hmem, path.tail ⟨step.1, hz⟩⟩

/-- The search visits what can be reached from a pending member by way of unvisited ones. -/
theorem mem_visit {next : α → List α} {unvisited pending : List α} {x : α} :
    x ∈ visit next unvisited pending ↔
      ∃ p ∈ pending, p ∈ unvisited ∧ Within next unvisited p x := by
  fun_induction visit next unvisited pending with
  | case1 unvisited => simp
  | case2 unvisited a pending ha ih =>
    rw [List.mem_cons, ih]
    have hsub : unvisited.erase a ⊆ unvisited := List.erase_subset
    constructor
    · rintro (rfl | ⟨p, hp, hmem, path⟩)
      · exact ⟨x, List.mem_cons_self, ha, ReflTransGen.refl⟩
      · rcases List.mem_append.mp hp with hp | hp
        · exact ⟨a, List.mem_cons_self, ha,
            ReflTransGen.head ⟨hp, hsub hmem⟩ (path.mono hsub)⟩
        · exact ⟨p, List.mem_cons_of_mem a hp, hsub hmem, path.mono hsub⟩
    · rintro ⟨p, hp, hmem, path⟩
      by_cases hx : x = a
      · exact Or.inl hx
      · -- `a` is visited now, so the path has to do without it from here on
        right
        rcases path.avoid hx with ⟨hpa, hpath⟩ | ⟨q, hq, hqmem, hqpath⟩
        · have hpending := (List.mem_cons.mp hp).resolve_left hpa
          exact ⟨p, List.mem_append_right _ hpending, (List.mem_erase_of_ne hpa).mpr hmem, hpath⟩
        · exact ⟨q, List.mem_append_left _ hq, hqmem, hqpath⟩
  | case3 unvisited a pending ha ih =>
    rw [ih]
    constructor
    · rintro ⟨p, hp, rest⟩
      exact ⟨p, List.mem_cons_of_mem a hp, rest⟩
    · rintro ⟨p, hp, hmem, path⟩
      rcases List.mem_cons.mp hp with rfl | hp
      · exact absurd hmem ha
      · exact ⟨p, hp, hmem, path⟩

end Search

namespace Graph

/-! ## Arrows -/

/-- An edge leads from `source` to `target`. -/
def Arrow (g : Graph) (source target : String) : Prop :=
  ∃ e ∈ g.edges, e.source = source ∧ e.target = target

/-- There is an edge where there is an arrow. -/
theorem hasEdge_iff {g : Graph} {source target : String} :
    g.hasEdge source target = true ↔ g.Arrow source target := by
  simp [hasEdge, Arrow]

/-- The successors of a node are the targets of its arrows. -/
theorem mem_successors {g : Graph} {source target : String} :
    target ∈ g.successors source ↔ g.Arrow source target := by
  simp only [successors, Arrow, List.mem_map, List.mem_filter, beq_iff_eq]
  constructor
  · rintro ⟨e, ⟨he, hs⟩, ht⟩
    exact ⟨e, he, hs, ht⟩
  · rintro ⟨e, he, hs, ht⟩
    exact ⟨e, ⟨he, hs⟩, ht⟩

/-- Where arrows end at nodes, keeping to the nodes is no restriction. -/
theorem within_ids_iff {g : Graph} (closed : ∀ a b, g.Arrow a b → b ∈ g.ids) {a b : String} :
    Within g.successors g.ids a b ↔ ReflTransGen g.Arrow a b := by
  have step (a b : String) : b ∈ g.successors a ∧ b ∈ g.ids ↔ g.Arrow a b := by
    rw [mem_successors]
    exact ⟨And.left, fun h => ⟨h, closed a b h⟩⟩
  constructor
  · exact ReflTransGen.mono (fun a b => (step a b).mp) a b
  · exact ReflTransGen.mono (fun a b => (step a b).mpr) a b

/-- The search from a node finds exactly what arrows lead to from there. -/
theorem mem_reachable {g : Graph} (closed : ∀ a b, g.Arrow a b → b ∈ g.ids) {a b : String} :
    b ∈ g.reachable a ↔ a ∈ g.ids ∧ ReflTransGen g.Arrow a b := by
  rw [reachable, mem_visit, ← within_ids_iff closed]
  simp

/-- The test for a path is exact. -/
theorem reaches_iff {g : Graph} (closed : ∀ a b, g.Arrow a b → b ∈ g.ids) {a b : String} :
    g.reaches a b = true ↔ a ∈ g.ids ∧ ReflTransGen g.Arrow a b := by
  rw [reaches, List.contains_iff_mem, mem_reachable closed]

/-! ## Tracing nodes -/

/-- Sorting nodes keeps each of them. -/
theorem perm_sortNodes (nodes : List Node) : (sortNodes nodes).Perm nodes :=
  List.mergeSort_perm nodes _

/-- A trace has the nodes that arrows lead to from its start, the start left out. -/
theorem trace_eq_ok {g : Graph} (closed : ∀ a b, g.Arrow a b → b ∈ g.ids) (indexed : g.Indexed)
    {id : String} (hid : id ∈ g.ids) :
    ∃ nodes, g.trace id = .ok nodes ∧
      ∀ node, node ∈ nodes ↔ node ∈ g.nodes ∧ node.id ≠ id ∧ ReflTransGen g.Arrow id node.id := by
  refine ⟨_, by rw [trace, if_pos (indexed.contains_iff.mpr hid)], fun node => ?_⟩
  rw [(perm_sortNodes _).mem_iff, List.mem_filter]
  simp only [Bool.and_eq_true, bne_iff_ne, List.contains_iff_mem, mem_reachable closed]
  simp [hid]

end Graph

end PackageLock
