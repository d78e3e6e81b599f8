import Mathlib.Data.List.Nodup
import PackageLock.Graph.Tree
import PackageLock.Proofs.Graph.WellFormed

/-!
# Drawing in one traversal

A tree can be drawn line by line while the graph is traversed. Such a traversal keeps one list of the
nodes that it has entered and not left yet, and hands it on from each node to the next (`Draws`). It comes
to one result (`Draws.unique`). Main statement: on every graph that has nodes at the ends of its edges it
ends, with the lines of the tree, and every node that it has entered is left again (`draws_tree`).
-/

set_option autoImplicit false

namespace PackageLock

/-! ## Lines of a tree -/

namespace Tree

/-- What stands before the label of a node. -/
def connector (last : Bool) : String :=
  if last then "└── " else "├── "

/-- What a node puts before the lines that are below it. -/
def column (last : Bool) : String :=
  if last then "    " else "│   "

/-- Trees beside each other are drawn one after the other, and only the last of them with the connector of
the last. -/
theorem linesBeside_cons (indent : String) (tree : Tree) (trees : List Tree) :
    linesBeside indent (tree :: trees) =
      (indent ++ connector trees.isEmpty ++ tree.label) ::
        (linesBelow (indent ++ column trees.isEmpty) tree ++ linesBeside indent trees) := by
  cases trees with
  | nil => simp [linesBeside, connector, column]
  | cons next trees => simp [linesBeside, connector, column]

end Tree

namespace Graph

variable {g : Graph} {limit : Option Nat} {available : List String} {depth : Nat} {id : String}

/-- The label of an unfolded tree is that of its package. -/
@[simp] theorem label_unfold : (g.unfold limit available depth id).label = g.labelOf id := by
  unfold unfold
  split
  · rfl
  · split <;> rfl

/-- At the limit nothing is unfolded. -/
theorem unfold_of_limit (reached : isLimit limit depth = true) :
    g.unfold limit available depth id = .node (g.labelOf id) [] := by
  rw [unfold, if_pos reached]

/-- What has been met on the way is not unfolded again. -/
theorem unfold_of_notMem (taken : id ∉ available) :
    g.unfold limit available depth id = .node (g.labelOf id) [] := by
  rw [unfold, dif_neg taken, ite_self]

/-- Before the limit, what has not been met is unfolded child by child. -/
theorem unfold_of_mem (goesOn : isLimit limit depth = false) (free : id ∈ available) :
    g.unfold limit available depth id = .node (g.labelOf id)
      ((g.children id).map (g.unfold limit (available.erase id) (depth + 1))) := by
  rw [unfold, if_neg (Bool.eq_false_iff.mp goesOn), dif_pos free]

/-! ## The traversal -/

/-- A traversal draws the siblings `ids` at `depth`, each with what is below it. It comes to them with the
nodes `entered` and goes on with the nodes `after`. A node that is at the limit or has been entered is
drawn alone; any other is entered, its children are drawn, and it is left. -/
inductive Draws (g : Graph) (limit : Option Nat) :
    (depth : Nat) → (indent : String) → (entered ids lines after : List String) → Prop where
  | done {depth : Nat} {indent : String} {entered : List String} :
      Draws g limit depth indent entered [] [] entered
  | alone {depth : Nat} {indent id : String} {entered ids lines after : List String}
      (stops : isLimit limit depth = true ∨ id ∈ entered)
      (others : Draws g limit depth indent entered ids lines after) :
      Draws g limit depth indent entered (id :: ids)
        ((indent ++ Tree.connector ids.isEmpty ++ g.labelOf id) :: lines) after
  | enter {depth : Nat} {indent id : String} {entered ids below inside lines after : List String}
      (goesOn : isLimit limit depth = false) (fresh : id ∉ entered)
      (children : Draws g limit (depth + 1) (indent ++ Tree.column ids.isEmpty) (id :: entered)
        (g.children id) below inside)
      (others : Draws g limit depth indent (inside.erase id) ids lines after) :
      Draws g limit depth indent entered (id :: ids)
        ((indent ++ Tree.connector ids.isEmpty ++ g.labelOf id) :: (below ++ lines)) after

/-- A traversal has one result at most. -/
theorem Draws.unique {indent : String} {entered ids lines lines' after after' : List String}
    (h : g.Draws limit depth indent entered ids lines after)
    (h' : g.Draws limit depth indent entered ids lines' after') : lines = lines' ∧ after = after' := by
  induction h generalizing lines' after' with
  | done =>
    cases h'
    exact ⟨rfl, rfl⟩
  | alone stops _ ih =>
    cases h' with
    | alone _ others =>
      obtain ⟨rfl, rfl⟩ := ih others
      exact ⟨rfl, rfl⟩
    | enter goesOn fresh =>
      rcases stops with reached | taken
      · rw [goesOn] at reached
        cases reached
      · exact absurd taken fresh
  | enter goesOn fresh _ _ ihChildren ih =>
    cases h' with
    | alone stops =>
      rcases stops with reached | taken
      · rw [goesOn] at reached
        cases reached
      · exact absurd taken fresh
    | enter _ _ children others =>
      obtain ⟨rfl, rfl⟩ := ihChildren children
      obtain ⟨rfl, rfl⟩ := ih others
      exact ⟨rfl, rfl⟩

/-- The nodes that a traversal may still enter are those that the unfolding has available: it comes back
from siblings with the nodes with which it has come to them. -/
theorem draws_linesBeside (closed : ∀ id, ∀ child ∈ g.children id, child ∈ g.ids)
    {entered ids : List String} (indent : String) (nodup : available.Nodup)
    (mem_available : ∀ key, key ∈ available ↔ key ∈ g.ids ∧ key ∉ entered)
    (nodes : ∀ id ∈ ids, id ∈ g.ids) :
    g.Draws limit depth indent entered ids
      (Tree.linesBeside indent (ids.map (g.unfold limit available depth))) entered := by
  -- first by the number of available nodes, which are fewer below a node, and then sibling by sibling
  induction hlength : available.length using Nat.strongRecOn
    generalizing available depth indent entered ids with
  | _ length ihBelow =>
    induction ids with
    | nil => exact Draws.done
    | cons id ids ihBeside =>
      have others := ihBeside fun other hother => nodes other (List.mem_cons_of_mem id hother)
      have hempty : (ids.map (g.unfold limit available depth)).isEmpty = ids.isEmpty := by
        cases ids <;> rfl
      rw [List.map_cons, Tree.linesBeside_cons, label_unfold, hempty]
      cases hlimit : isLimit limit depth with
      | true =>
        rw [unfold_of_limit hlimit]
        exact Draws.alone (Or.inl hlimit) others
      | false =>
        by_cases free : id ∈ available
        · have left : (available.erase id).length < length := by
            rw [← hlength, List.length_erase_of_mem free]
            exact Nat.sub_lt (List.length_pos_of_mem free) Nat.one_pos
          have fresh : id ∉ entered := ((mem_available id).mp free).2
          have mem_erase (key : String) :
              key ∈ available.erase id ↔ key ∈ g.ids ∧ key ∉ id :: entered := by
            rw [nodup.mem_erase_iff, mem_available, List.mem_cons, not_or]
            exact and_left_comm
          have below : g.Draws limit (depth + 1) (indent ++ Tree.column ids.isEmpty) (id :: entered)
              (g.children id) (Tree.linesBeside (indent ++ Tree.column ids.isEmpty)
                ((g.children id).map (g.unfold limit (available.erase id) (depth + 1))))
              (id :: entered) :=
            ihBelow _ left _ (nodup.erase id) mem_erase (closed id) rfl
          rw [unfold_of_mem hlimit free]
          refine Draws.enter hlimit fresh below ?_
          rwa [List.erase_cons_head]
        · have taken : id ∈ entered := by
            by_contra fresh
            exact free ((mem_available id).mpr ⟨nodes id List.mem_cons_self, fresh⟩)
          rw [unfold_of_notMem free]
          exact Draws.alone (Or.inr taken) others

/-- A traversal from a node draws the tree below it, and nothing but the node has been entered
afterwards. -/
theorem draws_tree (nodup : g.ids.Nodup) (closed : ∀ id, ∀ child ∈ g.children id, child ∈ g.ids)
    (limit : Option Nat) (id : String) {lines after : List String} :
    g.Draws limit 1 "" [id] (g.children id) lines after ↔
      lines = (g.tree id limit).linesBelow "" ∧ after = [id] := by
  have draws : g.Draws limit 1 "" [id] (g.children id) ((g.tree id limit).linesBelow "") [id] := by
    refine draws_linesBeside closed "" (nodup.erase id) (fun key => ?_) (closed id)
    rw [nodup.mem_erase_iff, List.mem_singleton]
    exact and_comm
  constructor
  · exact fun h => h.unique draws
  · rintro ⟨rfl, rfl⟩
    exact draws

end Graph

end PackageLock
