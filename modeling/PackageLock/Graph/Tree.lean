import PackageLock.Graph.Basic

/-!
# Dependency trees

The dependencies of a package drawn as a tree. A package that several others need is shown below each of
them. Unfolding a graph stops at a package that stands above itself already, so that it ends on any
graph; in one without cycles this never happens.
-/

set_option autoImplicit false

namespace PackageLock

/-- A tree of labels. -/
inductive Tree where
  | node (label : String) (children : List Tree)

namespace Tree

/-- The label at the root. -/
def label : Tree → String
  | .node label _ => label

mutual

/-- The lines below the root of a tree, each after `indent`. -/
def linesBelow (indent : String) : Tree → List String
  | .node _ children => linesBeside indent children

/-- The lines of trees that share a parent, each after `indent`. -/
def linesBeside (indent : String) : List Tree → List String
  | [] => []
  | [tree] => (indent ++ "└── " ++ tree.label) :: linesBelow (indent ++ "    ") tree
  | tree :: next :: trees =>
    (indent ++ "├── " ++ tree.label) ::
      (linesBelow (indent ++ "│   ") tree ++ linesBeside indent (next :: trees))

end

/-- The lines of a tree. -/
def lines (tree : Tree) : List String :=
  tree.label :: tree.linesBelow ""

end Tree

namespace Graph

/-- The label of a node in a tree. -/
def labelOf (g : Graph) (id : String) : String :=
  (g.find? id).elim id Node.display

/-- The children of a node in a tree, in ascending order. -/
def children (g : Graph) (id : String) : List String :=
  (g.dependenciesOf id).map (·.target)

/-- Whether a node at `depth` may not have children in a tree with this limit. -/
def isLimit (limit : Option Nat) (depth : Nat) : Bool :=
  limit.any (· ≤ depth)

/-- The tree below a node at `depth`. The nodes that do not stand above it are `available`. -/
def unfold (g : Graph) (limit : Option Nat) (available : List String) (depth : Nat) (id : String) :
    Tree :=
  if isLimit limit depth then .node (g.labelOf id) []
  else if _h : id ∈ available then
    .node (g.labelOf id)
      ((g.children id).map fun child => g.unfold limit (available.erase id) (depth + 1) child)
  else .node (g.labelOf id) []
termination_by available.length
decreasing_by
  have := List.length_erase_of_mem _h
  have := List.length_pos_of_mem _h
  omega

/-- The tree of a node with everything below it, as far as the limit allows; the children of the root
are in it whatever the limit is. -/
def tree (g : Graph) (id : String) (limit : Option Nat) : Tree :=
  .node (g.labelOf id) ((g.children id).map fun child => g.unfold limit (g.ids.erase id) 1 child)

/-- The tree of a node as text, one line for each node; nothing if there is no such node. -/
def drawTree (g : Graph) (id : String) (limit : Option Nat) : String :=
  if g.contains id then String.join ((g.tree id limit).lines.map (· ++ "\n")) else ""

end Graph

end PackageLock
