import PackageLock.Lock.Basic

/-!
# Dependency graphs

A node of the graph stands for a package: an installed one, with its entry in the lock, or one that is
only declared as a dependency, a placeholder. An edge leads from a package to one it declares and
carries what it asks of it. Nodes stand in the order in which they came in; they are addressed by their
identifiers, and no two of them share one. An index tells where the node of an identifier stands.
-/

set_option autoImplicit false

namespace PackageLock

/-- A node of the dependency graph. -/
inductive Node where
  /-- An installed package. -/
  | resolved (package : Package)
  /-- A package that is declared and not installed, as the first declaration has it. -/
  | placeholder (dependency : Dependency)
  deriving DecidableEq, Repr

namespace Node

/-- The identifier of the package. -/
def id : Node → String
  | .resolved package => package.source
  | .placeholder dependency => dependency.package

/-- The installed version. -/
def version? : Node → Option String
  | .resolved package => some package.version
  | .placeholder _ => none

/-- The dependencies that the package declares; nothing is known of those of a placeholder. -/
def dependencies : Node → List Dependency
  | .resolved package => package.dependencies
  | .placeholder _ => []

/-- Whether the package is only declared. -/
def isPlaceholder : Node → Bool
  | .resolved _ => false
  | .placeholder _ => true

/-- How a node is shown. -/
def display : Node → String
  | .resolved package =>
    if package.version = "" then package.source else package.source ++ ":" ++ package.version
  | .placeholder dependency => dependency.package ++ " (missing)"

end Node

/-- An edge of the dependency graph, from the package `source` to the package `target`. -/
structure Edge where
  source : String
  target : String
  kind : PackageKind
  version : Option String
  deriving DecidableEq, Repr

/-- Why a graph cannot be built, changed or asked. -/
inductive GraphError where
  | duplicateNode (id : String)
  | nodeNotFound (id : String)
  /-- The edge would close a cycle. -/
  | cycle (source target : String)
  /-- The dependencies of a node cannot be told. -/
  | link (id message : String)
  deriving DecidableEq, Repr

namespace GraphError

/-- The wording of the error. -/
def message : GraphError → String
  | .duplicateNode id => "node " ++ id ++ " already exists"
  | .nodeNotFound id => "node " ++ id ++ " not found"
  | .cycle source target =>
    "dependency " ++ source ++ " -> " ++ target ++ " would introduce a cycle"
  | .link id message => "cannot link node " ++ id ++ ": " ++ message

/-- What may be done about the error. -/
def help? : GraphError → Option String
  | .cycle _ _ => some "the lock or package metadata declares a circular dependency"
  | _ => none

end GraphError

/-- A dependency graph. -/
structure Graph where
  nodes : List Node
  edges : List Edge
  /-- The places of the nodes by their identifiers; of several for one identifier the first counts. -/
  index : List (String × Nat)
  deriving DecidableEq, Repr

namespace Graph

/-- The graph without nodes. -/
def empty : Graph := ⟨[], [], []⟩

/-- The identifiers of the nodes, in the order of the nodes. -/
def ids (g : Graph) : List String :=
  g.nodes.map Node.id

/-- The place of the node for `id` among the nodes, as the index has it. -/
def position? (g : Graph) (id : String) : Option Nat :=
  g.index.lookup id

/-- Whether there is a node for `id`. -/
def contains (g : Graph) (id : String) : Bool :=
  (g.position? id).isSome

/-- The node for `id`. -/
def find? (g : Graph) (id : String) : Option Node :=
  (g.position? id).bind fun place => g.nodes[place]?

/-- The node for `id`, which has to be there. -/
def node (g : Graph) (id : String) : Except GraphError Node :=
  match g.find? id with
  | some node => .ok node
  | none => .error (.nodeNotFound id)

/-- Nodes in ascending order of their identifiers. -/
def sortNodes (nodes : List Node) : List Node :=
  nodes.mergeSort fun a b => a.id ≤ b.id

/-- The placeholders, in ascending order. -/
def placeholders (g : Graph) : List Node :=
  sortNodes (g.nodes.filter Node.isPlaceholder)

/-- Whether an edge leads from `source` to `target`. -/
def hasEdge (g : Graph) (source target : String) : Bool :=
  g.edges.any fun e => e.source == source && e.target == target

/-- The edges that leave `id`, in ascending order of their targets. -/
def dependenciesOf (g : Graph) (id : String) : List Edge :=
  (g.edges.filter (·.source == id)).mergeSort fun a b => a.target ≤ b.target

/-- The nodes from which an edge leads to `id`, in ascending order. -/
def dependentsOf (g : Graph) (id : String) : List Node :=
  sortNodes (g.nodes.filter fun node => g.hasEdge node.id id)

/-- The ends of the edges that leave `id`. -/
def successors (g : Graph) (id : String) : List String :=
  (g.edges.filter (·.source == id)).map (·.target)

end Graph

/-! ## Reachability

What can be reached from a node by following edges. The search keeps the nodes it has not come to yet,
and takes a node from them whenever it comes to one for the first time; this is why it ends on any
graph.
-/

/-- The members of `unvisited` that are reached from `pending`, in the order of a depth-first search
that follows `next`. -/
def visit {α : Type} [DecidableEq α] (next : α → List α) (unvisited pending : List α) : List α :=
  match pending with
  | [] => []
  | a :: pending =>
    if a ∈ unvisited then a :: visit next (unvisited.erase a) (next a ++ pending)
    else visit next unvisited pending
termination_by (unvisited.length, pending.length)
decreasing_by
  · rename_i h
    have := List.length_erase_of_mem h
    have := List.length_pos_of_mem h
    apply Prod.Lex.left
    omega
  · apply Prod.Lex.right
    simp

namespace Graph

/-- The identifiers reached from `id` by zero or more edges. -/
def reachable (g : Graph) (id : String) : List String :=
  visit g.successors g.ids [id]

/-- Whether zero or more edges lead from `source` to `target`. -/
def reaches (g : Graph) (source target : String) : Bool :=
  (g.reachable source).contains target

/-- The nodes reached from `id`, itself left out, in ascending order. -/
def trace (g : Graph) (id : String) : Except GraphError (List Node) :=
  if g.contains id then
    let reached := g.reachable id
    .ok (sortNodes (g.nodes.filter fun node => node.id != id && reached.contains node.id))
  else .error (.nodeNotFound id)

end Graph

end PackageLock
