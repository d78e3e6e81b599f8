import PackageLock.Event
import PackageLock.Graph.Basic

/-!
# Building graphs

A graph is built, and changed later, edge by edge. The target of an edge is created as a placeholder
when there is no node for it yet, and an edge that would close a cycle is refused, so that a graph never
has one. Work that is refused stops where it is: what has been done up to then stays done.
-/

set_option autoImplicit false

namespace PackageLock

/-- A graph at work, with the placeholders created since the work began. -/
structure Construction where
  graph : Graph
  created : List Node
  deriving DecidableEq, Repr

/-- Work on a graph. -/
abbrev Build := EStateM GraphError Construction

/-- Tells which dependencies a node has, given its position among the nodes. -/
abbrev Linker := Nat → Node → Except GraphError (List Dependency)

/-- A node has the dependencies that its package declares. -/
def Linker.declared : Linker := fun _ node => .ok node.dependencies

namespace Graph

/-- The graph with a node more. -/
def addNode (g : Graph) (node : Node) : Graph :=
  { g with nodes := g.nodes ++ [node], index := (node.id, g.nodes.length) :: g.index }

/-- The graph with `node` in the place of the node of the same identifier. -/
def replaceNode (g : Graph) (node : Node) : Graph :=
  match g.position? node.id with
  | some place => { g with nodes := g.nodes.set place node }
  | none => g

/-- The graph with an edge for a dependency. Of several dependencies on one package only the first has
an edge. -/
def addEdge (g : Graph) (source : String) (dependency : Dependency) : Graph :=
  if g.hasEdge source dependency.package then g
  else { g with edges := g.edges ++ [⟨source, dependency.package, dependency.kind,
    dependency.version⟩] }

/-- The graph without the edges that leave `id`. -/
def dropEdges (g : Graph) (id : String) : Graph :=
  { g with edges := g.edges.filter (·.source != id) }

end Graph

namespace Construction

/-- Work that begins on a graph. -/
def on (g : Graph) : Construction := ⟨g, []⟩

/-- The construction after a change of its graph. -/
def modify (change : Graph → Graph) (c : Construction) : Construction :=
  { c with graph := change c.graph }

/-- Makes sure that there is a node for the package of a dependency. -/
def ensure (c : Construction) (dependency : Dependency) : Construction :=
  if c.graph.contains dependency.package then c
  else ⟨c.graph.addNode (.placeholder dependency), c.created ++ [.placeholder dependency]⟩

end Construction

namespace Build

/-- Adds a node that is not there yet. -/
def insert (node : Node) : Build Unit := fun c =>
  if c.graph.contains node.id then .error (.duplicateNode node.id) c
  else .ok () (c.modify (·.addNode node))

/-- Adds an edge from `source` to the package of a dependency. -/
def link (source : String) (dependency : Dependency) : Build Unit := fun c =>
  let c := c.ensure dependency
  if source = dependency.package || c.graph.reaches dependency.package source then
    .error (.cycle source dependency.package) c
  else .ok () (c.modify (·.addEdge source dependency))

/-- Adds an edge for each of the dependencies. -/
def linkAll (source : String) (dependencies : List Dependency) : Build Unit :=
  dependencies.forM (link source)

/-- Adds the edges of one node that one linker tells. -/
def linkBy (position : Nat) (node : Node) (linker : Linker) : Build Unit :=
  match linker position node with
  | .ok dependencies => linkAll node.id dependencies
  | .error e => throw e

/-- Adds the edges of all nodes, the first of which has the given position. -/
def linkNodes (linkers : List Linker) : (position : Nat) → List Node → Build Unit
  | _, [] => pure ()
  | position, node :: nodes => do
    linkers.forM (linkBy position node)
    linkNodes linkers (position + 1) nodes

/-- Builds a graph of nodes: all of them first, then their edges. -/
def init (nodes : List Node) (linkers : List Linker) : Build Unit := do
  nodes.forM insert
  linkNodes linkers 0 nodes

/-- Replaces a node or adds it, and then its edges by those that it declares. -/
def put (node : Node) : Build Unit := do
  modify fun c => c.modify fun g =>
    (if g.contains node.id then g.replaceNode node else g.addNode node).dropEdges node.id
  linkAll node.id node.dependencies

/-- Replaces or adds nodes one by one. -/
def upsert (nodes : List Node) : Build Unit :=
  nodes.forM put

end Build

namespace Graph

/-- What has come of work on a graph: the graph, also if the work has been refused, and the
placeholders created on the way if it has not. -/
def perform (g : Graph) (work : Build Unit) : Graph × Except GraphError (List Node) :=
  match work.run (.on g) with
  | .ok _ c => (c.graph, .ok c.created)
  | .error e c => (c.graph, .error e)

/-- Builds a graph anew. -/
def init (nodes : List Node) (linkers : List Linker) : Graph × Except GraphError (List Node) :=
  perform .empty (Build.init nodes linkers)

/-- Adds a node without edges. -/
def add (g : Graph) (node : Node) : Graph × Except GraphError (List Node) :=
  g.perform (Build.insert node)

/-- Replaces or adds nodes and links them to what they declare. -/
def upsert (g : Graph) (nodes : List Node) : Graph × Except GraphError (List Node) :=
  g.perform (Build.upsert nodes)

/-- The graph of the packages of a lock, linked to what they declare. -/
def ofPackages (packages : List Package) : Except GraphError Graph :=
  let (g, result) := init (packages.map Node.resolved) [Linker.declared]
  match result with
  | .ok _ => .ok g
  | .error e => .error e

end Graph

/-! ## What resolution asks of a graph

The operations on a dependency graph that a resolution uses, as a record, so that another graph can
stand in for the one of this library.
-/

/-- The operations on a graph of type `G`. -/
structure GraphService (G : Type) where
  /-- The graph of some nodes, linked to what they declare, and the placeholders created for it. -/
  init : List Node → Except GraphError (Logged (G × List Node))
  /-- Adds a node without edges. -/
  addNode : G → Node → Except GraphError G
  /-- Whether there is a node for an identifier. -/
  contains : G → String → Bool
  /-- Replaces or adds nodes and links them to what they declare. -/
  upsert : G → List Node → Except GraphError (Logged G)
  /-- The node for an identifier. -/
  node : G → String → Except GraphError Node
  /-- The nodes reached from an identifier, itself left out, in ascending order. -/
  trace : G → String → Except GraphError (List Node)

namespace Graph

/-- The event of a graph that has been built. -/
def builtEvent (g : Graph) (created : List Node) : Event :=
  .debug ("built dependency graph: " ++ toString g.nodes.length ++ " nodes, " ++
    toString g.edges.length ++ " edges, " ++ toString created.length ++ " placeholders")

/-- The event of placeholders that an upsert has created, if there are any. -/
def upsertEvents (created : List Node) : List Event :=
  if created.isEmpty then []
  else [.debug ("upsert created " ++ toString created.length ++ " placeholders")]

/-- The operations of this library's graphs. -/
def service : GraphService Graph where
  init nodes := do
    let (g, result) := Graph.init nodes [Linker.declared]
    let created ← result
    return ⟨(g, created), [g.builtEvent created]⟩
  addNode g node := do
    let (g, result) := g.add node
    let _ ← result
    return g
  contains := Graph.contains
  upsert g nodes := do
    let (g, result) := g.upsert nodes
    let created ← result
    return ⟨g, upsertEvents created⟩
  node := Graph.node
  trace := Graph.trace

end Graph

end PackageLock
