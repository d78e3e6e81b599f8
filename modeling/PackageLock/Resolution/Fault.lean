import PackageLock.Graph.Build
import PackageLock.Store.Basic

/-!
# Faults

Stores and graphs that fail on purpose. With them it can be seen what a resolution leaves behind when
something goes wrong in the middle of it.
-/

set_option autoImplicit false

namespace PackageLock

namespace LockStore

variable {m : Type → Type} [Monad m]

/-- A store that cannot be read. -/
def unreadable (store : LockStore m) (message : String) : LockStore m :=
  { store with get := return .silent (.error (.unavailable message)) }

/-- A store that cannot be written. -/
def readOnly (store : LockStore m) (message : String) : LockStore m :=
  { store with update := fun _ => return .silent (.error (.unavailable message)) }

/-- A store with another writer, who before each write writes the stored lock back unchanged. -/
def contended (store : LockStore m) : LockStore m :=
  { store with
    update := fun lock => do
      let other ← store.get
      let events ← match other.value with
        | .ok theirs => pure (← store.update theirs).events
        | .error _ => pure []
      return (← store.update lock).after (other.events ++ events) }

end LockStore

/-- The operations of a graph that can be made to fail. -/
inductive GraphOperation where
  | init
  | addNode
  | upsert
  | node
  | trace
  deriving DecidableEq, Repr

/-- Operations of a graph of which one fails: always with the error that `error` gives for the
identifier it is about, but only for the identifiers that `affected` admits. Building a graph is about
the identifier `init`, an upsert about the first of its nodes. -/
def GraphService.failing {G : Type} (service : GraphService G) (operation : GraphOperation)
    (error : String → GraphError) (affected : String → Bool) : GraphService G :=
  let guarded {α : Type} (here : GraphOperation) (id : String) (result : Except GraphError α) :
      Except GraphError α :=
    if here = operation && affected id then .error (error id) else result
  { init := fun nodes => guarded .init "init" (service.init nodes)
    addNode := fun g node => guarded .addNode node.id (service.addNode g node)
    contains := service.contains
    upsert := fun g nodes =>
      guarded .upsert ((nodes.head?.map Node.id).getD "") (service.upsert g nodes)
    node := fun g id => guarded .node id (service.node g id)
    trace := fun g id => guarded .trace id (service.trace g id) }

end PackageLock
