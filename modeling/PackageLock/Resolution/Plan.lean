import PackageLock.Ascending
import PackageLock.Constraint
import PackageLock.Graph.Build
import PackageLock.Resolution.Basic

/-!
# Planning a resolution

From the stored lock it follows what a resolution does: it ends without a write, or it writes one lock
and then ends in a way that is known beforehand. An inactive revision loses its entry in the lock. An
active one gets an entry if it has none, and then its dependencies are checked: all packages that it
needs have to be installed, and those that it names itself in a version that satisfies what it asks.
-/

set_option autoImplicit false

namespace PackageLock

/-- What a resolution is going to do. -/
inductive Plan where
  /-- To end without a write. -/
  | finish (outcome : Outcome)
  /-- To write a lock, and to end as told if the write succeeds. -/
  | write (lock : Lock) (outcome : Logged Outcome)

namespace Plan

variable {G : Type}

/-! ## Checking dependencies -/

/-- Looks up the packages that are named but not reached: those that are installed, and those that are
not. -/
def lookUp (service : GraphService G) (g : G) :
    List String → Except GraphError (List String × List String)
  | [] => .ok ([], [])
  | id :: ids =>
    match service.node g id with
    | .ok node => do
      let (installed, missing) ← lookUp service g ids
      if node.isPlaceholder then return (installed, id :: missing)
      else return (id :: installed, missing)
    | .error (.nodeNotFound _) => do
      let (installed, missing) ← lookUp service g ids
      return (installed, id :: missing)
    | .error e => .error e

/-- The packages that `package` names and that are not among the nodes reached from it. -/
def unreached (package : Package) (tree : List Node) : List String :=
  ascending ((package.dependencies.map (·.package)).filter fun id =>
    id != package.source && !(tree.map Node.id).contains id)

/-- All packages that `package` needs: the installed ones and the missing ones. -/
def survey (service : GraphService G) (g : G) (package : Package) :
    Except GraphError (List String × List String) := do
  let tree ← service.trace g package.source
  let (installed, missing) ← lookUp service g (unreached package tree)
  let (placeholders, present) := tree.partition Node.isPlaceholder
  return (present.map Node.id ++ installed, ascending (placeholders.map Node.id ++ missing))

/-- The version in which a package is installed. -/
def installedVersion (service : GraphService G) (g : G) (id : String) :
    Except GraphError (Option String) :=
  match service.node g id with
  | .ok node => .ok node.version?
  | .error (.nodeNotFound _) => .ok none
  | .error e => .error e

/-- The event of a constraint that is none. -/
def rejectionEvents (constraint : String) : List Event :=
  match Constraint.parse constraint with
  | .ok _ => []
  | .error e =>
    [.debug ("constraint " ++ Text.quote constraint ++ " rejected: " ++ e.message)]

/-- Whether the installed version of a package satisfies a constraint. -/
def judge (source id constraint : String) (installed : Option String) : Logged Bool :=
  let compatible := installed.any (Constraint.isCompatible constraint)
  ⟨compatible, (if installed.isSome then rejectionEvents constraint else []) ++
    [.debug (source ++ ": " ++ id ++ " " ++ installed.getD "<none>" ++ " against " ++ constraint ++
      ": " ++ if compatible then "ok" else "incompatible")]⟩

/-- The dependencies whose installed version does not satisfy their constraint, as they come. -/
def violated (service : GraphService G) (g : G) (source : String) :
    List Dependency → Logged (Except GraphError (List String))
  | [] => .silent (.ok [])
  | dependency :: rest =>
    match dependency.constraint with
    | none => violated service g source rest
    | some constraint =>
      match installedVersion service g dependency.package with
      | .error e => .silent (.error e)
      | .ok installed =>
        (judge source dependency.package constraint installed).andThen fun compatible =>
          (violated service g source rest).map fun result =>
            result.map fun ids => if compatible then ids else dependency.package :: ids

/-- Checks the dependencies of a package that has its entry in the lock. -/
def check (service : GraphService G) (g : G) (package : Package) : Logged Outcome :=
  match survey service g package with
  | .error e => .silent (.error (.graph e))
  | .ok (installed, missing) =>
    let total := installed.length + missing.length
    if missing.isEmpty then
      (violated service g package.source package.dependencies).map fun result =>
        match result with
        | .error e => .error (.graph e)
        | .ok ids =>
          let invalid := ascending ids
          let counts : Counts := ⟨total, installed.length, invalid.length⟩
          if invalid.isEmpty then .ok counts else .error (.incompatible invalid counts)
    else
      ⟨.error (.missing missing ⟨total, installed.length, 0⟩),
        [.debug (package.source ++ ": " ++ toString missing.length ++ " of " ++ toString total ++
          " dependencies missing")]⟩

/-! ## Registering and removing -/

/-- The plan for an inactive revision. -/
def deactivate (lock : Lock) (source : String) : Logged Plan :=
  if lock.contains source then
    let dependents := (lock.dependentsOf source).map (·.source)
    ⟨.write (lock.erase source) ⟨.ok Counts.zero, [.info ("removed " ++ source ++ " from lock")]⟩,
      if dependents.isEmpty then []
      else [.warn ("removing " ++ source ++ " from lock while " ++ ", ".intercalate dependents ++
        " still depend on it")]⟩
  else
    ⟨.finish (.ok Counts.zero), [.debug (source ++ " is inactive and absent from lock")]⟩

/-- The graph with the node of a package that gets its entry. Another package may have declared it
before, and then it has a node already. -/
def attach (service : GraphService G) (g : G) (package : Package) : Except GraphError (Logged G) := do
  let g ← if service.contains g package.source then pure g
    else service.addNode g (.resolved package)
  service.upsert g [.resolved package]

/-- The plan for an active revision. -/
def activate (service : GraphService G) (lock : Lock) (g : G) (package : Package) : Logged Plan :=
  if lock.contains package.source then
    (check service g package).map .finish
  else
    match attach service g package with
    | .error e => .silent (.finish (.error (.graph e)))
    | .ok attached =>
      attached.map fun g => .write (lock.add package) ((check service g package).after
        [.info ("registered " ++ package.source ++ " at " ++ package.version ++ " in lock")])

/-- The plan once the graph of the lock has been built. -/
def ofGraph (service : GraphService G) (declared : List Declaration) (revision : Revision)
    (lock : Lock) (g : G) : Logged Plan :=
  match revision.reference with
  | .error e => .silent (.finish (.error (.invalidInput (.reference e))))
  | .ok reference =>
    match revision.desiredState with
    | .inactive => deactivate lock reference.source
    | .active =>
      match declared.mapM Declaration.toDependency with
      | .error e => .silent (.finish (.error (.invalidInput (.declaration e))))
      | .ok dependencies =>
        activate service lock g ⟨reference.source, reference.identifierOrDefault, dependencies⟩

/-- The event of a lock whose graph has been built. -/
def lockEvent (lock : Lock) (created : List Node) : Event :=
  .debug ("lock revision " ++ toString lock.revision ++ " has " ++ toString lock.packages.length ++
    " packages, " ++ toString created.length ++ " unresolved references")

/-- The plan for a revision, given the dependencies that its metadata declares and the stored lock. -/
def make (service : GraphService G) (declared : List Declaration) (revision : Revision)
    (lock : Lock) : Logged Plan :=
  match service.init (lock.packages.map Node.resolved) with
  | .error e => .silent (.finish (.error (.graph e)))
  | .ok built =>
    built.andThen fun (g, created) =>
      (ofGraph service declared revision lock g).after [lockEvent lock created]

end Plan

/-! ## Running a resolution

A resolution reads the stored lock at most once and writes it at most once, and it fails if another
write has come between the two. An active revision that is registered stays registered if the check of
its dependencies fails afterwards.
-/

variable {m : Type → Type} [Monad m] {G : Type}

/-- Carries out a plan. -/
def Plan.run (store : LockStore m) : Plan → m (Logged Outcome)
  | .finish outcome => return .silent outcome
  | .write lock outcome => do
    let written ← store.update lock
    match written.value with
    | .ok () => return outcome.after written.events
    | .error e =>
      let lost := if e.isConflict then
          [Event.warn ("lock changed during resolution: " ++ e.message)]
        else []
      return ⟨.error (.store e), written.events ++ lost⟩

/-- Brings the lock in line with what is wanted of a revision, and checks the dependencies of one that
is to be installed. -/
def resolve (service : GraphService G) (store : LockStore m) (metadata : Metadata)
    (revision : Revision) : m (Logged Outcome) :=
  match metadata.dependsOn? with
  | none => return .silent (.error (.invalidInput (.unknownKind metadata.kindName)))
  | some declared => do
    let stored ← store.get
    match stored.value with
    | .error e => return ⟨.error (.getLock e), stored.events⟩
    | .ok lock =>
      let plan := Plan.make service declared revision lock
      let ended ← plan.value.run store
      return ended.after (stored.events ++ plan.events)

end PackageLock
