import PackageLock.Command.Arguments
import PackageLock.Command.Report
import PackageLock.Graph.Tree
import PackageLock.Metadata
import PackageLock.Resolution.Plan
import PackageLock.Store.Basic

/-!
# Commands

The commands of the program. Each of them finds the lock first: at the path that is given to it, or
else at the one that the configuration names. Only `resolve` ever writes a file, and only the lock.
-/

set_option autoImplicit false

namespace PackageLock

/-- Where a command runs. -/
structure Host (m : Type → Type) where
  /-- The directory to which paths are relative. -/
  directory : String
  /-- The environment. -/
  env : String → Option String
  files : FileAccess m

/-- What a command has to show: lines of output, status lines, events, and whether it has failed. -/
structure Shown where
  output : List String
  statuses : List Status
  events : List Event
  result : Except CommandError Unit

namespace Shown

/-- A command that has failed before it had anything to show. -/
def failed (e : CommandError) : Shown := ⟨[], [], [], .error e⟩

/-- The exit code. -/
def exitCode (shown : Shown) : Nat :=
  match shown.result with
  | .ok _ => 0
  | .error _ => 1

end Shown

namespace Command

variable {m : Type → Type} [Monad m]

/-- The path of the lock: the one given, or else the configured one. -/
def lockPath (host : Host m) (given : Option String) : m (Except CommandError String) := do
  match given with
  | some path => return .ok (Path.join host.directory path)
  | none =>
    let configPath := Config.path host.env
    match ← Config.load host.files configPath with
    | .ok config => return .ok (config.lockPathFrom host.directory)
    | .error problem => return .error (.config configPath problem)

/-- The lock at a path, empty if there is no file. -/
def readLock (host : Host m) (path : String) : m (Except CommandError Lock) := do
  if ← host.files.isFile path then
    match ← loadFile host.files Lock.parse path with
    | .ok found => return .ok found
    | .error problem => return .error (.lockFile path problem)
  else return .ok Lock.empty

/-- What there is to show of a lock. -/
def showLock (path : String) (ledger : Lock) : Shown :=
  if ledger.packages.isEmpty then ⟨[], [⟨.info, "Empty", path⟩], [], .ok ()⟩
  else
    ⟨ledger.summary, [⟨.info, "Lock", toString ledger.packages.length ++ " packages at revision " ++
      toString ledger.revision⟩], [], .ok ()⟩

/-- The status of a traced package: how many dependencies it has, and which are missing. -/
def tracedStatus (tree : List Node) : Status :=
  let missing := (tree.filter Node.isPlaceholder).map Node.id
  if missing.isEmpty then
    ⟨.info, "Traced", toString tree.length ++ " dependencies, all installed"⟩
  else
    ⟨.warning, "Traced", toString tree.length ++ " dependencies, " ++ toString missing.length ++
      " missing: " ++ ", ".intercalate missing⟩

/-- What there is to show of the dependencies of a package. -/
def showTrace (path : String) (ledger : Lock) (source : String) (depth : Option Nat) : Shown :=
  match Graph.ofPackages ledger.packages with
  | .error e => .failed (.graph e)
  | .ok g =>
    if g.contains source then
      match g.trace source with
      | .error e => ⟨(g.tree source depth).lines, [], [], .error (.graph e)⟩
      | .ok tree => ⟨(g.tree source depth).lines, [tracedStatus tree], [], .ok ()⟩
    else .failed (.notInLock source path)

/-- What there is to show of a resolution. -/
def showOutcome (revision : Revision) (json : Bool) (ended : Logged Outcome) : Shown :=
  let report := Report.ofOutcome revision ended.value
  let result := match ended.value with
    | .ok _ => .ok ()
    | .error e => .error (.resolve e)
  if json then ⟨report.json, [], ended.events, result⟩
  else ⟨[], report.statuses, ended.events, result⟩

/-- Resolves a revision against the lock at a path. -/
def runResolve (host : Host m) (path metadataPath : String) (revision : Revision) (json : Bool) :
    m Shown := do
  match ← loadFile host.files Metadata.parse metadataPath with
  | .error problem => return .failed (.metadata metadataPath problem)
  | .ok metadata =>
    return showOutcome revision json
      (← PackageLock.resolve Graph.service (LockStore.file host.files path) metadata revision)

/-- Runs a command. -/
def run (host : Host m) (command : Command) : m Shown := do
  match command with
  | .resolve metadata package inactive given json =>
    match ← lockPath host given with
    | .error e => return .failed e
    | .ok path =>
      runResolve host path (Path.join host.directory metadata)
        ⟨package, if inactive then .inactive else .active⟩ json
  | .lock given =>
    match ← lockPath host given with
    | .error e => return .failed e
    | .ok path =>
      match ← readLock host path with
      | .error e => return .failed e
      | .ok found => return showLock path found
  | .trace source given depth =>
    match ← lockPath host given with
    | .error e => return .failed e
    | .ok path =>
      match ← readLock host path with
      | .error e => return .failed e
      | .ok found => return showTrace path found source depth

end Command

end PackageLock
