import PackageLock.Command.Run
import PackageLock.Files.Tree
import PackageLock.Proofs.Command.Arguments

/-!
# What a command does to a tree of files

Finding the lock and reading files leaves the tree as it is (`Looks`). So do the commands that only show
something (`Command.looks_of_shows`), and `resolve` does to the tree what the resolution does to it, if
it comes so far (`Command.resolve_run`).
-/

set_option autoImplicit false

namespace PackageLock

/-- The program in a directory, with an environment, on a tree of files. -/
def Host.onTree (directory : String) (env : String → Option String) : Host (StateM FileTree) :=
  ⟨directory, env, FileTree.access⟩

/-! ## Looking -/

/-- Work that leaves the tree as it is. -/
def Looks {α : Type} (work : StateM FileTree α) : Prop :=
  ∀ tree, (work.run tree).2 = tree

namespace Looks

variable {α β : Type} {work : StateM FileTree α} {next : α → StateM FileTree β}

/-- Work that does nothing only looks. -/
theorem pure (a : α) : Looks (Pure.pure a) :=
  fun _ => rfl

/-- Work that goes on after a look finds the tree as it was. -/
theorem run_bind (h : Looks work) (next : α → StateM FileTree β) (tree : FileTree) :
    (work >>= next).run tree = (next (work.run tree).1).run tree := by
  rw [StateT.run_bind]
  show (next (work.run tree).1).run (work.run tree).2 = _
  rw [h tree]

/-- Looks one after the other are a look. -/
theorem bind (h : Looks work) (hnext : ∀ a, Looks (next a)) : Looks (work >>= next) := by
  intro tree
  rw [h.run_bind next tree]
  exact hnext _ tree

/-- Asking for a file is a look. -/
theorem isFile (path : String) : Looks (FileTree.access.isFile path) :=
  fun _ => rfl

/-- Reading a file is a look. -/
theorem read (path : String) : Looks (FileTree.access.read path) :=
  fun _ => rfl

end Looks

section Loading

variable {α : Type} {parse : String → Except Toml.ReadError α} {path : String} {tree : FileTree}

/-- Loading a document is a look. -/
theorem looks_loadFile (parse : String → Except Toml.ReadError α) (path : String) :
    Looks (loadFile FileTree.access parse path) := by
  apply (Looks.read path).bind
  intro contents
  split
  · exact Looks.pure _
  · split <;> exact Looks.pure _

/-- What is loaded has been parsed from the text of the file. -/
theorem loadFile_eq_ok {a : α} (h : ((loadFile FileTree.access parse path).run tree).1 = .ok a) :
    ∃ text, tree.read path = .ok text ∧ parse text = .ok a := by
  unfold loadFile at h
  rw [(Looks.read path).run_bind] at h
  have hread : ((FileTree.access.read path).run tree).1 = tree.read path := rfl
  rw [hread] at h
  cases hcontents : tree.read path with
  | error e =>
    rw [hcontents] at h
    cases h
  | ok text =>
    rw [hcontents] at h
    simp only at h
    cases hparse : parse text with
    | error e =>
      rw [hparse] at h
      cases h
    | ok other =>
      rw [hparse] at h
      cases h
      exact ⟨text, rfl, hparse⟩

/-- Loading the configuration is a look. -/
theorem looks_load (path : String) : Looks (Config.load FileTree.access path) := by
  apply (Looks.isFile path).bind
  intro found
  split
  · exact looks_loadFile Config.parse path
  · exact Looks.pure _

end Loading

/-! ## Finding the lock -/

/-- Where the lock is to be found for a command line: at the path that its option `--lock` gives, or else
the environment, or else the configuration, each taken relative to the directory. -/
inductive LockPath (directory : String) (env : String → Option String) (tree : FileTree)
    (arguments : List String) : String → Prop where
  | option {invocation : Invocation} {path : String}
      (accepted : Command.parse none arguments = .ok invocation)
      (given : invocation.command.lockOption = some path) :
      LockPath directory env tree arguments (Path.join directory path)
  | environment {invocation : Invocation} {path : String}
      (accepted : Command.parse none arguments = .ok invocation)
      (free : invocation.command.lockOption = none) (given : env "KEEL_LOCK" = some path) :
      LockPath directory env tree arguments (Path.join directory path)
  | configuration {invocation : Invocation} {config : Config}
      (accepted : Command.parse none arguments = .ok invocation)
      (free : invocation.command.lockOption = none) (unset : env "KEEL_LOCK" = none)
      (configured : ((Config.load FileTree.access (Config.path env)).run tree).1 = .ok config) :
      LockPath directory env tree arguments (Path.join directory config.lockPath)

section Lock

variable {directory path path' : String} {env : String → Option String} {tree : FileTree}
  {arguments : List String} {invocation : Invocation}

/-- Arguments lead to one path of the lock at most. -/
theorem LockPath.unique (h : LockPath directory env tree arguments path)
    (h' : LockPath directory env tree arguments path') : path = path' := by
  cases h <;> cases h' <;> simp_all

namespace Command

/-- Finding the path of the lock is a look. -/
theorem looks_lockPath (given : Option String) : Looks (lockPath (Host.onTree directory env) given) := by
  cases given with
  | some path => exact Looks.pure _
  | none =>
    apply (looks_load (Config.path env)).bind
    intro found
    cases found <;> exact Looks.pure _

/-- Reading the lock to show it is a look. -/
theorem looks_readLock (path : String) : Looks (readLock (Host.onTree directory env) path) := by
  apply (Looks.isFile path).bind
  intro found
  split
  · apply (looks_loadFile Lock.parse path).bind
    intro loaded
    cases loaded <;> exact Looks.pure _
  · exact Looks.pure _

/-- Without an option the path of the lock comes from the configuration, if this can be loaded. -/
theorem lockPath_none_run (directory : String) (env : String → Option String) (tree : FileTree) :
    (lockPath (Host.onTree directory env) none).run tree =
      (match ((Config.load FileTree.access (Config.path env)).run tree).1 with
      | .ok config => .ok (Path.join directory config.lockPath)
      | .error problem => .error (.config (Config.path env) problem), tree) := by
  refine ((looks_load (Config.path env)).run_bind _ tree).trans ?_
  cases ((Config.load FileTree.access (Config.path env)).run tree).1 <;> rfl

/-- The path that an accepted command works with is the one to which its arguments lead. -/
theorem lockPath_of_parse (accepted : parse (env "KEEL_LOCK") arguments = .ok invocation)
    (h : ((lockPath (Host.onTree directory env) invocation.command.lockOption).run tree).1 =
      .ok path) :
    LockPath directory env tree arguments path := by
  obtain ⟨alone, halone, hoption⟩ := parse_lockOption accepted
  rw [hoption] at h
  cases hgiven : alone.command.lockOption with
  | some given =>
    rw [hgiven, Option.some_or] at h
    cases h
    exact .option halone hgiven
  | none =>
    rw [hgiven, Option.none_or] at h
    cases henv : env "KEEL_LOCK" with
    | some given =>
      rw [henv] at h
      cases h
      exact .environment halone hgiven henv
    | none =>
      rw [henv, lockPath_none_run] at h
      cases hconfig : ((Config.load FileTree.access (Config.path env)).run tree).1 with
      | error problem =>
        rw [hconfig] at h
        cases h
      | ok config =>
        rw [hconfig] at h
        cases h
        exact .configuration halone hgiven henv hconfig

/-! ## The commands -/

/-- The command is to resolve a revision; the others show something. -/
def resolves : Command → Bool
  | .resolve _ _ _ _ _ => true
  | _ => false

/-- A command that does not resolve only looks. -/
theorem looks_of_shows {command : Command} (h : command.resolves = false) :
    Looks (command.run (Host.onTree directory env)) := by
  cases command with
  | resolve => cases h
  | lock given =>
    apply (looks_lockPath given).bind
    intro found
    cases found with
    | error e => exact Looks.pure _
    | ok path =>
      apply (looks_readLock path).bind
      intro lock
      cases lock <;> exact Looks.pure _
  | trace source given depth =>
    apply (looks_lockPath given).bind
    intro found
    cases found with
    | error e => exact Looks.pure _
    | ok path =>
      apply (looks_readLock path).bind
      intro lock
      cases lock <;> exact Looks.pure _

/-- The result of a shown outcome is success, or the error of the resolution. -/
theorem showOutcome_result (revision : Revision) (json : Bool) (ended : Logged Outcome) :
    (showOutcome revision json ended).result = match ended.value with
      | .ok _ => .ok ()
      | .error e => .error (.resolve e) := by
  unfold showOutcome
  cases json <;> rfl

/-- A resolution is run on the loaded metadata, over the lock file; where they cannot be loaded nothing is
done. -/
theorem runResolve_run (path metadataPath : String) (revision : Revision) (json : Bool)
    (tree : FileTree) :
    (runResolve (Host.onTree directory env) path metadataPath revision json).run tree =
      match ((loadFile FileTree.access Metadata.parse metadataPath).run tree).1 with
      | .error problem => (.failed (.metadata metadataPath problem), tree)
      | .ok metadata =>
        let ended := (PackageLock.resolve Graph.service (LockStore.file FileTree.access path) metadata
          revision).run tree
        (showOutcome revision json ended.1, ended.2) := by
  refine ((looks_loadFile Metadata.parse metadataPath).run_bind _ tree).trans ?_
  cases ((loadFile FileTree.access Metadata.parse metadataPath).run tree).1 <;> rfl

/-- The command for a resolution finds the path of the lock, and then it resolves the revision that its
arguments name. -/
theorem run_resolve_run (metadataPath name : String) (inactive : Bool) (given : Option String)
    (json : Bool) (tree : FileTree) :
    ((resolve metadataPath name inactive given json).run (Host.onTree directory env)).run tree =
      match ((lockPath (Host.onTree directory env) given).run tree).1 with
      | .error e => (.failed e, tree)
      | .ok path => (runResolve (Host.onTree directory env) path (Path.join directory metadataPath)
          ⟨name, if inactive then .inactive else .active⟩ json).run tree := by
  refine ((looks_lockPath given).run_bind _ tree).trans ?_
  cases ((lockPath (Host.onTree directory env) given).run tree).1 <;> rfl

/-- A resolution that comes so far does to the tree what it does to the lock file. -/
theorem resolve_run (metadataPath name : String) (inactive : Bool) (given : Option String) (json : Bool)
    (tree : FileTree) :
    let revision : Revision := ⟨name, if inactive then .inactive else .active⟩
    let shown := ((resolve metadataPath name inactive given json).run (Host.onTree directory env)).run tree
    shown.2 = tree ∨ ∃ path text metadata,
      ((lockPath (Host.onTree directory env) given).run tree).1 = .ok path ∧
      tree.read (Path.join directory metadataPath) = .ok text ∧ Metadata.parse text = .ok metadata ∧
      let ended :=
        (PackageLock.resolve Graph.service (LockStore.file FileTree.access path) metadata revision).run
          tree
      shown = (showOutcome revision json ended.1, ended.2) := by
  intro revision shown
  have hshown : shown = _ := run_resolve_run metadataPath name inactive given json tree
  cases hpath : ((lockPath (Host.onTree directory env) given).run tree).1 with
  | error e =>
    rw [hshown, hpath]
    exact .inl rfl
  | ok path =>
    rw [hpath] at hshown
    simp only [runResolve_run] at hshown
    cases hmetadata : ((loadFile FileTree.access Metadata.parse
        (Path.join directory metadataPath)).run tree).1 with
    | error problem =>
      rw [hmetadata] at hshown
      exact .inl (congrArg Prod.snd hshown)
    | ok metadata =>
      rw [hmetadata] at hshown
      obtain ⟨text, hread, hparse⟩ := loadFile_eq_ok hmetadata
      exact .inr ⟨path, text, metadata, rfl, hread, hparse, hshown⟩

end Command

end Lock

end PackageLock
