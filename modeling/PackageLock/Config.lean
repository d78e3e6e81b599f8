import PackageLock.Files.Basic
import PackageLock.Toml.Shape

/-!
# User configuration

The configuration says where the lock is kept and what is logged. It is a TOML file in the user's
directory of the program; settings that it does not give, and all of them if there is no such file,
have default values.
-/

set_option autoImplicit false

namespace PackageLock

open Toml (Value Entries ShapeError ReadError)

/-- The settings of the user. -/
structure Config where
  /-- The path of the lock. -/
  lockPath : String
  /-- Which events are logged. -/
  logFilter : String
  deriving DecidableEq, Repr

namespace Config

/-- The settings without a configuration file. -/
def default : Config := ⟨"Keel.lock", "warn"⟩

/-- The section `name` has one setting, which `known` gives unless the section does. -/
def section? (name key known : String) (value : Value) : Except ShapeError String :=
  value.asRecord name
    (fun entries => entries.foldlM (fun setting (k, value) =>
      if k = key then value.asString else pure setting) known)
    (fun items => match items with
      | [] => pure known
      | value :: _ => value.asString)

/-- Reads the settings from the entries of a document. -/
def ofEntries (entries : Entries) : Except ShapeError Config :=
  entries.foldlM (fun (config : Config) (key, value) => do
    if key = "lock" then
      return { config with lockPath := ← section? "LockConfig" "path" default.lockPath value }
    else if key = "log" then
      return { config with logFilter := ← section? "LogConfig" "filter" default.logFilter value }
    else return config) default

/-- Reads a configuration file. -/
def parse (text : String) : Except ReadError Config :=
  Toml.parseAs ofEntries text

/-- The path of the lock, taken relative to `root`. -/
def lockPathFrom (config : Config) (root : String) : String :=
  Path.join root config.lockPath

/-! ## The place of the configuration -/

/-- The program's directory, given the environment: the one named for it, or one in the home of the
user. -/
def directory (env : String → Option String) : String :=
  match env "KEEL_HOME" with
  | some path => path
  | none =>
    let home := ((env "HOME").or (env "USERPROFILE")).getD "."
    Path.join home ".keel"

/-- The path of the configuration file, given the environment. -/
def path (env : String → Option String) : String :=
  Path.join (directory env) "config.toml"

end Config

/-- Why a file cannot be used for what it should hold. -/
inductive FileProblem where
  | unreadable (cause : FileError)
  | malformed (cause : ReadError)
  deriving DecidableEq, Repr

/-- The wording of the problem with the file at a path. -/
def FileProblem.message (path : String) : FileProblem → String
  | .unreadable cause => "Failed to read " ++ path ++ ": " ++ cause.message
  | .malformed cause => "Failed to parse " ++ path ++ ": " ++ cause.message

variable {m : Type → Type} [Monad m]

/-- Reads the file at a path and takes its text for what it should hold. -/
def loadFile {α : Type} (files : FileAccess m) (parse : String → Except ReadError α)
    (path : String) : m (Except FileProblem α) := do
  match ← files.read path with
  | .error e => return .error (.unreadable e)
  | .ok text =>
    match parse text with
    | .error e => return .error (.malformed e)
    | .ok a => return .ok a

/-- Reads the configuration file at a path, which need not be there. -/
def Config.load (files : FileAccess m) (path : String) : m (Except FileProblem Config) := do
  if ← files.isFile path then loadFile files Config.parse path
  else return .ok Config.default

end PackageLock
