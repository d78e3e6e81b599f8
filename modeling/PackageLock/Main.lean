import PackageLock.Command.Run

/-!
# The program

Reads the command line and the environment, runs the command on the files of the machine, and prints
what it has to show.
-/

set_option autoImplicit false

namespace PackageLock

/-! ## Files on disk

Access to the files of the machine. A file is replaced by renaming a finished one over it, so that
nobody ever reads half a file.
-/

/-- The number of an error of the system, which is given as it is or with a minus. -/
def errorNumber (code : UInt32) : UInt32 :=
  min code (0 - code)

/-- The failure that an error of the system stands for. -/
def FileError.ofSystem (e : IO.Error) : FileError :=
  match e with
  | .noFileOrDirectory _ _ _ => .notFound
  | .alreadyExists _ _ _ => .alreadyExists
  | .resourceBusy _ _ => .busy
  | .inappropriateType _ code _ =>
    if errorNumber code = 20 then .notDirectory
    else if errorNumber code = 21 then .isDirectory
    else .other (toString e)
  | .invalidArgument _ code _ =>
    if errorNumber code = 36 then .nameTooLong else .other (toString e)
  | _ => .other (toString e)

namespace Disk

/-- Does some work and turns an error of the system into a failure. -/
def attempt {α : Type} (work : IO α) : IO (Except FileError α) := do
  match ← work.toBaseIO with
  | .ok a => return .ok a
  | .error e => return .error (FileError.ofSystem e)

/-- Whether a path leads to a file. One that must not be read counts as a file, so that reading it
tells what is wrong. -/
def isFile (path : String) : IO Bool := do
  match ← attempt (IO.FS.readBinFile path) with
  | .ok _ => return true
  | .error .notFound | .error .notDirectory | .error .isDirectory => return false
  | .error _ => return true

/-- The text of a file. -/
def read (path : String) : IO (Except FileError String) := do
  match ← attempt (IO.FS.readBinFile path) with
  | .error e => return .error e
  | .ok bytes =>
    match String.fromUTF8? bytes with
    | some text => return .ok text
    | none => return .error .invalidText

/-- Replaces a file, or creates it with the directories on the way. -/
def replace (path text : String) : IO (Except FileError Unit) :=
  attempt do
    let directory := Path.parent path
    IO.FS.createDirAll directory
    let draft := Path.join directory (".lock-" ++ toString (← IO.rand 0 1000000000000))
    IO.FS.writeFile draft text
    IO.FS.rename draft path

/-- Access to the files of the machine. -/
def access : FileAccess IO where
  isFile := isFile
  read := read
  replace := replace

end Disk

/-! ## Running a command -/

namespace Program

/-- The variables of the environment that matter. -/
def variableNames : List String := ["KEEL_HOME", "HOME", "USERPROFILE"]

/-- The place where the program runs. -/
def host : IO (Host IO) := do
  let given ← variableNames.mapM fun name => return (name, ← IO.getEnv name)
  return ⟨(← IO.currentDir).toString, fun name => (given.lookup name).join, Disk.access⟩

/-- Which events the user wants to see. -/
def filter (host : Host IO) (verbose : Bool) : IO String := do
  if verbose then return "debug"
  match ← Config.load host.files (Config.path host.env) with
  | .ok config => return config.logFilter
  | .error _ => return Config.default.logFilter

/-- Prints what a command has to show. -/
def print (filter : String) (seen : Shown) : IO Unit := do
  for event in seen.events.filter (Event.passes filter) do
    IO.eprintln event.message
  for line in seen.output do
    IO.println line
  for status in seen.statuses do
    IO.eprintln status.line
  match seen.result with
  | .ok _ => return
  | .error e =>
    IO.eprintln ("Error: " ++ e.message)
    if let some help := e.help? then
      IO.eprintln ("  help: " ++ help)

end Program

end PackageLock

open PackageLock in
/-- Runs the program. -/
def main (arguments : List String) : IO UInt32 := do
  match Command.parse (← IO.getEnv "KEEL_LOCK") arguments with
  | .error usage =>
    if usage.exitCode = 0 then IO.println usage.text else IO.eprintln usage.text
    return usage.exitCode.toUInt32
  | .ok invocation =>
    let host ← Program.host
    let filter ← Program.filter host invocation.verbose
    let seen ← invocation.command.run host
    Program.print filter seen
    return seen.exitCode.toUInt32
