import PackageLock.Config
import PackageLock.Resolution.Basic

/-!
# Reports

What a user is told: status lines, the reason why a command has failed, and the outcome of a resolution,
either in status lines or as one JSON object.
-/

set_option autoImplicit false

namespace PackageLock

/-! ## Status lines

What a command tells its user besides its output: a label in a column of its own and a message.
-/

/-- How a status is meant; a terminal may show it in colour. -/
inductive Tone where
  | success
  | info
  | warning
  | failure
  deriving DecidableEq, Repr

/-- A labelled message. -/
structure Status where
  tone : Tone
  label : String
  message : String
  deriving DecidableEq, Repr

namespace Status

/-- The width of the column of labels, in characters. -/
def labelWidth : Nat := 12

/-- The line of a status, with its label at the right of the column. A longer label is not cut. -/
def line (status : Status) : String :=
  String.ofList (List.replicate (labelWidth - status.label.length) ' ') ++ status.label ++ " " ++
    status.message

end Status

/-! ## Failures of commands

The reason why a command fails, as its user is told.
-/

/-- Why a command fails. -/
inductive CommandError where
  | config (path : String) (problem : FileProblem)
  | lockFile (path : String) (problem : FileProblem)
  | metadata (path : String) (problem : FileProblem)
  | graph (cause : GraphError)
  /-- The package to be traced is not in the lock at the path. -/
  | notInLock (source path : String)
  | resolve (cause : ResolveError)
  deriving DecidableEq, Repr

namespace CommandError

/-- The wording of the error. Dependencies that are missing or incompatible make a resolution fail
that is in order itself, and are told so. -/
def message : CommandError → String
  | .config path problem => "Config error: " ++ problem.message path
  | .lockFile path problem => "Lock error: " ++ problem.message path
  | .metadata path problem => "Metadata error: " ++ problem.message path
  | .graph cause => cause.message
  | .notInLock source path => "Package '" ++ source ++ "' is not in " ++ path
  | .resolve (.missing ids counts) =>
    "Dependency resolution failed: " ++ (ResolveError.missing ids counts).message
  | .resolve (.incompatible ids counts) =>
    "Dependency resolution failed: " ++ (ResolveError.incompatible ids counts).message
  | .resolve cause => cause.message

/-- What may be done about the error. -/
def help? : CommandError → Option String
  | .config _ _ => some "Check ~/.keel/config.toml for syntax errors"
  | .lockFile _ _ => none
  | .metadata _ _ =>
    some "Metadata must declare kind = \"Configuration\", \"Provider\" or \"Function\""
  | .graph cause => cause.help?
  | .notInLock _ _ => none
  | .resolve (.missing _ _) => none
  | .resolve (.incompatible _ _) => none
  | .resolve cause => cause.help?

end CommandError

/-! ## JSON output

Just what a report needs: strings, numbers, lists of strings, and an object with its members in a fixed
order, one on a line. A member may occur twice.
-/

namespace Json

/-- A lower-case hexadecimal digit. -/
def hexDigit (n : Nat) : Char :=
  if n < 10 then Char.ofNat ('0'.toNat + n) else Char.ofNat ('a'.toNat + (n - 10))

/-- A character inside a string. -/
def stringChar (c : Char) : List Char :=
  if c = '"' then ['\\', '"']
  else if c = '\\' then ['\\', '\\']
  else if c = '\x08' then ['\\', 'b']
  else if c = '\x0c' then ['\\', 'f']
  else if c = '\n' then ['\\', 'n']
  else if c = '\r' then ['\\', 'r']
  else if c = '\t' then ['\\', 't']
  else if c.toNat < 0x20 then
    ['\\', 'u', '0', '0', hexDigit (c.toNat / 16), hexDigit (c.toNat % 16)]
  else [c]

/-- A string. -/
def string (s : String) : String :=
  String.ofList ('"' :: s.toList.flatMap stringChar ++ ['"'])

/-- The value of a member of the object. -/
inductive Member where
  | string (s : String)
  | number (n : Nat)
  | strings (items : List String)
  deriving DecidableEq, Repr

/-- A list of strings, one on a line. -/
def stringList (items : List String) : List String :=
  match items with
  | [] => ["[]"]
  | items =>
    let last := items.length - 1
    ["["] ++ items.mapIdx (fun i s =>
      "    " ++ Json.string s ++ if i < last then "," else "") ++ ["  ]"]

/-- The lines of a value, the first of which stands behind the name of its member. -/
def Member.lines : Member → List String
  | .string s => [Json.string s]
  | .number n => [toString n]
  | .strings items => stringList items

/-- The lines of a member, with a comma behind all but the last one. -/
def memberLines (isLast : Bool) (name : String) (value : Member) : List String :=
  let lines := match value.lines with
    | [] => []
    | first :: rest => ("  " ++ Json.string name ++ ": " ++ first) :: rest
  if isLast then lines
  else lines.mapIdx fun i line => if i + 1 = lines.length then line ++ "," else line

/-- The lines of an object. -/
def object (members : List (String × Member)) : List String :=
  let last := members.length - 1
  ["\x7b"] ++ (members.mapIdx fun i (name, value) =>
    memberLines (i = last) name value).flatten ++ ["\x7d"]

end Json

/-! ## Reports of a resolution

What a user is told about a resolution, either in status lines or as one JSON object.
-/

/-- The outcome of the resolution of one revision. -/
structure Report where
  package : String
  desiredState : DesiredState
  counts : Counts
  missing : List String
  invalid : List String
  error : Option String
  deriving DecidableEq, Repr

namespace Report

/-- The report on an outcome. -/
def ofOutcome (revision : Revision) : Outcome → Report
  | .ok counts => ⟨revision.package, revision.desiredState, counts, [], [], none⟩
  | .error e =>
    ⟨revision.package, revision.desiredState, e.counts, e.missingIds, e.invalidIds,
      some e.message⟩

/-- The name of a state in a report. -/
def stateName : DesiredState → String
  | .active => "active"
  | .inactive => "inactive"

/-- The counts in words. -/
def summary (report : Report) : String :=
  report.package ++ ": " ++ toString report.counts.installed ++ " of " ++
    toString report.counts.total ++ " dependencies installed, " ++
    toString report.counts.invalid ++ " invalid"

/-- The report in status lines. -/
def statuses (report : Report) : List Status :=
  match report.error with
  | none =>
    if report.desiredState = .inactive then [⟨.success, "Removed", report.package⟩]
    else [⟨.success, "Resolved", report.summary⟩]
  | some _ =>
    if report.missing.isEmpty && report.invalid.isEmpty then
      [⟨.failure, "Failed", report.package⟩]
    else
      ⟨.warning, "Unresolved", report.summary⟩ ::
        (report.missing.map (⟨.warning, "Missing", ·⟩) ++
          report.invalid.map (⟨.warning, "Invalid", ·⟩))

/-- The report as a JSON object. The number of invalid dependencies and their list have one name. -/
def json (report : Report) : List String :=
  Json.object ([("package", .string report.package),
    ("desired_state", .string (stateName report.desiredState)),
    ("total", .number report.counts.total),
    ("installed", .number report.counts.installed),
    ("invalid", .number report.counts.invalid),
    ("missing", .strings report.missing),
    ("invalid", .strings report.invalid)] ++
    (report.error.map fun e => ("error", Json.Member.string e)).toList)

end Report

end PackageLock
