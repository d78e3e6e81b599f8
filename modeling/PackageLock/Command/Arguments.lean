/-!
# Command lines

What the program is asked to do, read from its arguments. Every command has its options, which may
stand in any order; an option with a value takes it from behind an equals sign, from the rest of a
cluster of short options, or from the next argument. After `--` there are no options.

Arguments are judged from left to right. An option whose value has yet to come is judged when the next
option or operand, or the end, is reached; but an argument that means nothing at all is refused first.
-/

set_option autoImplicit false

namespace PackageLock

/-- What the program is asked to do. -/
inductive Command where
  | resolve (metadata package : String) (inactive : Bool) (lock : Option String) (json : Bool)
  | lock (lock : Option String)
  | trace (source : String) (lock : Option String) (depth : Option Nat)
  deriving DecidableEq, Repr

/-- A command, and whether the user wants to hear more. -/
structure Invocation where
  command : Command
  verbose : Bool
  deriving DecidableEq, Repr

/-- Why there is nothing to do. -/
inductive Usage where
  /-- The user asks for help. -/
  | help
  /-- The user asks for the version. -/
  | version
  /-- No arguments at all. -/
  | nothing
  | missingCommand
  | unknownCommand
  | unknownArgument
  | missingArgument
  /-- An option is given twice. -/
  | repeated
  /-- A value is missing or empty. -/
  | missingValue
  /-- A value is not of the right form. -/
  | malformedValue
  /-- A value is given to an option that takes none. -/
  | unexpectedValue
  deriving DecidableEq, Repr

/-- The exit code: asking for help or for the version is no error. -/
def Usage.exitCode : Usage → Nat
  | .help => 0
  | .version => 0
  | _ => 2

namespace Command

/-- The options. -/
inductive Flag where
  | verbose
  | help
  | version
  | metadata
  | package
  | inactive
  | lock
  | json
  | depth
  deriving DecidableEq, Repr

namespace Flag

/-- The name of an option. -/
def name : Flag → String
  | .verbose => "verbose"
  | .help => "help"
  | .version => "version"
  | .metadata => "meta"
  | .package => "package"
  | .inactive => "inactive"
  | .lock => "lock"
  | .json => "json"
  | .depth => "depth"

/-- The letter of an option. -/
def letter? : Flag → Option Char
  | .verbose => some 'v'
  | .help => some 'h'
  | .version => some 'V'
  | .metadata => some 'm'
  | .package => some 'p'
  | .depth => some 'd'
  | _ => none

/-- Whether an option takes a value. -/
def takesValue : Flag → Bool
  | .metadata => true
  | .package => true
  | .lock => true
  | .depth => true
  | _ => false

end Flag

/-- What a command understands: its options, and how many operands it has. -/
structure Grammar where
  flags : List Flag
  operands : Nat
  deriving DecidableEq, Repr

namespace Grammar

/-- Before the command. -/
def program : Grammar := ⟨[.verbose, .help, .version], 0⟩

/-- The command `resolve`. -/
def resolve : Grammar :=
  ⟨[.metadata, .package, .inactive, .lock, .json, .verbose, .help], 0⟩

/-- The command `lock`. -/
def lock : Grammar := ⟨[.lock, .verbose, .help], 0⟩

/-- The command `trace`. -/
def trace : Grammar := ⟨[.lock, .depth, .verbose, .help], 1⟩

/-- The option of the given name. -/
def named? (grammar : Grammar) (name : String) : Option Flag :=
  grammar.flags.find? (·.name == name)

/-- The option of the given letter. -/
def lettered? (grammar : Grammar) (letter : Char) : Option Flag :=
  grammar.flags.find? (·.letter? == some letter)

end Grammar

/-! ## Values -/

/-- Depths are below this number, which is 2^64. -/
def depthBound : Nat := 0x10000000000000000

/-- A natural number below `depthBound` in decimal digits, which may follow a plus sign. -/
def parseDepth? (value : String) : Option Nat :=
  let digits := match value.toList with
    | '+' :: rest => rest
    | all => all
  if digits.isEmpty || !digits.all Char.isDigit then none
  else
    let n := digits.foldl (fun n d => 10 * n + (d.toNat - '0'.toNat)) 0
    if n < depthBound then some n else none

/-- Judges the value of an option: a path must not be empty, and a depth must be a number. -/
def judgeValue (flag : Flag) (value : String) : Except Usage Unit :=
  match flag with
  | .metadata | .lock => if value = "" then throw .missingValue else return
  | .depth => if (parseDepth? value).isSome then return else throw .malformedValue
  | _ => return

/-- The arguments read so far: options with their values, which are empty for those that take none,
operands, and the option whose value has yet to be judged, if it has come at all. -/
structure Given where
  values : List (Flag × String)
  operands : List String
  pending : Option (Flag × Option String)
  deriving DecidableEq, Repr

namespace Given

/-- No arguments. -/
def nothing : Given := ⟨[], [], none⟩

/-- The value of an option. -/
def value? (given : Given) (flag : Flag) : Option String :=
  given.values.lookup flag

/-- Whether an option is given. -/
def has (given : Given) (flag : Flag) : Bool :=
  (given.value? flag).isSome

/-- Takes note of an option, which may be given only once. -/
def note (given : Given) (flag : Flag) (value : String) : Except Usage Given := do
  if given.has flag then throw .repeated
  judgeValue flag value
  return { given with values := given.values ++ [(flag, value)] }

/-- Judges the option whose value has yet to be judged. -/
def settle (given : Given) : Except Usage Given :=
  match given.pending with
  | none => return given
  | some (_, none) => throw .missingValue
  | some (flag, some value) => { given with pending := none }.note flag value

/-- Takes note of an option that takes no value. -/
def raise (given : Given) (flag : Flag) : Except Usage Given := do
  let given ← given.settle
  match flag with
  | .help => throw .help
  | .version => throw .version
  | flag => given.note flag ""

/-- Takes note of an option with the value attached to it, if there is one. -/
def option (given : Given) (flag : Flag) (attached : Option String) : Except Usage Given := do
  let given ← given.settle
  match attached with
  | some value => given.note flag value
  | none => return { given with pending := some (flag, none) }

end Given

/-! ## Arguments -/

/-- The forms of an argument. -/
inductive Argument where
  /-- Two hyphens. -/
  | escape
  /-- Two hyphens and a name, and perhaps an equals sign and a value. -/
  | long (name : String) (value : Option String)
  /-- One hyphen and letters. -/
  | short (letters : List Char)
  | plain (text : String)
  deriving DecidableEq, Repr

/-- The form of an argument. A hyphen alone is a plain one. -/
def Argument.of (text : String) : Argument :=
  match text.toList with
  | ['-', '-'] => .escape
  | '-' :: '-' :: rest =>
    match rest.dropWhile (· != '=') with
    | [] => .long (String.ofList rest) none
    | _ :: value => .long (String.ofList (rest.takeWhile (· != '='))) (some (String.ofList value))
  | '-' :: c :: rest => .short (c :: rest)
  | _ => .plain text

/-- Reads an option given by name. -/
def readLong (grammar : Grammar) (given : Given) (name : String) (value : Option String) :
    Except Usage Given :=
  match grammar.named? name with
  | none => throw .unknownArgument
  | some flag =>
    if flag.takesValue then given.option flag value
    else match value with
      | some _ => throw .unexpectedValue
      | none => given.raise flag

/-- Reads a cluster of options given by letters. What follows an option that takes a value is its
value. -/
def readShort (grammar : Grammar) (given : Given) : List Char → Except Usage Given
  | [] => return given
  | c :: rest =>
    match grammar.lettered? c with
    | none => throw .unknownArgument
    | some flag =>
      if flag.takesValue then
        match rest with
        | [] => given.option flag none
        | '=' :: value => given.option flag (some (String.ofList value))
        | value => given.option flag (some (String.ofList value))
      else do
        readShort grammar (← given.raise flag) rest

/-- Reads an operand. -/
def readOperand (grammar : Grammar) (given : Given) (text : String) : Except Usage Given :=
  if given.operands.length < grammar.operands then do
    let given ← given.settle
    return { given with operands := given.operands ++ [text] }
  else throw .unknownArgument

/-- Reads the arguments of a command. -/
def readArguments (grammar : Grammar) (given : Given) : List String → Except Usage Given
  | [] => given.settle
  | text :: rest => do
    let given ← match Argument.of text with
      | .escape => return ← (← rest.foldlM (readOperand grammar) given).settle
      | .long name value => readLong grammar given name value
      | .short letters => readShort grammar given letters
      | .plain text =>
        match given.pending with
        | some (flag, none) => pure { given with pending := some (flag, some text) }
        | _ => readOperand grammar given text
    readArguments grammar given rest

/-! ## Commands -/

/-- The names of the commands, the one for help included. -/
def names : List String := ["resolve", "lock", "trace", "help"]

/-- The arguments of a command, together with the path of the lock that the environment gives. -/
def readWithLock (grammar : Grammar) (lock? : Option String) (arguments : List String) :
    Except Usage Given := do
  let given ← readArguments grammar Given.nothing arguments
  match lock? with
  | some path => if given.has .lock then return given else given.note .lock path
  | none => return given

/-- An argument that must be given. -/
def required (value : Option String) : Except Usage String :=
  match value with
  | some value => return value
  | none => throw .missingArgument

/-- Reads the help that is asked for, by the name of at most one command. -/
def readHelp : List String → Usage
  | [] => .help
  | [name] => if names.contains name then .help else .unknownCommand
  | _ => .unknownCommand

/-- Reads a command by its name and its arguments. The environment may give the path of the lock. -/
def read (lock? : Option String) (name : String) (arguments : List String) :
    Except Usage (Command × Bool) :=
  match name with
  | "resolve" => do
    let given ← readWithLock .resolve lock? arguments
    let metadata ← required (given.value? .metadata)
    let package ← required (given.value? .package)
    return (.resolve metadata package (given.has .inactive) (given.value? .lock) (given.has .json),
      given.has .verbose)
  | "lock" => do
    let given ← readWithLock .lock lock? arguments
    return (.lock (given.value? .lock), given.has .verbose)
  | "trace" => do
    let given ← readWithLock .trace lock? arguments
    let source ← required given.operands.head?
    return (.trace source (given.value? .lock) ((given.value? .depth).bind parseDepth?),
      given.has .verbose)
  | "help" => throw (readHelp arguments)
  | _ => throw .unknownCommand

/-- Reads the arguments of the program: its own options, and then the command. -/
def readProgram (lock? : Option String) (given : Given) : List String → Except Usage Invocation
  | [] => throw (if given.values.isEmpty then .nothing else .missingCommand)
  | text :: rest =>
    match Argument.of text with
    | .escape =>
      match rest with
      | [] => throw (if given.values.isEmpty then .nothing else .missingCommand)
      | name :: _ => throw (if names.contains name then .unknownArgument else .unknownCommand)
    | .long name value => do
      readProgram lock? (← readLong .program given name value) rest
    | .short letters => do
      readProgram lock? (← readShort .program given letters) rest
    | .plain name => do
      let (command, verbose) ← read lock? name rest
      return ⟨command, verbose || given.has .verbose⟩

/-- Reads a command line. `lock?` is the path of the lock that the environment gives. -/
def parse (lock? : Option String) (arguments : List String) : Except Usage Invocation :=
  readProgram lock? Given.nothing arguments

end Command

/-! ## Help

What a user reads who asks for help, or whose command line cannot be understood.
-/

/-- The commands and their options. -/
def Command.helpText : String :=
  "Dependency resolver for extension packages\n\n" ++
  "Usage: keel [-v] COMMAND\n\n" ++
  "Commands:\n" ++
  "  resolve -m META -p PACKAGE [--inactive] [--lock LOCK] [--json]\n" ++
  "          Resolve a package revision against the lock\n" ++
  "  lock [--lock LOCK]\n" ++
  "          List the packages recorded in the lock\n" ++
  "  trace SOURCE [--lock LOCK] [-d DEPTH]\n" ++
  "          Print the transitive dependencies of an installed package\n\n" ++
  "Options:\n" ++
  "  -m, --meta       Package metadata file (TOML)\n" ++
  "  -p, --package    Package reference, e.g. registry/org/name:v1.0.0\n" ++
  "      --inactive   Remove the package from the lock instead of installing it\n" ++
  "      --lock       Lock file (defaults to the configured lock path)\n" ++
  "      --json       Print a JSON report\n" ++
  "  -d, --depth      Maximum tree depth to display\n" ++
  "  -v, --verbose    Enable verbose output\n" ++
  "  -h, --help       Print help\n" ++
  "  -V, --version    Print version"

namespace Usage

/-- What is wrong with the command line, in words; nothing if help or the version is asked for. -/
def complaint? : Usage → Option String
  | .help | .version | .nothing => none
  | .missingCommand => some "a command is required"
  | .unknownCommand => some "there is no such command"
  | .unknownArgument => some "an argument is not understood"
  | .missingArgument => some "a required argument is not given"
  | .repeated => some "an option is given twice"
  | .missingValue => some "an option lacks its value"
  | .malformedValue => some "the value of an option is malformed"
  | .unexpectedValue => some "an option that takes no value is given one"

/-- What the user reads. -/
def text (usage : Usage) : String :=
  match usage, usage.complaint? with
  | .version, _ => "keel 0.1.0"
  | _, none => Command.helpText
  | _, some complaint => "error: " ++ complaint ++ "\n\n" ++ Command.helpText

end Usage

end PackageLock
