import PackageLock.Text.Fields

/-!
# Files and paths

The few things the program does with files, as a record of operations in any monad, the ways in which
they fail, and the paths by which files are named.
-/

set_option autoImplicit false

namespace PackageLock

/-! ## Paths

A path is text with slashes between its components; one that begins with a slash is absolute. Paths are
joined as text and never simplified, so that messages show them as they were given.
-/

namespace Path

/-- A path that begins at the root. -/
def isAbsolute (path : String) : Bool :=
  path.toList.head? == some '/'

/-- A path taken relative to a base. A slash is put between them only where one is needed. -/
def join (base path : String) : String :=
  if isAbsolute path || base = "" then path
  else if base.toList.getLast? = some '/' then base ++ path
  else base ++ "/" ++ path

/-- The components of a path. Slashes that follow each other leave empty ones between them. -/
def components (path : String) : List String :=
  (Text.fields (· == '/') path.toList).map String.ofList

/-- The names in a path. An empty component and `.` are no names, as they lead nowhere else. -/
def names (path : String) : List String :=
  (components path).filter fun component => component ≠ "" && component ≠ "."

/-- The directory in which the last name of a path stands. -/
def parent (path : String) : String :=
  let directories := "/".intercalate (names path).dropLast
  if isAbsolute path then "/" ++ directories
  else if directories = "" then "."
  else directories

end Path

/-! ## File access

A file is replaced as a whole or not at all.
-/

/-- Why a file cannot be read or replaced. -/
inductive FileError where
  | notFound
  | notDirectory
  | isDirectory
  | alreadyExists
  | busy
  | nameTooLong
  /-- The path holds a character that no path may hold. -/
  | invalidPath
  /-- The contents are no text. -/
  | invalidText
  /-- Any other failure, in the words of the system. -/
  | other (message : String)
  deriving DecidableEq, Repr

/-- The wording of the error. -/
def FileError.message : FileError → String
  | .notFound => "No such file or directory (os error 2)"
  | .notDirectory => "Not a directory (os error 20)"
  | .isDirectory => "Is a directory (os error 21)"
  | .alreadyExists => "File exists (os error 17)"
  | .busy => "Device or resource busy (os error 16)"
  | .nameTooLong => "File name too long (os error 36)"
  | .invalidPath => "file name contained an unexpected NUL byte"
  | .invalidText => "stream did not contain valid UTF-8"
  | .other message => message

/-- Access to files. -/
structure FileAccess (m : Type → Type) where
  /-- Whether the path leads to a file. -/
  isFile : String → m Bool
  /-- The text of a file. -/
  read : String → m (Except FileError String)
  /-- Replaces a file, or creates it together with the directories on the way to it. -/
  replace : String → String → m (Except FileError Unit)

end PackageLock
