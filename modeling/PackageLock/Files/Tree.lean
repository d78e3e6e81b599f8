import PackageLock.Files.Basic

/-!
# File trees

Files and directories as data: each is kept under the list of names that leads to it from the root. A
path is followed name by name, and every name before the last must lead to a directory; `..` leads back
to the one above.
-/

set_option autoImplicit false

namespace PackageLock

/-- What a file holds: text, or bytes that are no text. -/
inductive Contents where
  | text (text : String)
  | binary (bytes : List UInt8)
  deriving DecidableEq, Repr

/-- The contents with the given bytes. -/
def Contents.ofBytes (bytes : List UInt8) : Contents :=
  match String.fromUTF8? ⟨bytes.toArray⟩ with
  | some s => .text s
  | none => .binary bytes

/-- What stands at a place of a file tree. -/
inductive FileNode where
  | directory
  | file (contents : Contents)
  deriving DecidableEq, Repr

/-- The names that lead from the root to a file or directory. -/
abbrev Place := List String

/-- Files and directories, and the directory where relative paths begin. -/
structure FileTree where
  nodes : List (Place × FileNode)
  current : Place
  deriving Repr

namespace FileTree

/-- What stands at a place; the root is always a directory. -/
def at? (tree : FileTree) (place : Place) : Option FileNode :=
  if place = [] then some .directory else tree.nodes.lookup place

/-- The tree with something put at a place. -/
def put (tree : FileTree) (place : Place) (node : FileNode) : FileTree :=
  { tree with nodes := (place, node) :: tree.nodes.filter (·.1 ≠ place) }

/-- The tree with a directory at a place and above it, wherever there is nothing yet. -/
def makeDirectories (tree : FileTree) (place : Place) : FileTree :=
  (List.range place.length).foldl (fun tree depth =>
    let place := place.take (depth + 1)
    match tree.at? place with
    | some _ => tree
    | none => tree.put place .directory) tree

/-- The longest name of a file, in bytes. -/
def nameBound : Nat := 255

/-- The longest path, in bytes. -/
def pathBound : Nat := 4095

/-- Follows the components of a path from a place. Each component before the last must lead to a
directory; to what the last one leads does not matter. -/
def follow (tree : FileTree) (place : Place) : List String → Except FileError Place
  | [] => .ok place
  | name :: rest =>
    match tree.at? place with
    | none => .error .notFound
    | some (.file _) => .error .notDirectory
    | some .directory =>
      if name = "" || name = "." then tree.follow place rest
      else if name = ".." then tree.follow place.dropLast rest
      else if nameBound < name.utf8ByteSize then .error .nameTooLong
      else tree.follow (place ++ [name]) rest

/-- The directory to which components lead from a place. -/
def directoryAt (tree : FileTree) (place : Place) (components : List String) :
    Except FileError Place := do
  let found ← tree.follow place components
  match tree.at? found with
  | none => .error .notFound
  | some (.file _) => .error .notDirectory
  | some .directory => .ok found

/-- The place from which a path is followed. -/
def start (tree : FileTree) (path : String) : Place :=
  if Path.isAbsolute path then [] else tree.current

/-- The place that a path leads to, whether or not something stands there. -/
def locate (tree : FileTree) (path : String) : Except FileError Place :=
  if path.toList.contains '\x00' then .error .invalidPath
  else if path = "" then .error .notFound
  else if pathBound < path.utf8ByteSize then .error .nameTooLong
  else tree.follow (tree.start path) (Path.components path)

/-- Whether a path leads to a file. -/
def isFile (tree : FileTree) (path : String) : Bool :=
  match tree.locate path with
  | .ok place =>
    match tree.at? place with
    | some (.file _) => true
    | _ => false
  | .error _ => false

/-- The text of the file that a path leads to. -/
def read (tree : FileTree) (path : String) : Except FileError String := do
  match tree.at? (← tree.locate path) with
  | none => .error .notFound
  | some .directory => .error .isDirectory
  | some (.file (.text text)) => .ok text
  | some (.file (.binary _)) => .error .invalidText

/-- The components of a path as far as the directory in which its last name stands, and that name.
Slashes at the end of a path count for nothing here. -/
def splitLast (path : String) : List String × Option String :=
  let components := (Path.components path).reverse.dropWhile (· = "")
  (components.tail.reverse, components.head?)

/-! ## Changes -/

/-- Makes the directory `name` in the directory to which names lead from a place. -/
def makeDirectory (tree : FileTree) (place : Place) (names : List String) (name : String) :
    Except FileError FileTree := do
  let directory ← tree.directoryAt place names
  if name = ".." then .error .alreadyExists
  else if nameBound < name.utf8ByteSize then .error .nameTooLong
  else match tree.at? (directory ++ [name]) with
    | some _ => .error .alreadyExists
    | none => .ok (tree.put (directory ++ [name]) .directory)

/-- Makes a directory unless it is there already. -/
def ensureDirectory (tree : FileTree) (place : Place) (names : List String) (name : String) :
    Except FileError FileTree :=
  match tree.makeDirectory place names name with
  | .error .alreadyExists =>
    match tree.directoryAt place (names ++ [name]) with
    | .ok _ => .ok tree
    | .error _ => .error .alreadyExists
  | made => made

/-- Work on a tree that may fail. What has been done before a failure stays done. -/
abbrev Walk := EStateM FileError FileTree

/-- A change that is made as a whole or not at all. -/
def change (f : FileTree → Except FileError FileTree) : Walk Unit := fun tree =>
  match f tree with
  | .ok changed => .ok () changed
  | .error e => .error e tree

/-- Makes a directory and those above it that are missing. The names that lead to it come in reverse
order. -/
def ensureDirectories (place : Place) : List String → Walk Unit
  | [] => return
  | name :: above => do
    match (← get).ensureDirectory place above.reverse name with
    | .error .notFound =>
      ensureDirectories place above
      change (·.ensureDirectory place above.reverse name)
    | .error e => throw e
    | .ok made => set made

/-- Puts a file where a path leads to, in place of the file that is there, if any. -/
def putFile (tree : FileTree) (path text : String) : Except FileError FileTree := do
  let (above, last) := splitLast path
  let directory ← tree.directoryAt (tree.start path) above
  match last with
  | none | some "." | some ".." => .error .busy
  | some name =>
    if nameBound < name.utf8ByteSize then .error .nameTooLong
    else if path.toList.getLast? = some '/' then .error .notDirectory
    else match tree.at? (directory ++ [name]) with
      | some .directory => .error .isDirectory
      | _ => .ok (tree.put (directory ++ [name]) (.file (.text text)))

/-- Replaces the file that a path leads to, or creates it with the directories on the way. The new file
is written in the directory of the last name, and then moved to where the path leads. -/
def replace (path text : String) : Walk Unit := do
  let tree ← get
  let place := tree.start path
  let names := (Path.names path).dropLast
  match tree.directoryAt place names with
  | .error .notFound => ensureDirectories place names.reverse
  | .error e => throw e
  | .ok _ => pure ()
  change (·.putFile path text)

/-- Access to the files of a tree that is the state of the work. -/
def access : FileAccess (StateM FileTree) where
  isFile path := return (← get).isFile path
  read path := return (← get).read path
  replace path text := fun tree =>
    match (replace path text).run tree with
    | .ok () tree => (.ok (), tree)
    | .error e tree => (.error e, tree)

end FileTree

end PackageLock
