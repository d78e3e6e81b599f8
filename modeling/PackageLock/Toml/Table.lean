/-!
# TOML tables

What a TOML document says, and how it is built up one key at a time.
-/

set_option autoImplicit false

namespace PackageLock

/-! ## Values

A table remembers how it was written, because that decides what a later line of the document may still
add to it; readers of a finished document need not look at this. Entries stand in the order in which
the document introduces them.
-/

namespace Toml

/-- How a table came to be. -/
inductive Origin where
  /-- Written between braces, and closed by its brace. -/
  | inline
  /-- Opened by a header of its own; the document itself counts as such. -/
  | header
  /-- Never written, but named on the way by the header of a table inside it. -/
  | implied
  /-- Named on the way by a dotted key. -/
  | dotted
  deriving DecidableEq, Repr

/-- A TOML value. A date or a time is kept as it is written. -/
inductive Value where
  | string (text : String)
  | integer (value : Int)
  | float (value : Float)
  | boolean (value : Bool)
  | datetime (text : String)
  /-- Items between brackets. -/
  | array (items : List Value)
  /-- Tables that each have a header in double brackets. -/
  | tables (items : List (List (String × Value)))
  | table (origin : Origin) (entries : List (String × Value))
  deriving Inhabited

/-- The entries of a table, in order. -/
abbrev Entries := List (String × Value)

end Toml

/-! ## Building tables

A header opens a table, a dotted key goes through tables that it may create on the way, and everything is
defined once: a second definition of a key, or a key that goes through something that is not an open
table, refutes the whole document.
-/

namespace Toml

/-- The entries with the value of `key` replaced where it stands. -/
def Entries.replace (entries : Entries) (key : String) (value : Value) : Entries :=
  entries.map fun entry => if entry.1 = key then (key, value) else entry

/-- The entries without `key`. -/
def Entries.without (entries : Entries) (key : String) : Entries :=
  entries.filter fun entry => entry.1 ≠ key

/-- Changes the table that `path` leads to below a table of the given origin, and returns what else
`change` has found there. Tables missing on the way are created with the origin `created`; of an array
of tables the last one is meant. A dotted key must not go through a table that has a header. -/
def descend {α : Type} (created : Origin) (change : Origin → Entries → Option (α × Entries)) :
    (path : List String) → Origin → Entries → Option (α × Entries)
  | [], origin, entries => change origin entries
  | key :: path, _, entries =>
    match entries.lookup key with
    | none => do
      let (found, inner) ← descend created change path created []
      return (found, entries ++ [(key, .table created inner)])
    | some (.table origin inner) =>
      if origin == .inline || (created == .dotted && origin == .header) then none
      else do
        let (found, inner) ← descend created change path origin inner
        return (found, entries.replace key (.table origin inner))
    | some (.tables items) =>
      match items.getLast? with
      | none => none
      | some last => do
        let (found, last) ← descend created change path .header last
        return (found, entries.replace key (.tables (items.dropLast ++ [last])))
    | some _ => none

/-- Adds an entry whose key is not defined yet. -/
def Entries.define (entries : Entries) (key : String) (value : Value) : Option (Unit × Entries) :=
  match entries.lookup key with
  | none => some ((), entries ++ [(key, value)])
  | some _ => none

/-- Defines a dotted key, given as the keys on the way and the last one. The table in which it ends
must be the one that is open or have come from dotted keys itself. -/
def Entries.defineDotted (entries : Entries) (path : List String) (key : String) (value : Value) :
    Option Entries := do
  let (_, entries) ← descend .dotted (fun origin entries =>
    if (origin == .dotted) == path.isEmpty then none else entries.define key value)
    path .header entries
  return entries

/-- The entries of a table between braces, given by its pairs of dotted keys and values. -/
def Entries.ofPairs (pairs : List ((List String × String) × Value)) : Option Entries :=
  pairs.foldlM (fun entries ((path, key), value) => entries.defineDotted path key value) []

/-- A document being read: the tables that are complete, and the one that is open. -/
structure Draft where
  root : Entries
  /-- Where the open table belongs: the keys on the way and its own. The document itself has none. -/
  place : Option (List String × String)
  /-- The open table is the next one of an array of tables. -/
  inArray : Bool
  opened : Entries

namespace Draft

/-- The empty document. -/
def empty : Draft := ⟨[], none, false, []⟩

/-- Defines a key in the open table. -/
def define (draft : Draft) (path : List String) (key : String) (value : Value) : Option Draft := do
  return { draft with opened := ← draft.opened.defineDotted path key value }

/-- Puts the open table into its place among the complete ones. -/
def close (draft : Draft) : Option Entries :=
  match draft.place with
  | none => some draft.opened
  | some (path, key) => do
    let (_, root) ← descend .implied (fun _ entries =>
      if draft.inArray then
        match entries.lookup key with
        | some (.tables items) =>
          some ((), entries.replace key (.tables (items ++ [draft.opened])))
        | _ => none
      else entries.define key (.table .header draft.opened))
      path .header draft.root
    return root

/-- Opens the table of a header. A table that the headers of inner tables have implied is taken over,
and moves to the place of its own header. -/
def openTable (draft : Draft) (path : List String) (key : String) : Option Draft := do
  let root ← draft.close
  let (opened, root) ← descend .implied (fun _ entries =>
    match entries.lookup key with
    | none => some ([], entries)
    | some (.table .implied inner) => some (inner, entries.without key)
    | some _ => none) path .header root
  return ⟨root, some (path, key), false, opened⟩

/-- Opens the next table of an array of tables. -/
def openArray (draft : Draft) (path : List String) (key : String) : Option Draft := do
  let root ← draft.close
  let (_, root) ← descend .implied (fun _ entries =>
    match entries.lookup key with
    | none => some ((), entries ++ [(key, .tables [])])
    | some (.tables _) => some ((), entries)
    | some _ => none) path .header root
  return ⟨root, some (path, key), true, []⟩

end Draft

end Toml

end PackageLock
