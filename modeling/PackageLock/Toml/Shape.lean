import PackageLock.Toml.Document
import PackageLock.Text.Quoted
import PackageLock.Decimal.Shortest

/-!
# Typed readings of TOML values

A reading takes a value for a string, a number, a sequence, a record or one of a set of names, and
says what it has found instead if it is none. A record is read from a table, key by key in the order
of the document, or from an array, field by field; keys it does not know are passed over.
-/

set_option autoImplicit false

namespace PackageLock.Toml

/-- Why a value cannot be taken for what is expected. -/
inductive ShapeError where
  | wrongType (found expected : String)
  | wrongValue (found expected : String)
  | missingField (name : String)
  | unknownName (name : String) (known : List String)
  | wrongLength (length : Nat) (expected : String)
  /-- A name is expected, and the value is neither a string nor a table. -/
  | noName
  /-- A name may be given by a table with that one key; this table is empty. -/
  | noKey
  /-- Such a table has more than one key. -/
  | manyKeys
  /-- In such a table the key has a value that is not empty. -/
  | notEmpty
  /-- In such a table the key has headers in double brackets. -/
  | hasTables
  /-- In such a table the key has a value that is no table. -/
  | notTable (found : String)
  deriving DecidableEq, Repr

/-- Names between backquotes, as a choice. -/
def choice (names : List String) : String :=
  let quoted := names.map fun name => "`" ++ name ++ "`"
  match quoted with
  | [one] => one
  | [one, other] => one ++ " or " ++ other
  | _ => "one of " ++ ", ".intercalate quoted

/-- The wording of the error. -/
def ShapeError.message : ShapeError → String
  | .wrongType found expected => "invalid type: " ++ found ++ ", expected " ++ expected
  | .wrongValue found expected => "invalid value: " ++ found ++ ", expected " ++ expected
  | .missingField name => "missing field `" ++ name ++ "`"
  | .unknownName name known => "unknown variant `" ++ name ++ "`, expected " ++ choice known
  | .wrongLength length expected => "invalid length " ++ toString length ++ ", expected " ++ expected
  | .noName => "wanted string or table"
  | .noKey => "wanted exactly 1 element, found 0 elements"
  | .manyKeys => "wanted exactly 1 element, more than 1 element"
  | .notEmpty => "expected empty table"
  | .hasTables => "expected empty array"
  | .notTable found => "expected table, found " ++ found

/-- Why a text cannot be read as the document that is expected. -/
inductive ReadError where
  /-- The text is no TOML document. -/
  | malformed
  | shape (error : ShapeError)
  deriving DecidableEq, Repr

/-- The wording of the error. -/
def ReadError.message : ReadError → String
  | .malformed => "TOML parse error"
  | .shape error => error.message

/-- Reads a document and takes its entries for what is expected. -/
def parseAs {α : Type} (reading : Entries → Except ShapeError α) (text : String) :
    Except ReadError α :=
  match parse text with
  | none => .error .malformed
  | some entries =>
    match reading entries with
    | .ok a => .ok a
    | .error e => .error (.shape e)

/-- How a message names a value that it did not expect. -/
def Value.found : Value → String
  | .string text => "string " ++ Text.quote text
  | .integer value => "integer `" ++ toString value ++ "`"
  | .float value => "floating point `" ++ Decimal.textOfFloat value ++ "`"
  | .boolean value => "boolean `" ++ toString value ++ "`"
  | .datetime _ | .table _ _ => "map"
  | .array _ | .tables _ => "sequence"

/-- How a message names the type of a value. -/
def Value.typeName : Value → String
  | .string _ => "string"
  | .integer _ => "integer"
  | .float _ => "float"
  | .boolean _ => "boolean"
  | .datetime _ => "datetime"
  | .array _ => "array"
  | .tables _ => "array of tables"
  | .table _ _ => "table"

/-- Takes a value for a string. -/
def Value.asString : Value → Except ShapeError String
  | .string text => .ok text
  | value => .error (.wrongType value.found "a string")

/-- Takes a value for a natural number; all integers of a document are below 2^63. -/
def Value.asNat : Value → Except ShapeError Nat
  | .integer (.ofNat n) => .ok n
  | .integer n => .error (.wrongValue (Value.integer n).found "u64")
  | value => .error (.wrongType value.found "u64")

/-- Takes a value for a sequence, and each of its items by `item`. -/
def Value.asList {α : Type} (item : Value → Except ShapeError α) :
    Value → Except ShapeError (List α)
  | .array items => items.mapM item
  | .tables items => items.mapM fun entries => item (.table .header entries)
  | value => .error (.wrongType value.found "a sequence")

/-- Takes a value for the record `name`, by its keys or by the place of its items. A date has no key
that a record knows. -/
def Value.asRecord {α : Type} (name : String) (byKey : Entries → Except ShapeError α)
    (byPlace : List Value → Except ShapeError α) : Value → Except ShapeError α
  | .table _ entries => byKey entries
  | .datetime _ => byKey []
  | .array items => byPlace items
  | .tables items => byPlace (items.map (.table .header))
  | value => .error (.wrongType value.found ("struct " ++ name))

/-- What a name from `known` stands for. -/
def nameIn {α : Type} (known : List (String × α)) (name : String) : Except ShapeError α :=
  match known.lookup name with
  | some a => .ok a
  | none => .error (.unknownName name (known.map (·.1)))

/-- Takes the value of the one key of a table that gives a name: it must be empty. -/
def Value.asEmpty : Value → Except ShapeError Unit
  | .array items => if items.isEmpty then .ok () else .error .notEmpty
  | .tables items => if items.isEmpty then .ok () else .error .hasTables
  | .table _ entries => if entries.isEmpty then .ok () else .error .notEmpty
  | value => .error (.notTable value.typeName)

/-- Takes a value for a name from `known`, given as a string or as the one key of a table. -/
def Value.asName {α : Type} (known : List (String × α)) : Value → Except ShapeError α
  | .string name => nameIn known name
  | .table _ [] => .error .noKey
  | .table _ [(key, value)] => do
    let a ← nameIn known key
    value.asEmpty
    return a
  | .table _ _ => .error .manyKeys
  | _ => .error .noName

end PackageLock.Toml
