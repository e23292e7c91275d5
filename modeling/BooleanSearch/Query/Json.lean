import BooleanSearch.Json.Printer
import BooleanSearch.Query.Basic
import BooleanSearch.Text.Quoted

/-!
# Query trees as JSON values

A tree is written as an object with the fields `occur`, `terms` and `subqueries`.  It is read
back from such an object, whatever other fields that has, and also from an array of the three
parts; a requirement is read from its word, and also from an object whose only key is that word
and whose value is null.

Of several faults the first one met is reported.  An array is read from the left.  In an object
the fields are read in the order `occur`, `subqueries`, `terms`, and only then is any of them
missed, in the order `occur`, `terms`, `subqueries`.

## Main definitions

* `Query.toJson` — the value of a tree.
* `Query.Part` — the three parts of a node, by name.
* `Query.DecodeError` — what may be wrong with a value, with the `message` that says so.
* `Query.ofJson` — the tree of a value.
-/

namespace BooleanSearch

namespace Query

/-- The parts of a node. -/
inductive Part
  /-- The requirement. -/
  | occur
  /-- The terms. -/
  | terms
  /-- The subqueries. -/
  | subqueries
  deriving DecidableEq, Repr

/-- The key of a part in an object. -/
def Part.key : Part → String
  | .occur => "occur"
  | .terms => "terms"
  | .subqueries => "subqueries"

mutual

/-- The JSON value of a tree. -/
def toJson : Query → Json
  | ⟨occur, terms, subs⟩ =>
    .object [
      (Part.occur.key, .string occur.text),
      (Part.terms.key, .array (terms.map .string)),
      (Part.subqueries.key, .array (toJsonAll subs))]

/-- The JSON values of a list of trees. -/
def toJsonAll : List Query → List Json
  | [] => []
  | q :: qs => q.toJson :: toJsonAll qs

end

/-- The shapes of value that a place in the JSON form of a tree admits. -/
inductive Shape
  /-- A tree: an object or an array. -/
  | query
  /-- A requirement: a string or an object. -/
  | occur
  /-- An array. -/
  | sequence
  /-- A string. -/
  | string
  /-- The null value. -/
  | null
  deriving DecidableEq, Repr

/-- The name of a shape. -/
def Shape.text : Shape → String
  | .query => "struct Query"
  | .occur => "string or map"
  | .sequence => "a sequence"
  | .string => "a string"
  | .null => "unit"

/-- Why a value is not the JSON form of a tree. -/
inductive DecodeError
  /-- A value of another shape than its place admits. -/
  | shape (found : Json) (expected : Shape)
  /-- A word that stands for no requirement. -/
  | unknownOccur (word : String)
  /-- A requirement that is an object with more or fewer keys than one. -/
  | keyCount
  /-- An object without one of the three parts. -/
  | missing (part : Part)
  /-- An array of `length` elements, which is fewer than three. -/
  | tooShort (length : Nat)
  /-- An array of `length` elements, which is more than three. -/
  | tooLong (length : Nat)

/-- How an error message names a value. -/
def describe : Json → String
  | .null => "null"
  | .bool b => "boolean `" ++ toString b ++ "`"
  | .number n@(.integer _) => "integer `" ++ n.text ++ "`"
  | .number n@(.float _) => "floating point `" ++ n.text ++ "`"
  | .string s => "string " ++ quoted s
  | .array _ => "sequence"
  | .object _ => "map"

/-- The message that reports an error. -/
def DecodeError.message : DecodeError → String
  | .shape found expected =>
    "invalid type: " ++ describe found ++ ", expected " ++ expected.text
  | .unknownOccur word => "unknown variant `" ++ word ++ "`, expected `MUST` or `SHOULD`"
  | .keyCount => "invalid value: map, expected map with a single key"
  | .missing part => "missing field `" ++ part.key ++ "`"
  | .tooShort n => "invalid length " ++ toString n ++ ", expected struct Query with 3 elements"
  | .tooLong n => "invalid length " ++ toString n ++ ", expected fewer elements in array"

/-- The requirement that a word stands for. -/
def occurOfWord (word : String) : Except DecodeError Occur :=
  match Occur.ofText? word with
  | some o => .ok o
  | none => .error (.unknownOccur word)

/-- The requirement of a value. -/
def occurOfJson : Json → Except DecodeError Occur
  | .string word => occurOfWord word
  | .object [(word, value)] => do
    let o ← occurOfWord word
    match value with
    | .null => return o
    | found => throw (.shape found .null)
  | .object _ => throw .keyCount
  | found => throw (.shape found .occur)

/-- The term of a value. -/
def termOfJson : Json → Except DecodeError String
  | .string s => .ok s
  | found => .error (.shape found .string)

/-- The terms of a value. -/
def termsOfJson : Json → Except DecodeError (List String)
  | .array items => items.mapM termOfJson
  | found => .error (.shape found .sequence)

/-- What was read of a part of an object, or the complaint that it is missing. -/
def require {α : Type} (part : Part) : Option α → Except DecodeError α
  | some a => .ok a
  | none => .error (.missing part)

mutual

/-- The tree of a value. -/
def ofJson : Json → Except DecodeError Query
  | .object fields => do
    let occur? ← (fields.lookup Part.occur.key).mapM occurOfJson
    let subs? ← subqueriesOfFields fields
    let terms? ← (fields.lookup Part.terms.key).mapM termsOfJson
    let occur ← require .occur occur?
    let terms ← require .terms terms?
    let subs ← require .subqueries subs?
    return ⟨occur, terms, subs⟩
  | .array items => ofItems items
  | found => .error (.shape found .query)

/-- The tree of the elements of an array. -/
def ofItems : List Json → Except DecodeError Query
  | [] => .error (.tooShort 0)
  | [o] => do
    let _ ← occurOfJson o
    throw (.tooShort 1)
  | [o, ts] => do
    let _ ← occurOfJson o
    let _ ← termsOfJson ts
    throw (.tooShort 2)
  | o :: ts :: ss :: rest => do
    let occur ← occurOfJson o
    let terms ← termsOfJson ts
    let subs ← subqueriesOfJson ss
    if rest.isEmpty then return ⟨occur, terms, subs⟩
    else throw (.tooLong (3 + rest.length))

/-- The subqueries that the fields of an object hold, if there is such a field. -/
def subqueriesOfFields : List (String × Json) → Except DecodeError (Option (List Query))
  | [] => .ok none
  | (key, value) :: fields =>
    if key == Part.subqueries.key then do return some (← subqueriesOfJson value)
    else subqueriesOfFields fields

/-- The subqueries of a value. -/
def subqueriesOfJson : Json → Except DecodeError (List Query)
  | .array items => ofJsonAll items
  | found => .error (.shape found .sequence)

/-- The trees of a list of values. -/
def ofJsonAll : List Json → Except DecodeError (List Query)
  | [] => .ok []
  | item :: items => do
    let q ← ofJson item
    let qs ← ofJsonAll items
    return q :: qs

end

end Query

end BooleanSearch
