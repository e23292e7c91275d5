/-!
# JSON values

## Main definitions

* `Json.Number` — a number, which is either an integer of 64 bits or a floating-point number.
* `Json` — a value.
* `Json.field?` — the value of a field of an object.
-/

namespace BooleanSearch

/-- A JSON number. -/
inductive Json.Number
  /-- An integer. -/
  | integer (n : Int)
  /-- A floating-point number. -/
  | float (x : Float)
  deriving DecidableEq, Repr, Inhabited

namespace Json.Number

/-- The integers that are kept exactly: those of 64 bits, with or without a sign. -/
def Fits (n : Int) : Prop := -0x8000000000000000 ≤ n ∧ n < 0x10000000000000000

instance (n : Int) : Decidable (Fits n) := inferInstanceAs (Decidable (_ ∧ _))

end Json.Number

/-- A JSON value.  An object is the list of its fields; its keys are distinct in a value that was
read, and the order of the fields carries no meaning. -/
inductive Json
  /-- The null value. -/
  | null
  /-- A truth value. -/
  | bool (b : Bool)
  /-- A number. -/
  | number (n : Json.Number)
  /-- A string. -/
  | string (s : String)
  /-- An array. -/
  | array (items : List Json)
  /-- An object. -/
  | object (fields : List (String × Json))
  deriving Inhabited

namespace Json

/-- The value of the field named `key`, if the value is an object that has one. -/
def field? (key : String) : Json → Option Json
  | .object fields => fields.lookup key
  | _ => none

end Json

end BooleanSearch
