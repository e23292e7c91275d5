import BooleanSearch.Decimal.Layout
import BooleanSearch.Json.Basic

/-!
# JSON text

The text of a value, without any blanks.  In a string the quote mark, the backslash and the
controls below U+0020 are escaped, and nothing else is.

## Main definitions

* `Json.escape` — how a character is written in a JSON string.
* `Json.stringText` — the text of a string.
* `Json.Number.text` — the text of a number.
* `Json.text` — the text of a value.
-/

namespace BooleanSearch

namespace Json

/-- The hexadecimal digits of a code point below 256, always two of them. -/
def twoHexDigits (n : Nat) : List Char :=
  [Nat.digitChar (n / 16), Nat.digitChar (n % 16)]

/-- How a character is written in a JSON string. -/
def escape (c : Char) : List Char :=
  if c = '"' ∨ c = '\\' then ['\\', c]
  else if c = '\x08' then ['\\', 'b']
  else if c = '\x0c' then ['\\', 'f']
  else if c = '\n' then ['\\', 'n']
  else if c = '\r' then ['\\', 'r']
  else if c = '\t' then ['\\', 't']
  else if c.toNat < 0x20 then ['\\', 'u', '0', '0'] ++ twoHexDigits c.toNat
  else [c]

/-- The text of a string, with its quote marks. -/
def stringText (s : String) : String :=
  String.ofList ('"' :: s.toList.flatMap escape ++ ['"'])

/-- Floating-point numbers from `0.00001` on and below `10 ^ 16` are written without an exponent. -/
def Number.layout : Decimal.Layout where
  least := -5
  greatest := 15

/-- The text of a number. -/
def Number.text : Number → String
  | .integer n => toString n
  | .float x => layout.floatText x

mutual

/-- Writes a value after the text `out`. -/
def write (out : String) : Json → String
  | .null => out ++ "null"
  | .bool true => out ++ "true"
  | .bool false => out ++ "false"
  | .number n => out ++ n.text
  | .string s => out ++ stringText s
  | .array [] => out ++ "[]"
  | .array (item :: items) => writeItems (write (out ++ "[") item) items ++ "]"
  | .object [] => out ++ "\x7b\x7d"
  | .object ((key, value) :: fields) =>
    writeFields (write (out ++ "\x7b" ++ stringText key ++ ":") value) fields ++ "\x7d"

/-- Writes values after the text `out`, each with a comma in front. -/
def writeItems (out : String) : List Json → String
  | [] => out
  | item :: items => writeItems (write (out ++ ",") item) items

/-- Writes fields after the text `out`, each with a comma in front. -/
def writeFields (out : String) : List (String × Json) → String
  | [] => out
  | (key, value) :: fields =>
    writeFields (write (out ++ "," ++ stringText key ++ ":") value) fields

end

/-- The text of a value. -/
def text (v : Json) : String :=
  write "" v

end Json

end BooleanSearch
