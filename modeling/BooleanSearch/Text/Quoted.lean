import BooleanSearch.Text.DefaultIgnorable
import BooleanSearch.Text.GraphemeExtend
import BooleanSearch.Text.Unprintable

/-!
# Quoted text

A text between two quote marks, written so that every character of it can be made out.  The
quote mark itself and the backslash are escaped by a backslash, as are the four controls that
have a letter of their own; any other character that would not show is written as its code
point, `\u` and the lowercase hexadecimal digits in braces.

## Main definitions

* `isCombining` — whether a character is drawn onto the one before it.
* `isHidden` — whether a character would not show by itself.
* `Quoted.escape` — how a character is written between quote marks of a given shape.
* `quoted`, `quotedChar`, `quotedList` — the quoted form of a text, of a character and of a list
  of texts.
-/

namespace BooleanSearch

/-- Whether a character is drawn onto the character before it.  The two halfwidth sound marks of
katakana also extend a grapheme, but they fill a place of their own. -/
def isCombining (c : Char) : Bool :=
  graphemeExtend.contains c.toNat && c != '\uff9e' && c != '\uff9f'

/-- Whether a character would not show by itself: it is unprintable, it is ignored by default, or
it is drawn onto the character before it. -/
def isHidden (c : Char) : Bool :=
  unprintable.contains c.toNat || defaultIgnorable.contains c.toNat || isCombining c

namespace Quoted

/-- The lowercase hexadecimal digits of a number, most significant first, without leading
zeros. -/
def hexDigits (n : Nat) : List Char :=
  Nat.toDigits 16 n

/-- How a character is written between two quote marks of the shape `mark`. -/
def escape (mark c : Char) : List Char :=
  if c = mark ∨ c = '\\' then ['\\', c]
  else if c = '\n' then ['\\', 'n']
  else if c = '\r' then ['\\', 'r']
  else if c = '\t' then ['\\', 't']
  else if c = '\x00' then ['\\', '0']
  else if isHidden c then ['\\', 'u', '\x7b'] ++ hexDigits c.toNat ++ ['\x7d']
  else [c]

/-- A text between two quote marks of the shape `mark`. -/
def enclose (mark : Char) (text : List Char) : List Char :=
  mark :: text.flatMap (escape mark) ++ [mark]

end Quoted

/-- A text between double quotes. -/
def quoted (s : String) : String :=
  String.ofList (Quoted.enclose '"' s.toList)

/-- A character between single quotes. -/
def quotedChar (c : Char) : String :=
  String.ofList (Quoted.enclose '\'' [c])

/-- A list of texts in brackets, each between double quotes. -/
def quotedList (l : List String) : String :=
  "[" ++ ", ".intercalate (l.map quoted) ++ "]"

end BooleanSearch
