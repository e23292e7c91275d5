/-!
# Tokens

The tokens of the search language.  Blanks and word characters stand in runs, which make one token
each; every other character is a token by itself.

## Main definitions

* `isBlank`, `isLetter`, `isWordChar` — the classes of characters that form runs.
* `Token` — the tokens.
* `Token.ofWord`, `Token.ofMark` — the token of a run of word characters, and of a character that
  belongs to no run.
* `Token.text` — the text of a token.
-/

namespace BooleanSearch

/-- Whether a character separates words. -/
def isBlank (c : Char) : Bool :=
  c == ' ' || c == '\t' || c == '\n'

/-- Whether a word may begin with a character.  Only the letters of ASCII count. -/
def isLetter (c : Char) : Bool :=
  c.isAlpha

/-- Whether a word may go on with a character. -/
def isWordChar (c : Char) : Bool :=
  c.isAlphanum || c == '_'

theorem isWordChar_of_isLetter {c : Char} (h : isLetter c = true) : isWordChar c = true := by
  unfold isLetter at h
  simp [isWordChar, Char.isAlphanum, h]

/-- A token of the search language. -/
inductive Token
  /-- A character that means nothing in the language. -/
  | illegal (c : Char)
  /-- The end of the input. -/
  | endOfInput
  /-- A run of blanks. -/
  | whitespace (text : String)
  /-- A word. -/
  | literal (word : String)
  /-- An opening parenthesis. -/
  | leftParen
  /-- A closing parenthesis. -/
  | rightParen
  /-- A double quote, straight or curved. -/
  | quoteMark
  /-- The keyword `AND`. -/
  | and
  /-- The keyword `OR`. -/
  | or
  deriving DecidableEq, Repr, Inhabited

namespace Token

/-- The token of a run of word characters.  Only the two keywords in capitals are special. -/
def ofWord : String → Token
  | "AND" => .and
  | "OR" => .or
  | word => .literal word

/-- The token of a character that belongs to no run. -/
def ofMark (c : Char) : Token :=
  if c = '(' then .leftParen
  else if c = ')' then .rightParen
  else if c = '"' ∨ c = '\u201C' ∨ c = '\u201D' then .quoteMark
  else .illegal c

/-- The text of a token.  A curved quote is written as a straight one. -/
def text : Token → String
  | .illegal c => String.singleton c
  | .endOfInput => ""
  | .whitespace text => text
  | .literal word => word
  | .leftParen => "("
  | .rightParen => ")"
  | .quoteMark => "\""
  | .and => "AND"
  | .or => "OR"

@[simp] theorem text_ofWord (word : String) : (ofWord word).text = word := by
  unfold ofWord
  split <;> rfl

theorem ofWord_ne_endOfInput (word : String) : ofWord word ≠ .endOfInput := by
  unfold ofWord
  split <;> simp

theorem ofMark_ne_endOfInput (c : Char) : ofMark c ≠ .endOfInput := by
  unfold ofMark
  split
  · simp
  split
  · simp
  split <;> simp

end Token

end BooleanSearch
