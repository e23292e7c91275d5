import BooleanSearch.Draft
import BooleanSearch.Text.Quoted

/-!
# Notices

What is said of the parts of a search string that have no effect.  None of it is an error: the
rest of the string means what it means without those parts.

## Main definitions

* `Notice` — the notices, with their level, message and details.
* `Draft.notice?` — the notice that a token gives rise to.
* `Draft.closingNotices` — the notices at the end of the input.
-/

namespace BooleanSearch

/-- How much a notice matters. -/
inductive Notice.Level
  /-- Of interest only to someone who follows every step. -/
  | trace
  /-- Of interest to someone who looks for a mistake. -/
  | debug
  deriving DecidableEq, Repr

/-- The name of a level. -/
def Notice.Level.text : Notice.Level → String
  | .trace => "TRACE"
  | .debug => "DEBUG"

/-- What is said of a part of a search string that has no effect. -/
inductive Notice
  /-- A character means nothing in the language. -/
  | strayCharacter (c : Char)
  /-- A closing parenthesis has no partner. -/
  | unmatchedClose
  /-- A phrase does not end. -/
  | openPhrase (words : List String)
  /-- Opening parentheses have no partner, and this many do not. -/
  | openGroups (count : Nat)
  deriving DecidableEq, Repr

namespace Notice

/-- The level of a notice. -/
def level : Notice → Level
  | strayCharacter _ | unmatchedClose => .trace
  | openPhrase _ | openGroups _ => .debug

/-- The message of a notice. -/
def message : Notice → String
  | strayCharacter _ => "dropping unrecognized character"
  | unmatchedClose => "ignoring unmatched closing parenthesis"
  | openPhrase _ => "discarding unterminated phrase at end of input"
  | openGroups _ => "end of input inside unclosed parentheses"

/-- The name and the text of the detail that a notice gives, if it gives one. -/
def detail? : Notice → Option (String × String)
  | strayCharacter c => some ("ch", quotedChar c)
  | unmatchedClose => none
  | openPhrase words => some ("words", quotedList words)
  | openGroups count => some ("open", toString count)

end Notice

namespace Draft

/-- The notice that a token gives rise to.  Parentheses inside a phrase go unnoticed. -/
def notice? (d : Draft) : Token → Option Notice
  | .illegal c => some (.strayCharacter c)
  | .rightParen => if d.phrase.isNone && d.path.isEmpty then some .unmatchedClose else none
  | _ => none

/-- The notices at the end of the input, about a phrase and about groups that are still open. -/
def closingNotices (d : Draft) : List Notice :=
  (d.phrase.map fun words => Notice.openPhrase words.toList).toList ++
    if d.path.isEmpty then [] else [.openGroups d.path.length]

end Draft

end BooleanSearch
