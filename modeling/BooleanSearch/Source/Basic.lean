/-!
# Character sources

A source hands out the characters of an input one at a time.  In place of a character it may say
that the input is at its end, which need not be the last word, or it may fail.  Asking a source
gives the answer together with the source as it stands afterwards, so whoever lends a source out
has it back when the borrower is done.

## Main definitions

* `CharSource` — the types whose values can be asked for characters.
* `Event`, `Feed` — the source that gives a fixed list of answers.
* `Feed.ofString` — the characters of a string, as a source that never fails.
-/

namespace BooleanSearch

/-- The types whose values can be asked for characters.

All that is asked of a source is its next answer.  That its supply is finite is an assumption: no
answer adds to it, and every character is taken from it.  So there is a last character, whatever
ends and failures come before and behind it, and sources whose characters go on for ever are left
out.  A scanner over such a source need not come to the end of a token. -/
class CharSource (σ : Type) (ε : outParam Type) where
  /-- The next character, or `none` at the end of the input; and the source afterwards. -/
  next : σ → Except ε (Option Char) × σ
  /-- A bound on the number of characters that are still to come. -/
  remaining : σ → Nat
  /-- No answer adds to the supply. -/
  remaining_next_le (s : σ) : remaining (next s).2 ≤ remaining s
  /-- Every character is taken from the supply. -/
  remaining_next_lt (s : σ) (c : Char) :
    (next s).1 = .ok (some c) → remaining (next s).2 < remaining s

/-- An answer that a source has ready. -/
inductive Event (ε : Type)
  /-- A character. -/
  | char (c : Char)
  /-- The end of the input, for the moment. -/
  | stop
  /-- A failure. -/
  | fail (e : ε)
  deriving DecidableEq, Repr

/-- The answers that a source has ready.  After the last of them it is at its end for ever. -/
abbrev Feed (ε : Type) := List (Event ε)

namespace Feed

variable {ε : Type}

/-- The first answer of a feed, and the others. -/
def next : Feed ε → Except ε (Option Char) × Feed ε
  | [] => (.ok none, [])
  | .char c :: rest => (.ok (some c), rest)
  | .stop :: rest => (.ok none, rest)
  | .fail e :: rest => (.error e, rest)

@[simp] theorem next_nil : next ([] : Feed ε) = (.ok none, []) := rfl

@[simp] theorem next_char_cons (c : Char) (rest : Feed ε) :
    next (.char c :: rest) = (.ok (some c), rest) := rfl

@[simp] theorem next_stop_cons (rest : Feed ε) : next (.stop :: rest) = (.ok none, rest) := rfl

@[simp] theorem next_fail_cons (e : ε) (rest : Feed ε) :
    next (.fail e :: rest) = (.error e, rest) := rfl

/-- Every answer but the end that lasts for ever shortens the feed by one. -/
theorem next_snd (feed : Feed ε) : feed.next.2 = feed.tail := by
  cases feed with
  | nil => rfl
  | cons event rest => cases event <;> rfl

instance : CharSource (Feed ε) ε where
  next := next
  remaining := List.length
  remaining_next_le feed := by
    rw [next_snd, List.length_tail]
    exact Nat.sub_le _ _
  remaining_next_lt feed c h := by
    cases feed with
    | nil => simp at h
    | cons event rest =>
      rw [next_snd, List.tail_cons, List.length_cons]
      exact Nat.lt_succ_self _

/-- The characters of a string, each once. -/
def ofString (s : String) : Feed ε :=
  s.toList.map .char

end Feed

end BooleanSearch
