import BooleanSearch.Proofs.Groups
import BooleanSearch.Proofs.Meaning
import BooleanSearch.Proofs.Phrases

/-!
# Neighbours of a group

Nothing inside a group reaches the node around it.  All that this node keeps of the group is one
more subquery, and words, phrases and `AND` do not look at subqueries: a term comes behind the other
terms, and `AND` asks whether there is a term.  So a group may change places with a term or an `AND`
next to it.

With `OR` it may not.  Where `OR` opens a subquery, a group behind it belongs there.

## Main definitions

* `Neighbour` — what may change places with a group.
* `Neighbour.addTo` — what it does to the node around the group.

## Main results

* `Spine.read_neighbour` — what a neighbour does, wherever it is read.
* `Neighbour.addTo_pushSubquery` — it does the same before and behind a new subquery.
* `parse_exchange_group` — **a group may change places with its neighbour.**
-/

namespace BooleanSearch

/-- What may change places with a group. -/
inductive Neighbour
  /-- A word that is no keyword. -/
  | word (w : PlainWord)
  /-- A phrase, with any text between its quote marks. -/
  | phrase (x : WrittenPhrase)
  /-- The keyword `AND`. -/
  | and

namespace Neighbour

/-- The text of a neighbour. -/
def written : Neighbour → String
  | word w => w.text
  | phrase x => x.written
  | and => Token.and.text

/-- The effect on the node under the cursor. -/
def addTo : Neighbour → Query → Query
  | word w, q => q.pushTerm w.text
  | phrase x, q => q.pushTerm x.term
  | and, q => q.applyAnd

/-- A subquery makes no difference to the effect, and the effect makes none to a subquery. -/
theorem addTo_pushSubquery (n : Neighbour) (q sub : Query) :
    n.addTo (q.pushSubquery sub) = (n.addTo q).pushSubquery sub := by
  cases n with
  | word w => rfl
  | phrase x => rfl
  | and =>
    have hterms : (q.pushSubquery sub).terms = q.terms := rfl
    show (q.pushSubquery sub).applyAnd = q.applyAnd.pushSubquery sub
    rw [Query.applyAnd, Query.applyAnd, hterms]
    split
    · rfl
    · rfl

end Neighbour

namespace Spine

/-- A neighbour of a group changes the node under the cursor and nothing else. -/
theorem read_neighbour (q : Query) (above : List Query) (n : Neighbour) {rest : List Char}
    (hrest : rest.takeWhile isWordChar = []) :
    read ⟨q, above, none⟩ (n.written.toList ++ rest) = read ⟨n.addTo q, above, none⟩ rest := by
  cases n with
  | word w => exact read_plainWord w hrest
  | phrase x => exact read_written_phrase q above x rest
  | and =>
    have hword : isWord Token.and.text = true := Occur.isWord_text_keyword .must
    have hstep : step ⟨q, above, none⟩ (.ofWord Token.and.text) = ⟨q.applyAnd, above, none⟩ := by
      rw [show Token.ofWord Token.and.text = .and from Occur.ofWord_text_keyword .must]
      rfl
    show read _ (Token.and.text.toList ++ rest) = read ⟨q.applyAnd, above, none⟩ rest
    rw [read_ofWord _ hword hrest, hstep]

end Spine

/-- **A group may change places with its neighbour**, whatever comes before them, if it leaves no
phrase open, and whatever comes behind them. -/
theorem parse_exchange_group {p b : String} (hp : HasEvenQuotes p) (hb : IsBalanced b)
    (n : Neighbour) (r : String) :
    parse (p ++ " " ++ n.written ++ " (" ++ b ++ ") " ++ r)
      = parse (p ++ " (" ++ b ++ ") " ++ n.written ++ " " ++ r) := by
  have hbefore : (p ++ " " ++ n.written ++ " (" ++ b ++ ") " ++ r).toList
      = p.toList ++ ' ' :: (n.written.toList ++ ' ' :: '(' ::
          (b.toList ++ ')' :: ' ' :: r.toList)) := by
    simp
  have hbehind : (p ++ " (" ++ b ++ ") " ++ n.written ++ " " ++ r).toList
      = p.toList ++ ' ' :: '(' ::
          (b.toList ++ ')' :: ' ' :: (n.written.toList ++ ' ' :: r.toList)) := by
    simp
  have hphrase := Spine.phrase_read_of_hasEvenQuotes hp
  rcases hz : ({} : Spine).read p.toList with ⟨q, above, phrase⟩
  rw [hz] at hphrase
  obtain rfl : phrase = none := hphrase
  have hblank : isBlank ' ' = true := rfl
  -- either way the node under the cursor gets the neighbour and the group, and the rest follows
  have hleft : ({} : Spine).read (p ++ " " ++ n.written ++ " (" ++ b ++ ") " ++ r).toList
      = Spine.read ⟨(n.addTo q).pushSubquery (groupTree b), above, none⟩ r.toList := by
    rw [hbefore, Spine.read_append_blank _ _ hblank, hz, Spine.read_neighbour q above n rfl,
      Spine.read_blank _ hblank, Spine.read_group _ above hb, Spine.read_blank _ hblank]
  have hright : ({} : Spine).read (p ++ " (" ++ b ++ ") " ++ n.written ++ " " ++ r).toList
      = Spine.read ⟨n.addTo (q.pushSubquery (groupTree b)), above, none⟩ r.toList := by
    rw [hbehind, Spine.read_append_blank _ _ hblank, hz, Spine.read_group q above hb,
      Spine.read_blank _ hblank, Spine.read_neighbour _ above n rfl, Spine.read_blank _ hblank]
  rw [parse_eq_read, parse_eq_read, hleft, hright, n.addTo_pushSubquery]

/-- A phrase with an operator and a parenthesis, and a group in which a subquery is enough, below
the root and behind an `OR` that opened a subquery. -/
theorem parse_exchange_group_pears :
    HasEvenQuotes "ripe figs OR (dates" ∧ IsBalanced "pears OR (kiwis \")\")" ∧
    parse ("ripe figs OR (dates" ++ " " ++ "“OR (plums\"" ++ " (" ++ "pears OR (kiwis \")\")"
        ++ ") " ++ "OR limes)) melons")
      = parse ("ripe figs OR (dates" ++ " (" ++ "pears OR (kiwis \")\")" ++ ") " ++ "“OR (plums\""
        ++ " " ++ "OR limes)) melons") := by
  have heven : HasEvenQuotes "ripe figs OR (dates" := by decide
  have hbalanced : IsBalanced "pears OR (kiwis \")\")" := by decide
  let x : WrittenPhrase := ⟨'“', "OR (plums", '"', rfl, rfl, by simp [isQuote]⟩
  exact ⟨heven, hbalanced, parse_exchange_group heven hbalanced (.phrase x) "OR limes)) melons"⟩

/-- Behind an `OR` that opens a subquery, a group belongs to the subquery. -/
example : parse "pears plums OR (figs)" ≠ parse "pears plums (figs) OR" := by
  rw [parse_eq_read, parse_eq_read]
  decide +kernel

end BooleanSearch
