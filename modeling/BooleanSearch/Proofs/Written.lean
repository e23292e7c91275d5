import BooleanSearch.Proofs.Nesting
import BooleanSearch.Proofs.WellFormed

/-!
# The written form of a tree

Every well-formed tree can be written down as a search string: `OR` first, if that is what the node
requires, then each term as a phrase, then each subquery in parentheses.  Read again, the string
gives the tree back, so the trees that search strings have are the well-formed ones and no others.

`OR` comes before the terms since the root would else open a subquery for it, and terms are written
as phrases since a word on its own might be a keyword and an empty term would vanish.

## Main definitions

* `Query.written` — the written form.

## Main results

* `Spine.read_written` — reading the written form of a tree in a new node.
* `parse_image` — **the trees of search strings are the well-formed trees.**
-/

namespace BooleanSearch

namespace Query

/-- The keyword that a requirement is written with. -/
def writtenOccur : Occur → String
  | .must => ""
  | .should => "OR "

/-- The written form of terms. -/
def writtenTerms : List String → String
  | [] => ""
  | term :: terms => "\"" ++ term ++ "\" " ++ writtenTerms terms

mutual

/-- The written form of a tree. -/
def written : Query → String
  | ⟨o, ts, subs⟩ => writtenOccur o ++ writtenTerms ts ++ writtenAll subs

/-- The written form of subqueries. -/
def writtenAll : List Query → String
  | [] => ""
  | q :: qs => "(" ++ q.written ++ ")" ++ writtenAll qs

end

end Query

namespace Spine

open Query

variable {q : Query} {above : List Query}

/-! ### Reading the parts of a node -/

/-- A word is one token, whether it is a keyword or not. -/
theorem read_ofWord (z : Spine) {w : String} (hw : isWord w = true) {rest : List Char}
    (hrest : rest.takeWhile isWordChar = []) :
    z.read (w.toList ++ rest) = (z.step (.ofWord w)).read rest := by
  obtain ⟨c, cs, rfl, hc, hcs⟩ := exists_of_isWord hw
  rw [String.toList_ofList, read_word _ hc hcs hrest]

/-- The keyword sets the requirement of a node without terms, at the root as in a group. -/
theorem read_writtenOccur (o : Occur) (rest : List Char) :
    read ⟨{}, above, none⟩ ((writtenOccur o).toList ++ rest)
      = read ⟨{ occur := o }, above, none⟩ rest := by
  cases o with
  | must => rfl
  | should =>
    have htext : (writtenOccur .should).toList ++ rest = "OR".toList ++ ' ' :: rest := rfl
    have hword : Token.ofWord "OR" = .or := rfl
    have hstep : step ⟨{}, above, none⟩ .or = ⟨{ occur := .should }, above, none⟩ := by
      cases above <;> rfl
    rw [htext, read_ofWord _ rfl rfl, hword, hstep, read_blank _ rfl]

/-- A word inside a phrase, keywords included. -/
theorem step_ofWord_in_phrase (w : String) (words : List String) :
    step ⟨q, above, some words⟩ (.ofWord w) = ⟨q, above, some (words ++ [w])⟩ := by
  unfold Token.ofWord
  split <;> rfl

/-- The words of a term are collected by a phrase. -/
theorem read_words (words more : List String) (hmore : ∀ w ∈ more, isWord w = true) :
    read ⟨q, above, some words⟩ (" ".intercalate more).toList
      = ⟨q, above, some (words ++ more)⟩ := by
  induction more generalizing words with
  | nil => simp
  | cons w more ih =>
    rw [List.forall_mem_cons] at hmore
    have hread (rest : List Char) (hrest : rest.takeWhile isWordChar = []) :
        read ⟨q, above, some words⟩ (w.toList ++ rest)
          = read ⟨q, above, some (words ++ [w])⟩ rest := by
      rw [read_ofWord _ hmore.1 hrest, step_ofWord_in_phrase]
    cases more with
    | nil => simpa using hread [] rfl
    | cons v more =>
      -- the next word begins after a space, which ends this one
      have htext : (" ".intercalate (w :: v :: more)).toList
          = w.toList ++ ' ' :: (" ".intercalate (v :: more)).toList := by
        simp [String.intercalate_cons_cons]
      rw [htext, hread _ rfl, read_blank _ rfl, ih _ hmore.2, List.append_assoc]
      rfl

/-- A term between quote marks of any kind becomes a term of the node. -/
theorem read_phrase {opening closing : Char} (hopening : isQuote opening = true)
    (hclosing : isQuote closing = true) {term : String} (hterm : IsTerm term)
    (rest : List Char) :
    read ⟨q, above, none⟩ (opening :: (term.toList ++ closing :: rest))
      = read ⟨q.pushTerm term, above, none⟩ rest := by
  obtain ⟨words, hwords, rfl⟩ := hterm
  have hopen : step ⟨q, above, none⟩ .quoteMark = ⟨q, above, some []⟩ := rfl
  have hclose : step ⟨q, above, some words⟩ .quoteMark
      = ⟨q.pushTerm (" ".intercalate words), above, none⟩ := rfl
  rw [read_mark _ (isMark_of_isQuote hopening), Token.ofMark_eq_quoteMark_iff.2 hopening, hopen,
    read_append_mark _ _ (isMark_of_isQuote hclosing), read_words [] words hwords,
    List.nil_append, Token.ofMark_eq_quoteMark_iff.2 hclosing, hclose]

theorem read_writtenTerms {terms : List String} (hterms : ∀ term ∈ terms, IsTerm term)
    (rest : List Char) :
    read ⟨q, above, none⟩ ((writtenTerms terms).toList ++ rest)
      = read ⟨{ q with terms := q.terms ++ terms }, above, none⟩ rest := by
  induction terms generalizing q with
  | nil =>
    have htext : (writtenTerms []).toList ++ rest = rest := by simp [writtenTerms]
    rw [htext, List.append_nil]
    cases q
    rfl
  | cons term terms ih =>
    rw [List.forall_mem_cons] at hterms
    have htext : (writtenTerms (term :: terms)).toList ++ rest
        = '"' :: (term.toList ++ '"' :: ' ' :: ((writtenTerms terms).toList ++ rest)) := by
      simp [writtenTerms]
    rw [htext, read_phrase rfl rfl hterms.1, read_blank _ rfl, ih hterms.2]
    simp [pushTerm]

/-! ### Reading a tree -/

mutual

/-- The written form of a tree, read in a new node, makes the tree of the node. -/
theorem read_written : ∀ (q : Query) (above : List Query) (rest : List Char), q.WellFormed →
    read ⟨{}, above, none⟩ (q.written.toList ++ rest) = read ⟨q, above, none⟩ rest
  | ⟨o, ts, subs⟩, above, rest, hq => by
    rw [wellFormed_iff] at hq
    have htext : (written ⟨o, ts, subs⟩).toList ++ rest
        = (writtenOccur o).toList ++ ((writtenTerms ts).toList ++
            ((writtenAll subs).toList ++ rest)) := by
      simp [written]
    rw [htext, read_writtenOccur, read_writtenTerms hq.1, read_writtenAll subs _ above rest hq.2]
    simp

theorem read_writtenAll : ∀ (subs : List Query) (q : Query) (above : List Query)
    (rest : List Char), (∀ sub ∈ subs, sub.WellFormed) →
      read ⟨q, above, none⟩ ((writtenAll subs).toList ++ rest)
        = read ⟨{ q with subqueries := q.subqueries ++ subs }, above, none⟩ rest
  | [], q, above, rest, _ => by
    have htext : (writtenAll []).toList ++ rest = rest := by simp [writtenAll]
    rw [htext, List.append_nil]
    cases q
    rfl
  | sub :: subs, q, above, rest, hsubs => by
    rw [List.forall_mem_cons] at hsubs
    have htext : (writtenAll (sub :: subs)).toList ++ rest
        = '(' :: (sub.written.toList ++ ')' :: ((writtenAll subs).toList ++ rest)) := by
      simp [writtenAll]
    have hopen : step ⟨q, above, none⟩ (.ofMark '(') = ⟨{}, q :: above, none⟩ := rfl
    have hclose : step ⟨sub, q :: above, none⟩ (.ofMark ')')
        = ⟨q.pushSubquery sub, above, none⟩ := rfl
    rw [htext, read_mark _ rfl, hopen, read_written sub _ _ hsubs.1, read_mark _ rfl, hclose,
      read_writtenAll subs _ above rest hsubs.2]
    simp [pushSubquery]

end

end Spine

theorem parse_written_of_wellFormed {q : Query} (hq : q.WellFormed) : parse q.written = q := by
  have h := Spine.read_written q [] [] hq
  rw [List.append_nil, Spine.read_nil] at h
  rw [parse_eq_read, h]
  rfl

/-- **The trees of search strings are the well-formed trees**, and the written form of such a tree
is a search string for it. -/
theorem parse_image :
    (∀ s : String, (parse s).WellFormed) ∧
      (∀ q : Query, q.WellFormed → parse q.written = q) ∧
      ∀ q : Query, (∃ s, parse s = q) ↔ q.WellFormed := by
  refine ⟨wellFormed_parse, fun q hq => parse_written_of_wellFormed hq, fun q => ?_⟩
  constructor
  · rintro ⟨s, rfl⟩
    exact wellFormed_parse s
  · intro hq
    exact ⟨q.written, parse_written_of_wellFormed hq⟩

/-- A tree with a term of two words, an empty term and a group of its own. -/
theorem parse_image_salt :
    Query.WellFormed ⟨.should, ["salt AND pepper", ""], [⟨.must, ["a"], []⟩]⟩ ∧
      parse (Query.written ⟨.should, ["salt AND pepper", ""], [⟨.must, ["a"], []⟩]⟩)
        = ⟨.should, ["salt AND pepper", ""], [⟨.must, ["a"], []⟩]⟩ := by
  have hleaf : Query.WellFormed ⟨.must, ["a"], []⟩ := by
    rw [Query.wellFormed_iff]
    exact ⟨List.forall_mem_singleton.2 ⟨["a"], by decide, by decide⟩, List.forall_mem_nil _⟩
  have hq : Query.WellFormed ⟨.should, ["salt AND pepper", ""], [⟨.must, ["a"], []⟩]⟩ := by
    rw [Query.wellFormed_iff]
    refine ⟨List.forall_mem_cons.2 ⟨?_, List.forall_mem_singleton.2 ?_⟩,
      List.forall_mem_singleton.2 hleaf⟩
    · exact ⟨["salt", "AND", "pepper"], by decide, by decide⟩
    · exact ⟨[], by decide, by decide⟩
  exact ⟨hq, parse_image.2.1 _ hq⟩

end BooleanSearch
