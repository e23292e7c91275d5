import BooleanSearch.Proofs.Lexemes
import Mathlib.Data.List.TakeWhile

/-!
# Well-formed trees

A word is an ASCII letter followed by letters, digits and underscores, and a term is a list of
words with single spaces between them.  Whatever a search string looks like, the terms of its tree
are of this form: the scanner gives words only, and nothing but words is joined to a phrase.

## Main definitions

* `isWord`, `IsTerm` — words and terms.
* `Query.WellFormed` — every term of every node of a tree is a term in this sense.
* `Spine.WellFormed` — the same of what has been read so far.

## Main results

* `Spine.WellFormed.step` — a token that stands for no word or for a word keeps a spine well formed.
* `wellFormed_parse` — every tree that is read is well formed.
-/

namespace BooleanSearch

/-- Whether a text is a word. -/
def isWord (w : String) : Bool :=
  match w.toList with
  | [] => false
  | c :: cs => isLetter c && cs.all isWordChar

theorem isWord_ofList {c : Char} {cs : List Char} (hc : isLetter c = true)
    (hcs : ∀ d ∈ cs, isWordChar d = true) : isWord (String.ofList (c :: cs)) = true := by
  simp only [isWord, String.toList_ofList, hc, Bool.true_and, List.all_eq_true]
  exact hcs

/-- The characters of a word. -/
theorem exists_of_isWord {w : String} (h : isWord w = true) :
    ∃ c cs, w = String.ofList (c :: cs) ∧ isLetter c = true ∧ ∀ d ∈ cs, isWordChar d = true := by
  rw [isWord] at h
  split at h
  · cases h
  · next c cs hw =>
    rw [Bool.and_eq_true, List.all_eq_true] at h
    exact ⟨c, cs, by rw [← hw, String.ofList_toList], h⟩

theorem isWordChar_of_mem {w : String} (h : isWord w = true) {c : Char} (hc : c ∈ w.toList) :
    isWordChar c = true := by
  obtain ⟨d, ds, rfl, hd, hds⟩ := exists_of_isWord h
  rw [String.toList_ofList] at hc
  rcases List.mem_cons.1 hc with rfl | hc
  · exact isWordChar_of_isLetter hd
  · exact hds c hc

/-- A term is empty, or it is made of words with single spaces between them. -/
def IsTerm (term : String) : Prop :=
  ∃ words : List String, (∀ w ∈ words, isWord w = true) ∧ term = " ".intercalate words

theorem isTerm_of_isWord {w : String} (h : isWord w = true) : IsTerm w := by
  refine ⟨[w], ?_, by simp⟩
  intro v hv
  rwa [List.mem_singleton.1 hv]

namespace Query

/-- Every term of every node is a term. -/
def WellFormed (q : Query) : Prop :=
  ∀ sub ∈ q.subtrees, ∀ term ∈ sub.terms, IsTerm term

theorem wellFormed_iff (q : Query) :
    q.WellFormed ↔ (∀ term ∈ q.terms, IsTerm term) ∧ ∀ sub ∈ q.subqueries, sub.WellFormed :=
  forall_mem_subtrees_iff

theorem wellFormed_leaf (o : Occur) : ({ occur := o } : Query).WellFormed := by
  rw [wellFormed_iff]
  simp

theorem WellFormed.setOccur {q : Query} (h : q.WellFormed) (o : Occur) :
    (q.setOccur o).WellFormed := by
  rw [wellFormed_iff] at h ⊢
  exact h

theorem WellFormed.applyAnd {q : Query} (h : q.WellFormed) : q.applyAnd.WellFormed := by
  rw [Query.applyAnd]
  split
  · exact h
  · exact h.setOccur .must

theorem WellFormed.pushTerm {q : Query} (h : q.WellFormed) {term : String}
    (hterm : IsTerm term) : (q.pushTerm term).WellFormed := by
  rw [wellFormed_iff] at h ⊢
  refine ⟨?_, h.2⟩
  intro term' hterm'
  rcases List.mem_append.1 hterm' with hmem | hmem
  · exact h.1 term' hmem
  · rwa [List.mem_singleton.1 hmem]

theorem WellFormed.pushSubquery {q sub : Query} (h : q.WellFormed) (hsub : sub.WellFormed) :
    (q.pushSubquery sub).WellFormed := by
  rw [wellFormed_iff] at h ⊢
  refine ⟨h.1, ?_⟩
  intro sub' hsub'
  rcases List.mem_append.1 hsub' with hmem | hmem
  · exact h.2 sub' hmem
  · rwa [List.mem_singleton.1 hmem]

theorem WellFormed.closeInto {q : Query} {above : List Query} (h : q.WellFormed)
    (habove : ∀ parent ∈ above, parent.WellFormed) : (q.closeInto above).WellFormed := by
  induction above generalizing q with
  | nil => exact h
  | cons parent above ih =>
    rw [List.forall_mem_cons] at habove
    exact ih (habove.1.pushSubquery h) habove.2

end Query

/-! ### Reading keeps trees well formed -/

/-- What has been read so far is well formed. -/
structure Spine.WellFormed (z : Spine) : Prop where
  /-- The node under the cursor is. -/
  current : z.current.WellFormed
  /-- The open nodes above it are. -/
  above : ∀ parent ∈ z.above, parent.WellFormed
  /-- The open phrase is made of words. -/
  phrase : ∀ words, z.phrase = some words → ∀ w ∈ words, isWord w = true

namespace Spine

theorem WellFormed.tree {z : Spine} (h : z.WellFormed) : z.tree.WellFormed :=
  h.current.closeInto h.above

theorem WellFormed.modify {z : Spine} (h : z.WellFormed) {f : Query → Query}
    (hf : (f z.current).WellFormed) : (z.modify f).WellFormed :=
  ⟨hf, h.above, h.phrase⟩

theorem WellFormed.descend {z : Spine} (h : z.WellFormed) (o : Occur) :
    (z.descend o).WellFormed :=
  ⟨Query.wellFormed_leaf o, List.forall_mem_cons.2 ⟨h.current, h.above⟩, h.phrase⟩

theorem WellFormed.ascend {z : Spine} (h : z.WellFormed) : z.ascend.WellFormed := by
  obtain ⟨q, above, phrase⟩ := z
  cases above with
  | nil => exact h
  | cons parent above =>
    have habove := List.forall_mem_cons.1 h.above
    exact ⟨habove.1.pushSubquery h.current, habove.2, h.phrase⟩

theorem WellFormed.applyOr {z : Spine} (h : z.WellFormed) : z.applyOr.WellFormed := by
  rw [Spine.applyOr]
  split
  · exact h.descend .should
  · exact h.modify (h.current.setOccur .should)

theorem WellFormed.stepInPhrase {z : Spine} (h : z.WellFormed) {words : List String}
    (hphrase : z.phrase = some words) {t : Token}
    (ht : ∀ w, t.phraseWord? = some w → isWord w = true) :
    (z.stepInPhrase words t).WellFormed := by
  have hwords := h.phrase words hphrase
  by_cases hquote : t = .quoteMark
  · -- the words of the phrase, joined by spaces, are a term
    subst hquote
    exact ⟨h.current.pushTerm ⟨words, hwords, rfl⟩, h.above, fun _ h => by cases h⟩
  · rw [stepInPhrase_of_ne_quoteMark z words hquote]
    refine ⟨h.current, h.above, ?_⟩
    intro words' hwords' w hw
    cases hwords'
    rcases List.mem_append.1 hw with hmem | hmem
    · exact hwords w hmem
    · exact ht w (Option.mem_toList.1 hmem)

theorem WellFormed.stepOutside {z : Spine} (h : z.WellFormed) {t : Token}
    (ht : ∀ w, t.phraseWord? = some w → isWord w = true) : (z.stepOutside t).WellFormed := by
  cases t with
  | literal word =>
    have hterm : IsTerm word := isTerm_of_isWord (ht word rfl)
    exact h.modify (f := (·.pushTerm word)) (h.current.pushTerm hterm)
  | and => exact h.modify h.current.applyAnd
  | or => exact h.applyOr
  | quoteMark =>
    refine ⟨h.current, h.above, ?_⟩
    intro words hwords w hw
    cases hwords
    cases hw
  | leftParen => exact h.descend .must
  | rightParen => exact h.ascend
  | whitespace _ | illegal _ | endOfInput => exact h

/-- A token keeps a spine well formed, if what it stands for in a phrase is a word. -/
theorem WellFormed.step {z : Spine} (h : z.WellFormed) {t : Token}
    (ht : ∀ w, t.phraseWord? = some w → isWord w = true) : (z.step t).WellFormed := by
  rw [Spine.step]
  split
  · next words hphrase => exact h.stepInPhrase hphrase ht
  · exact h.stepOutside ht

end Spine

/-! ### The words of a text -/

theorem Token.phraseWord?_ofWord (w : String) : (ofWord w).phraseWord? = some w := by
  unfold ofWord
  split <;> rfl

theorem Token.phraseWord?_ofMark (c : Char) : (ofMark c).phraseWord? = none := by
  unfold ofMark
  split
  · rfl
  split
  · rfl
  split <;> rfl

theorem isWord_of_lexeme {c : Char} {cs : List Char} {w : String}
    (hw : (lexeme c cs).1.phraseWord? = some w) : isWord w = true := by
  rw [lexeme] at hw
  split at hw
  · cases hw
  split at hw
  · next hletter =>
    rw [Token.phraseWord?_ofWord] at hw
    cases hw
    exact isWord_ofList hletter fun d hd => List.mem_takeWhile_imp hd
  · rw [Token.phraseWord?_ofMark] at hw
    cases hw

/-- What a token of a text stands for in a phrase is a word. -/
theorem isWord_of_mem_lexemes {t : Token} {cs : List Char} (ht : t ∈ lexemes cs) {w : String}
    (hw : t.phraseWord? = some w) : isWord w = true := by
  fun_induction lexemes cs with
  | case1 => cases ht
  | case2 c cs ih =>
    rcases List.mem_cons.1 ht with rfl | ht
    · exact isWord_of_lexeme hw
    · exact ih ht

/-- What a text adds to a well-formed spine is well formed. -/
theorem Spine.WellFormed.read {z : Spine} (h : z.WellFormed) (cs : List Char) :
    (z.read cs).WellFormed := by
  have hfold (ts : List Token)
      (hts : ∀ t ∈ ts, ∀ w, t.phraseWord? = some w → isWord w = true) :
      (ts.foldl Spine.step z).WellFormed := by
    induction ts generalizing z with
    | nil => exact h
    | cons t ts ih =>
      rw [List.forall_mem_cons] at hts
      exact ih (h.step hts.1) hts.2
  exact hfold (lexemes cs) fun t ht w hw => isWord_of_mem_lexemes ht hw

/-- Nothing has been read at the beginning. -/
theorem Spine.wellFormed_empty : ({} : Spine).WellFormed where
  current := Query.wellFormed_leaf .must
  above := by simp
  phrase := by simp

/-- Every tree that is read is well formed. -/
theorem wellFormed_parse (s : String) : (parse s).WellFormed := by
  rw [parse_eq_read]
  exact (Spine.wellFormed_empty.read s.toList).tree

end BooleanSearch
