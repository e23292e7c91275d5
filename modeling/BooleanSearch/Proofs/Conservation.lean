import BooleanSearch.Proofs.Nesting
import BooleanSearch.Proofs.Terms
import BooleanSearch.Proofs.WellFormed
import Mathlib.Algebra.Order.Group.Multiset
import Mathlib.Data.List.DropRight

/-!
# Nothing is lost

Every word of a search string ends up in one place, which is a term of the tree or the notice about
a phrase that does not end, and nothing else does.  Keywords are words where they stand in a phrase.
Characters that mean nothing are left out, and there is a notice about each of them.

The words of a spine are those in its terms together with those in the open phrase.  A token moves
words from the phrase to a term or adds one, so the words of a spine are the words read.

## Main definitions

* `termWords`, `Query.words` — the words of a term, and of all terms of a tree.
* `phraseKeywords` — the keywords inside phrases.
* `Spine.words` — the words of a tree and of the open phrase.

## Main results

* `Spine.words_step`, `Spine.words_foldl` — what tokens do to the words of a spine.
* `Spine.phrase_foldl` — the open phrase, after some tokens.
* `readString_conserves` — **no part of a string is lost, and nothing is added.**
-/

namespace BooleanSearch

/-! ### The words of a term -/

/-- The words of a term, which spaces separate.  An empty phrase has none. -/
def termWords (term : String) : List String :=
  if term = "" then [] else (term.toList.splitOn ' ').map String.ofList

theorem toList_ne_nil_of_isWord {w : String} (h : isWord w = true) : w.toList ≠ [] := by
  obtain ⟨c, cs, rfl, -, -⟩ := exists_of_isWord h
  rw [String.toList_ofList]
  exact List.cons_ne_nil c cs

theorem space_not_mem_of_isWord {w : String} (h : isWord w = true) : ' ' ∉ w.toList := by
  intro hmem
  have hspace : isWordChar ' ' = true := isWordChar_of_mem h hmem
  revert hspace
  decide

/-- Words that were joined to a term come apart again. -/
theorem termWords_intercalate {words : List String} (h : ∀ w ∈ words, isWord w = true) :
    termWords (" ".intercalate words) = words := by
  by_cases hnil : words = []
  · subst hnil
    decide
  · have hsplit : (" ".intercalate words).toList.splitOn ' ' = words.map String.toList := by
      rw [String.toList_intercalate]
      apply List.splitOn_intercalate
      · intro cs hcs
        obtain ⟨w, hw, rfl⟩ := List.mem_map.1 hcs
        exact space_not_mem_of_isWord (h w hw)
      · exact fun hmap => hnil (List.map_eq_nil_iff.1 hmap)
    have hne : " ".intercalate words ≠ "" := by
      intro hempty
      have hmem : [] ∈ words.map String.toList := by
        rw [← hsplit, hempty]
        decide
      obtain ⟨w, hw, hwnil⟩ := List.mem_map.1 hmem
      exact toList_ne_nil_of_isWord (h w hw) hwnil
    have hback : String.ofList ∘ String.toList = id := funext fun w => String.ofList_toList
    rw [termWords, if_neg hne, hsplit, List.map_map, hback, List.map_id]

theorem termWords_of_isWord {w : String} (h : isWord w = true) : termWords w = [w] := by
  have hwords : ∀ v ∈ [w], isWord v = true := by
    intro v hv
    rwa [List.mem_singleton.1 hv]
  have hterm := termWords_intercalate hwords
  rwa [String.intercalate_singleton] at hterm

/-- The words of the terms of all nodes of a tree. -/
def Query.words (q : Query) : List String :=
  q.subtrees.flatMap fun sub => sub.terms.flatMap termWords

theorem Query.words_eq (q : Query) : q.words = q.termLists.flatten.flatMap termWords := by
  rw [words, termLists]
  induction q.subtrees with
  | nil => rfl
  | cons sub subs ih =>
    rw [List.flatMap_cons, ih, List.map_cons, List.flatten_cons, List.flatMap_append]

/-! ### The words of tokens -/

namespace Token

/-- The word that a token is. -/
def literal? : Token → Option String
  | .literal word => some word
  | _ => none

/-- The text of a keyword. -/
def keyword? : Token → Option String
  | .and => some Token.and.text
  | .or => some Token.or.text
  | _ => none

/-- The character that means nothing. -/
def illegal? : Token → Option Char
  | .illegal c => some c
  | _ => none

end Token

/-- The keywords inside phrases, where `inPhrase` tells whether a phrase is open at the
beginning. -/
def phraseKeywords (inPhrase : Bool) : List Token → List String
  | [] => []
  | t :: ts =>
    (if inPhrase then t.keyword?.toList else []) ++
      phraseKeywords (inPhrase ^^ (t == .quoteMark)) ts

namespace Spine

/-! ### The open phrase -/

theorem phrase_step_quoteMark (z : Spine) :
    (z.step .quoteMark).phrase = if z.phrase.isSome then none else some [] := by
  obtain ⟨q, above, phrase⟩ := z
  cases phrase <;> rfl

theorem phrase_step_of_ne_quoteMark (z : Spine) {t : Token} (ht : t ≠ .quoteMark) :
    (z.step t).phrase = z.phrase.map (· ++ t.phraseWord?.toList) := by
  obtain ⟨q, above, phrase⟩ := z
  cases phrase with
  | some words => exact congrArg phrase (stepInPhrase_of_ne_quoteMark _ words ht)
  | none =>
    cases t with
    | quoteMark => exact absurd rfl ht
    | or =>
      simp only [step, stepOutside, applyOr]
      split <;> rfl
    | rightParen => cases above <;> rfl
    | _ => rfl

/-- The words of the open phrase are those behind the last quote mark. -/
theorem eq_of_phrase_foldl {z : Spine} (hz : z.phrase = none) (ts : List Token) :
    ∀ words, (ts.foldl step z).phrase = some words →
      words = (ts.rtakeWhile (· ≠ .quoteMark)).filterMap Token.phraseWord? := by
  induction ts using List.reverseRecOn with
  | nil =>
    intro words hwords
    rw [List.foldl_nil, hz] at hwords
    cases hwords
  | append_singleton ts t ih =>
    intro words hwords
    rw [List.foldl_append, List.foldl_cons, List.foldl_nil] at hwords
    by_cases ht : t = .quoteMark
    · subst ht
      rw [phrase_step_quoteMark] at hwords
      rw [List.rtakeWhile_concat_neg _ _ _ (by decide)]
      split at hwords
      · cases hwords
      · cases hwords
        rfl
    · rw [phrase_step_of_ne_quoteMark _ ht, Option.map_eq_some_iff] at hwords
      obtain ⟨before, hbefore, rfl⟩ := hwords
      rw [List.rtakeWhile_concat, if_pos (decide_eq_true ht), List.filterMap_append,
        ← ih before hbefore, filterMap_cons_eq, List.filterMap_nil, List.append_nil]

/-- The open phrase, after some tokens. -/
theorem phrase_foldl {z : Spine} (hz : z.phrase = none) (ts : List Token) :
    (ts.foldl step z).phrase
      = if ts.count .quoteMark % 2 = 1 then
          some ((ts.rtakeWhile (· ≠ .quoteMark)).filterMap Token.phraseWord?)
        else none := by
  have hsome := isSome_phrase_foldl z ts
  rw [hz, Option.isSome_none, Bool.false_xor, ← List.count] at hsome
  cases hphrase : (ts.foldl step z).phrase with
  | none =>
    rw [hphrase] at hsome
    rw [if_neg]
    simpa using hsome.symm
  | some words =>
    rw [hphrase] at hsome
    rw [if_pos, eq_of_phrase_foldl hz ts words hphrase]
    simpa using hsome.symm

/-! ### The words of a spine -/

/-- The words of the tree and of the open phrase. -/
def words (z : Spine) : Multiset String :=
  z.tree.words + z.phrase.getD []

/-- The word that a token stands for goes to a term or to the open phrase, and the words of the
phrase go to the term that ends it. -/
theorem words_completed {z : Spine} (h : z.WellFormed) {t : Token}
    (ht : ∀ w, t.phraseWord? = some w → isWord w = true) :
    (z.draft.completed? t).toList.flatMap termWords ++ (z.step t).phrase.getD []
      = z.phrase.getD [] ++
          (t.literal?.toList ++ if z.phrase.isSome then t.keyword?.toList else []) := by
  obtain ⟨q, above, phrase⟩ := z
  cases phrase with
  | some words =>
    cases t with
    | quoteMark =>
      have hterm := termWords_intercalate (h.phrase words rfl)
      show termWords (" ".intercalate words) ++ [] ++ [] = words ++ []
      rw [hterm, List.append_nil]
    | _ => rfl
  | none =>
    cases t with
    | literal word =>
      have hterm := termWords_of_isWord (ht word rfl)
      show termWords word ++ [] ++ [] = [word]
      rw [hterm]
      rfl
    | or =>
      rw [phrase_step_of_ne_quoteMark _ Token.noConfusion]
      rfl
    | rightParen => cases above <;> rfl
    | _ => rfl

/-- A token adds the word that it stands for. -/
theorem words_step {z : Spine} (h : z.WellFormed) {t : Token}
    (ht : ∀ w, t.phraseWord? = some w → isWord w = true) :
    (z.step t).words
      = z.words + (↑t.literal?.toList + ↑(if z.phrase.isSome then t.keyword?.toList else [])) := by
  have htree : (z.step t).tree.words.Perm
      (z.tree.words ++ (z.draft.completed? t).toList.flatMap termWords) := by
    rw [Query.words_eq, Query.words_eq, ← List.flatMap_append]
    exact (z.addsTerm_step t).perm_flatten.flatMap_right termWords
  have htree := Multiset.coe_eq_coe.2 htree
  calc (z.step t).words
      = z.tree.words + ↑((z.draft.completed? t).toList.flatMap termWords ++
          (z.step t).phrase.getD []) := by
        rw [words, htree, ← Multiset.coe_add, ← Multiset.coe_add, add_assoc]
    _ = z.words + (↑t.literal?.toList +
          ↑(if z.phrase.isSome then t.keyword?.toList else [])) := by
        rw [words_completed h ht, ← Multiset.coe_add, ← Multiset.coe_add, ← add_assoc, words]

/-- Tokens add the words that they stand for. -/
theorem words_foldl (ts : List Token)
    (hts : ∀ t ∈ ts, ∀ w, t.phraseWord? = some w → isWord w = true) :
    ∀ z : Spine, z.WellFormed → (ts.foldl step z).words
      = z.words + (↑(ts.filterMap Token.literal?) + ↑(phraseKeywords z.phrase.isSome ts)) := by
  induction ts with
  | nil =>
    intro z _
    show z.words = z.words + (0 + 0)
    rw [add_zero, add_zero]
  | cons t ts ih =>
    intro z h
    rw [List.forall_mem_cons] at hts
    rw [List.foldl_cons, ih hts.2 _ (h.step hts.1), words_step h hts.1, isSome_phrase_step,
      filterMap_cons_eq, phraseKeywords, ← Multiset.coe_add, ← Multiset.coe_add, add_assoc,
      add_add_add_comm]

end Spine

/-! ### Notices -/

namespace Notice

/-- The words of the phrase that a notice is about. -/
def openPhrase? : Notice → Option (List String)
  | .openPhrase words => some words
  | _ => none

/-- The character that a notice is about. -/
def strayCharacter? : Notice → Option Char
  | .strayCharacter c => some c
  | _ => none

end Notice

namespace Draft

theorem notice?_rightParen (d : Draft) :
    d.notice? .rightParen
      = if d.phrase.isNone && d.path.isEmpty then some .unmatchedClose else none := rfl

/-- The notices that tokens give rise to are about stray characters and closing parentheses. -/
theorem filterMap_noticesAlong_eq_nil {α : Type} {f : Notice → Option α}
    (hstray : ∀ c, f (.strayCharacter c) = none) (hclose : f .unmatchedClose = none)
    (ts : List Token) : ∀ d : Draft, (d.noticesAlong ts).filterMap f = [] := by
  have hnotice (d : Draft) (t : Token) : (d.notice? t).toList.filterMap f = [] := by
    cases t with
    | illegal c => exact List.filterMap_cons_none (hstray c)
    | rightParen =>
      rw [notice?_rightParen]
      split
      · exact List.filterMap_cons_none hclose
      · rfl
    | _ => rfl
  induction ts with
  | nil =>
    intro d
    rfl
  | cons t ts ih =>
    intro d
    rw [noticesAlong, List.filterMap_append, hnotice, ih, List.append_nil]

/-- No token gives rise to a notice about a phrase. -/
theorem openPhrase?_noticesAlong (ts : List Token) (d : Draft) :
    (d.noticesAlong ts).filterMap Notice.openPhrase? = [] :=
  filterMap_noticesAlong_eq_nil (fun _ => rfl) rfl ts d

theorem openPhrase?_closingNotices (d : Draft) :
    d.closingNotices.filterMap Notice.openPhrase? = (d.phrase.map Array.toList).toList := by
  have hgroups : (if d.path.isEmpty then [] else [Notice.openGroups d.path.length]).filterMap
      Notice.openPhrase? = [] := by
    split <;> rfl
  rw [closingNotices, List.filterMap_append, hgroups, List.append_nil]
  cases d.phrase <;> rfl

theorem strayCharacter?_notice? (d : Draft) (t : Token) :
    (d.notice? t).toList.filterMap Notice.strayCharacter? = t.illegal?.toList := by
  cases t with
  | rightParen =>
    rw [notice?_rightParen]
    split <;> rfl
  | _ => rfl

/-- There is a notice about each character that means nothing. -/
theorem strayCharacter?_noticesAlong (ts : List Token) :
    ∀ d : Draft,
      (d.noticesAlong ts).filterMap Notice.strayCharacter? = ts.filterMap Token.illegal? := by
  induction ts with
  | nil =>
    intro d
    rfl
  | cons t ts ih =>
    intro d
    rw [noticesAlong, List.filterMap_append, strayCharacter?_notice?, ih, filterMap_cons_eq]

theorem strayCharacter?_closingNotices (d : Draft) :
    d.closingNotices.filterMap Notice.strayCharacter? = [] := by
  rw [closingNotices, List.filterMap_append, List.append_eq_nil_iff]
  constructor
  · cases d.phrase <;> rfl
  · split <;> rfl

end Draft

/-! ### Strings -/

/-- The notices about a string. -/
theorem toList_notices (s : String) :
    (readString s).notices.toList
      = Draft.noticesAlong {} (tokenize s) ++
          (({} : Spine).read s.toList).draft.closingNotices := by
  rw [readString_eq, Draft.reading, ← Draft.ofTokens, Draft.ofTokens_tokenize]

/-- The phrase that does not end, if there is one. -/
theorem openPhrase?_notices (s : String) :
    (readString s).notices.toList.filterMap Notice.openPhrase?
      = (({} : Spine).read s.toList).phrase.toList := by
  rw [toList_notices, List.filterMap_append, Draft.openPhrase?_noticesAlong,
    Draft.openPhrase?_closingNotices, List.nil_append, Spine.draft, Option.map_map]
  cases (({} : Spine).read s.toList).phrase <;> rfl

/-- **No part of a string is lost, and nothing is added.**  The words of all terms, and those of a
phrase that does not end, are the words of the string and the keywords inside phrases.  The terms of
a node are in the order in which they were completed.  There is a notice about a phrase if the
number of quote marks is odd, with what follows the last of them, and a notice about each character
that means nothing. -/
theorem readString_conserves (s : String) :
    ((parse s).words + ↑((readString s).notices.toList.filterMap Notice.openPhrase?).flatten
        = (↑((tokenize s).filterMap Token.literal?) + ↑(phraseKeywords false (tokenize s)) :
            Multiset String)) ∧
      (parse s).subtrees.map Query.terms
        = ((List.range (parse s).size).map fun place =>
            Draft.completedAt place {} (tokenize s)) ∧
      (readString s).notices.toList.filterMap Notice.openPhrase?
        = (if (tokenize s).count .quoteMark % 2 = 1 then
            [((tokenize s).rtakeWhile (· ≠ .quoteMark)).filterMap Token.phraseWord?]
          else []) ∧
      (readString s).notices.toList.filterMap Notice.strayCharacter?
        = (tokenize s).filterMap Token.illegal? := by
  refine ⟨?_, ?_, ?_, ?_⟩
  · have hphrase : ((readString s).notices.toList.filterMap Notice.openPhrase?).flatten
        = (({} : Spine).read s.toList).phrase.getD [] := by
      rw [openPhrase?_notices]
      cases (({} : Spine).read s.toList).phrase <;> simp
    have hts : ∀ t ∈ lexemes s.toList, ∀ w, t.phraseWord? = some w → isWord w = true :=
      fun t ht w hw => isWord_of_mem_lexemes ht hw
    have hempty : ({} : Spine).words = 0 := rfl
    have hwords := Spine.words_foldl (lexemes s.toList) hts {} Spine.wellFormed_empty
    rw [hempty, zero_add] at hwords
    rw [hphrase, parse_eq_read, tokenize_eq]
    exact hwords
  · exact parse_terms s
  · rw [openPhrase?_notices, Spine.read, ← tokenize_eq, Spine.phrase_foldl rfl]
    split <;> rfl
  · rw [toList_notices, List.filterMap_append, Draft.strayCharacter?_noticesAlong,
      Draft.strayCharacter?_closingNotices, List.append_nil]

end BooleanSearch
