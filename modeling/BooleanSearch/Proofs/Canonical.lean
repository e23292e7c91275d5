import BooleanSearch.Proofs.Nesting
import BooleanSearch.Proofs.WellFormed
import Mathlib.Data.List.Chain

/-!
# Canonical token lists

Written one after the other, the tokens of a string are the string again, but for the shape of its
quote marks.  So a list of tokens is what its own text is taken apart into, or the text has other
tokens.  It is the first if each token can be met by itself and no two neighbours would run
together, which is to say that every run is as long as it can be.

## Main definitions

* `straightened` — a string with straight quote marks only.
* `textOf` — the text of a list of tokens.
* `Token.IsProper` — the tokens that can be met by themselves.
* `Token.Touches` — neighbours that run together.
* `IsCanonical` — lists of proper tokens none of which touches the next.

## Main results

* `lexemes_text` — a proper token is the only token of its text.
* `Token.touches_iff` — a token touches the next one if it goes on with its first character.
* `tokenize_canonical` — **tokens are canonical, and canonical lists are the tokens of their
  text.**
-/

namespace BooleanSearch

/-! ### The text of tokens -/

/-- A curved quote mark becomes a straight one. -/
def straight (c : Char) : Char :=
  if isQuote c then '"' else c

/-- A string with straight quote marks only. -/
def straightened (s : String) : String :=
  s.map straight

/-- The text of a list of tokens. -/
def textOf (ts : List Token) : String :=
  String.join (ts.map Token.text)

theorem toList_textOf_cons (t : Token) (ts : List Token) :
    (textOf (t :: ts)).toList = t.text.toList ++ (textOf ts).toList := by
  simp [textOf]

/-- A character that may stand in a run is no quote mark. -/
theorem straight_of_not_isMark {c : Char} (hc : isMark c = false) : straight c = c := by
  unfold straight
  split
  · next hquote =>
    rcases isQuote_iff.1 hquote with rfl | rfl | rfl <;> cases hc
  · rfl

theorem text_ofMark (c : Char) : (Token.ofMark c).text.toList = [straight c] := by
  by_cases hquote : isQuote c = true
  · rw [Token.ofMark_eq_quoteMark_iff.2 hquote, straight, if_pos hquote]
    rfl
  · rw [straight, if_neg hquote, Token.ofMark, if_neg (isQuote_iff.not.1 hquote)]
    split
    · next hc => rw [hc]; rfl
    split
    · next hc => rw [hc]; rfl
    · exact String.toList_singleton c

/-- No character is lost between a token and what comes after it. -/
theorem text_lexeme (c : Char) (cs : List Char) :
    (lexeme c cs).1.text.toList ++ (lexeme c cs).2.map straight = (c :: cs).map straight := by
  rcases lexeme_eq_mark_or_run c cs with h | ⟨run, hcut, hrun, htext, -⟩
  · rw [h, text_ofMark]
    rfl
  · have hstraight : run.map straight = run := by
      rw [List.map_congr_left fun d hd => straight_of_not_isMark (hrun d hd)]
      exact List.map_id run
    rw [htext, hcut, List.map_append, hstraight]

/-- No character is lost between the tokens of a text. -/
theorem text_lexemes (cs : List Char) :
    (textOf (lexemes cs)).toList = cs.map straight := by
  fun_induction lexemes cs with
  | case1 => rfl
  | case2 c cs ih => rw [toList_textOf_cons, ih, text_lexeme]

/-! ### Proper tokens -/

/-- The tokens that can be met by themselves. -/
def Token.IsProper : Token → Prop
  | .endOfInput => False
  | .whitespace text => text ≠ "" ∧ ∀ c ∈ text.toList, isBlank c = true
  | .literal word => isWord word = true ∧ word ≠ "AND" ∧ word ≠ "OR"
  | .illegal c => isBlank c = false ∧ isLetter c = false ∧ c ≠ '(' ∧ c ≠ ')' ∧ isQuote c = false
  | .leftParen | .rightParen | .quoteMark | .and | .or => True

theorem ofWord_eq_literal {word : String} (hand : word ≠ "AND") (hor : word ≠ "OR") :
    Token.ofWord word = .literal word := by
  unfold Token.ofWord
  split
  · exact absurd rfl hand
  · exact absurd rfl hor
  · rfl

theorem ofMark_eq_illegal {c : Char} (hleft : c ≠ '(') (hright : c ≠ ')')
    (hquote : isQuote c = false) : Token.ofMark c = .illegal c := by
  rw [Token.ofMark, if_neg hleft, if_neg hright,
    if_neg (isQuote_iff.not.1 (Bool.eq_false_iff.1 hquote))]

theorem isProper_ofWord {word : String} (h : isWord word = true) :
    (Token.ofWord word).IsProper := by
  by_cases hand : word = "AND"
  · rw [hand]
    trivial
  by_cases hor : word = "OR"
  · rw [hor]
    trivial
  · rw [ofWord_eq_literal hand hor]
    exact ⟨h, hand, hor⟩

theorem isProper_ofMark {c : Char} (hblank : isBlank c = false) (hletter : isLetter c = false) :
    (Token.ofMark c).IsProper := by
  by_cases hleft : c = '('
  · rw [hleft]
    trivial
  by_cases hright : c = ')'
  · rw [hright]
    trivial
  cases hquote : isQuote c with
  | true =>
    rw [Token.ofMark_eq_quoteMark_iff.2 hquote]
    trivial
  | false =>
    rw [ofMark_eq_illegal hleft hright hquote]
    exact ⟨hblank, hletter, hleft, hright, hquote⟩

/-- The tokens of a text are proper. -/
theorem isProper_lexeme (c : Char) (cs : List Char) : (lexeme c cs).1.IsProper := by
  unfold lexeme
  split
  · next hc =>
    refine ⟨by simp, ?_⟩
    intro d hd
    rw [String.toList_ofList] at hd
    rcases List.mem_cons.1 hd with rfl | hd
    · exact hc
    · exact List.mem_takeWhile_imp hd
  next hblank =>
  split
  · next hc => exact isProper_ofWord (isWord_ofList hc fun d hd => List.mem_takeWhile_imp hd)
  · next hletter =>
    exact isProper_ofMark (Bool.eq_false_iff.2 hblank) (Bool.eq_false_iff.2 hletter)

/-- A proper token is the only token of its text. -/
theorem lexemes_text {t : Token} (ht : t.IsProper) : lexemes t.text.toList = [t] := by
  have hmark : ∀ c : Char, isBlank c = false → isLetter c = false →
      lexemes [c] = [Token.ofMark c] := by
    intro c hblank hletter
    rw [lexemes_cons, lexeme_eq_ofMark hblank hletter, lexemes_nil]
  cases t with
  | endOfInput => exact ht.elim
  | whitespace text =>
    obtain ⟨hne, hblank⟩ := ht
    show lexemes text.toList = _
    rcases hcs : text.toList with _ | ⟨c, cs⟩
    · exact absurd (String.toList_eq_nil_iff.1 hcs) hne
    · rw [hcs, List.forall_mem_cons] at hblank
      rw [lexemes_of_isBlank hblank.1 hblank.2, ← hcs, String.ofList_toList]
  | literal word =>
    obtain ⟨hword, hand, hor⟩ := ht
    obtain ⟨c, cs, hcs, hc, hrest⟩ := exists_of_isWord hword
    show lexemes word.toList = _
    rw [← ofWord_eq_literal hand hor, hcs, String.toList_ofList, lexemes_of_isLetter hc hrest]
  | illegal c =>
    obtain ⟨hblank, hletter, hleft, hright, hquote⟩ := ht
    show lexemes (String.singleton c).toList = _
    rw [String.toList_singleton, hmark c hblank hletter, ofMark_eq_illegal hleft hright hquote]
  | leftParen => exact hmark '(' rfl rfl
  | rightParen => exact hmark ')' rfl rfl
  | quoteMark => exact hmark '"' rfl rfl
  | and =>
    have hword : lexemes ('A' :: ['N', 'D']) = [.ofWord "AND"] :=
      lexemes_of_isLetter rfl (List.all_eq_true.1 rfl)
    exact hword
  | or =>
    have hword : lexemes ('O' :: ['R']) = [.ofWord "OR"] :=
      lexemes_of_isLetter rfl (List.all_eq_true.1 rfl)
    exact hword

/-! ### Neighbours -/

/-- Whether two tokens run together if one is written right after the other. -/
def Token.Touches (t u : Token) : Prop :=
  (t.isWhitespace = true ∧ u.isWhitespace = true) ∨
    (t.isWordRun = true ∧
      (u.isWordRun = true ∨ ∃ c, u = .illegal c ∧ (c.isDigit = true ∨ c = '_')))

/-- A character that begins no word is a word character if it is a digit or an underscore. -/
theorem isWordChar_iff_of_not_isLetter {c : Char} (hc : isLetter c = false) :
    isWordChar c = true ↔ c.isDigit = true ∨ c = '_' := by
  unfold isLetter at hc
  simp [isWordChar, Char.isAlphanum, hc]

/-- The first character of a proper token tells whether it is a run of blanks, and whether it
would go on with a word. -/
theorem Token.IsProper.head {t : Token} (ht : t.IsProper) :
    ∃ c, t.text.toList.head? = some c ∧ t.isWhitespace = isBlank c ∧
      (isWordChar c = true ↔
        t.isWordRun = true ∨ ∃ d, t = .illegal d ∧ (d.isDigit = true ∨ d = '_')) := by
  cases t with
  | endOfInput => exact ht.elim
  | whitespace text =>
    obtain ⟨hne, hblank⟩ := ht
    rcases hcs : text.toList with _ | ⟨c, cs⟩
    · exact absurd (String.toList_eq_nil_iff.1 hcs) hne
    · rw [hcs, List.forall_mem_cons] at hblank
      refine ⟨c, congrArg List.head? hcs, hblank.1.symm, ?_⟩
      simp [isWordChar_of_isBlank hblank.1, isWordRun]
  | literal word =>
    obtain ⟨c, cs, hcs, hc, -⟩ := exists_of_isWord ht.1
    refine ⟨c, ?_, (isBlank_of_isLetter hc).symm, ?_⟩
    · rw [text, hcs, String.toList_ofList, List.head?_cons]
    · simp [isWordChar_of_isLetter hc, isWordRun]
  | illegal c =>
    obtain ⟨hblank, hletter, -⟩ := ht
    refine ⟨c, ?_, hblank.symm, ?_⟩
    · rw [text, String.toList_singleton, List.head?_cons]
    · simp [isWordChar_iff_of_not_isLetter hletter, isWordRun]
  | leftParen => exact ⟨'(', rfl, rfl, iff_of_false (by decide) (by simp [isWordRun])⟩
  | rightParen => exact ⟨')', rfl, rfl, iff_of_false (by decide) (by simp [isWordRun])⟩
  | quoteMark => exact ⟨'"', rfl, rfl, iff_of_false (by decide) (by simp [isWordRun])⟩
  | and => exact ⟨'A', rfl, rfl, fun _ => Or.inl rfl, fun _ => rfl⟩
  | or => exact ⟨'O', rfl, rfl, fun _ => Or.inl rfl, fun _ => rfl⟩

/-- A token touches the next one if it goes on with its first character. -/
theorem Token.touches_iff (t : Token) {u : Token} (hu : u.IsProper) :
    t.Touches u ↔ ∃ c ∈ u.text.toList.head?, t.goesOn c = true := by
  obtain ⟨c, hc, hwhitespace, hword⟩ := hu.head
  have hhead : (∃ d ∈ u.text.toList.head?, t.goesOn d = true) ↔ t.goesOn c = true := by
    simp [hc]
  rw [hhead, Touches, ← hword, hwhitespace, goesOn, Bool.or_eq_true, Bool.and_eq_true,
    Bool.and_eq_true]

/-! ### Canonical lists -/

/-- Lists of proper tokens none of which touches the next. -/
structure IsCanonical (ts : List Token) : Prop where
  /-- Each token can be met by itself. -/
  proper : ∀ t ∈ ts, t.IsProper
  /-- Neighbours do not run together. -/
  apart : ts.IsChain fun t u => ¬t.Touches u

theorem isCanonical_cons {t : Token} {ts : List Token} :
    IsCanonical (t :: ts) ↔
      t.IsProper ∧ (∀ u ∈ ts.head?, ¬t.Touches u) ∧ IsCanonical ts := by
  constructor
  · rintro ⟨hproper, hapart⟩
    rw [List.forall_mem_cons] at hproper
    rw [List.isChain_cons] at hapart
    exact ⟨hproper.1, hapart.1, hproper.2, hapart.2⟩
  · rintro ⟨ht, hnext, hproper, hapart⟩
    exact ⟨List.forall_mem_cons.2 ⟨ht, hproper⟩, List.isChain_cons.2 ⟨hnext, hapart⟩⟩

/-- No run goes on with a quote mark, whatever its shape. -/
theorem goesOn_straight (t : Token) (c : Char) : t.goesOn (straight c) = t.goesOn c := by
  unfold straight
  split
  · next hquote =>
    have hmark : isMark c = true := by
      rcases isQuote_iff.1 hquote with rfl | rfl | rfl <;> decide
    rw [t.goesOn_of_isMark rfl, t.goesOn_of_isMark hmark]
  · rfl

theorem head?_text_lexeme (c : Char) (cs : List Char) :
    (lexeme c cs).1.text.toList.head? = some (straight c) := by
  obtain ⟨d, hd, -⟩ := (isProper_lexeme c cs).head
  have htext := text_lexeme c cs
  cases hcs : (lexeme c cs).1.text.toList with
  | nil => rw [hcs] at hd; cases hd
  | cons e es =>
    rw [hcs, List.cons_append, List.map_cons] at htext
    rw [(List.cons.inj htext).1, List.head?_cons]

/-- The tokens of a text are canonical. -/
theorem isCanonical_lexemes (cs : List Char) : IsCanonical (lexemes cs) := by
  fun_induction lexemes cs with
  | case1 => exact ⟨by simp, List.IsChain.nil⟩
  | case2 c cs ih =>
    refine isCanonical_cons.2 ⟨isProper_lexeme c cs, ?_, ih⟩
    intro u hu htouch
    cases hrest : (lexeme c cs).2 with
    | nil =>
      rw [hrest, lexemes_nil] at hu
      cases hu
    | cons d ds =>
      -- the token before does not go on with the character that the next one begins with
      have hstop : (lexeme c cs).1.goesOn d = false := by
        apply goesOn_lexeme c cs
        rw [hrest, List.head?_cons, Option.mem_def]
      rw [hrest, lexemes_cons, List.head?_cons, Option.mem_some_iff] at hu
      subst hu
      obtain ⟨e, he, hgoes⟩ := (Token.touches_iff _ (isProper_lexeme d ds)).1 htouch
      rw [head?_text_lexeme, Option.mem_some_iff] at he
      rw [← he, goesOn_straight, hstop] at hgoes
      cases hgoes

theorem head?_textOf_cons {t : Token} (ht : t.IsProper) (ts : List Token) :
    (textOf (t :: ts)).toList.head? = t.text.toList.head? := by
  obtain ⟨c, hc, -⟩ := ht.head
  rw [toList_textOf_cons, List.head?_append, hc]
  rfl

/-- A canonical list is the tokens of its text. -/
theorem lexemes_textOf {ts : List Token} (h : IsCanonical ts) :
    lexemes (textOf ts).toList = ts := by
  induction ts with
  | nil => exact lexemes_nil
  | cons t ts ih =>
    obtain ⟨ht, hnext, hts⟩ := isCanonical_cons.1 h
    have hcut : ∀ u ∈ (lexemes t.text.toList).getLast?,
        ∀ c ∈ (textOf ts).toList.head?, u.goesOn c = false := by
      intro u hu c hc
      rw [lexemes_text ht, List.getLast?_singleton, Option.mem_some_iff] at hu
      subst hu
      cases ts with
      | nil => cases hc
      | cons v vs =>
        have hv : v.IsProper := hts.proper v List.mem_cons_self
        rw [head?_textOf_cons hv] at hc
        apply Bool.eq_false_iff.2
        intro hgoes
        exact hnext v rfl ((t.touches_iff hv).2 ⟨c, hc, hgoes⟩)
    rw [toList_textOf_cons, lexemes_append hcut, lexemes_text ht, ih hts]
    rfl

/-- **Tokens are canonical and canonical lists are the tokens of their text.**  The tokens of a
string have its text, with straight quote marks. -/
theorem tokenize_canonical :
    (∀ s : String, IsCanonical (tokenize s) ∧ textOf (tokenize s) = straightened s) ∧
      ∀ ts : List Token, tokenize (textOf ts) = ts ↔ IsCanonical ts := by
  constructor
  · intro s
    rw [tokenize_eq]
    refine ⟨isCanonical_lexemes s.toList, ?_⟩
    apply String.toList_inj.1
    rw [text_lexemes, straightened, String.toList_map]
  · intro ts
    rw [tokenize_eq]
    constructor
    · intro hts
      rw [← hts]
      exact isCanonical_lexemes _
    · exact lexemes_textOf

end BooleanSearch
