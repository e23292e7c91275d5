import BooleanSearch.Proofs.Lexemes

/-!
# Quote marks and parentheses

Whether a phrase is open and how many parentheses are open depends on quote marks and parentheses
alone, and each of these is a token by itself.  So both can be told from the characters of a text,
without taking it apart into tokens.

## Main definitions

* `isQuote` — the characters that begin and end phrases.
* `HasEvenQuotes` — every phrase of a string is closed.
* `Nesting` — the open parentheses outside phrases, and whether a phrase is open.
* `IsBalanced` — every phrase is closed, and the parentheses outside phrases match.

## Main results

* `filter_isDelimiter_lexemes` — quote marks and parentheses are tokens by themselves.
* `exists_cut_of_isDelimiter` — a text may be cut where one of them is among its tokens.
* `Nesting.foldlM_lexemes` — the nesting that the tokens of a text lead to.
* `Spine.isSome_phrase_read` — whether a phrase is open after a text.
-/

namespace BooleanSearch

/-- Whether a character is a double quote, straight or curved. -/
def isQuote (c : Char) : Bool :=
  c == '"' || c == '\u201C' || c == '\u201D'

theorem isQuote_iff {c : Char} :
    isQuote c = true ↔ c = '"' ∨ c = '\u201C' ∨ c = '\u201D' := by
  rw [isQuote, Bool.or_eq_true, Bool.or_eq_true, beq_iff_eq, beq_iff_eq, beq_iff_eq, or_assoc]

/-- A quote mark stands in no run. -/
theorem isMark_of_isQuote {c : Char} (hc : isQuote c = true) : isMark c = true := by
  rcases isQuote_iff.1 hc with rfl | rfl | rfl <;> decide

/-- A string with an even number of quote marks. -/
def HasEvenQuotes (s : String) : Prop :=
  s.toList.countP isQuote % 2 = 0

instance (s : String) : Decidable (HasEvenQuotes s) :=
  inferInstanceAs (Decidable (_ = _))

/-- What is open at some point of a text. -/
structure Nesting where
  /-- The number of parentheses that are open. -/
  depth : Nat := 0
  /-- Whether a phrase is open. -/
  inPhrase : Bool := false
  deriving DecidableEq, Repr

namespace Nesting

/-- What is open one character later, unless the character closes a parenthesis that was never
opened. -/
def next? (n : Nesting) (c : Char) : Option Nesting :=
  if isQuote c then some { n with inPhrase := !n.inPhrase }
  else if n.inPhrase then some n
  else if c = '(' then some { n with depth := n.depth + 1 }
  else if c = ')' then if n.depth = 0 then none else some { n with depth := n.depth - 1 }
  else some n

/-- What is open one token later, likewise. -/
def token? (n : Nesting) : Token → Option Nesting
  | .quoteMark => some { n with inPhrase := !n.inPhrase }
  | .leftParen => if n.inPhrase then some n else some { n with depth := n.depth + 1 }
  | .rightParen =>
    if n.inPhrase then some n
    else if n.depth = 0 then none else some { n with depth := n.depth - 1 }
  | _ => some n

end Nesting

/-- A string in which every phrase is closed, and in which the parentheses outside phrases match. -/
def IsBalanced (s : String) : Prop :=
  s.toList.foldlM Nesting.next? {} = some {}

instance (s : String) : Decidable (IsBalanced s) :=
  inferInstanceAs (Decidable (_ = _))

/-! ### Delimiters -/

/-- Whether a token is a quote mark or a parenthesis. -/
def Token.isDelimiter : Token → Bool
  | .quoteMark | .leftParen | .rightParen => true
  | _ => false

theorem Token.isDelimiter_ofWord (w : String) : (Token.ofWord w).isDelimiter = false := by
  unfold Token.ofWord
  split <;> rfl

/-- A character that may stand in a run is no delimiter. -/
theorem Token.isDelimiter_ofMark {c : Char} (hc : isMark c = false) :
    (Token.ofMark c).isDelimiter = false := by
  have hne (d : Char) (hd : isMark d = true) : c ≠ d := by
    rintro rfl
    rw [hc] at hd
    cases hd
  rw [Token.ofMark, if_neg (hne '(' rfl), if_neg (hne ')' rfl), if_neg]
  · rfl
  · rintro (h | h | h)
    · exact hne '"' rfl h
    · exact hne '\u201C' rfl h
    · exact hne '\u201D' rfl h

theorem filter_isDelimiter_run {run : List Char} (hrun : ∀ c ∈ run, isMark c = false) :
    (run.map Token.ofMark).filter Token.isDelimiter = [] := by
  rw [List.filter_eq_nil_iff]
  intro t ht
  obtain ⟨c, hc, rfl⟩ := List.mem_map.1 ht
  rw [Token.isDelimiter_ofMark (hrun c hc)]
  exact Bool.false_ne_true

/-- A token that is not one character taken by itself is a run, and no delimiter. -/
theorem lexeme_eq_mark_or_run (c : Char) (cs : List Char) :
    lexeme c cs = (.ofMark c, cs) ∨
      ∃ run, c :: cs = run ++ (lexeme c cs).2 ∧ (∀ d ∈ run, isMark d = false) ∧
        (lexeme c cs).1.text.toList = run ∧ (lexeme c cs).1.isDelimiter = false := by
  have hsplit (member : Char → Bool) :
      c :: cs = (c :: cs.takeWhile member) ++ cs.dropWhile member := by
    rw [List.cons_append, List.takeWhile_append_dropWhile]
  rw [lexeme]
  split
  · next hc =>
    refine Or.inr ⟨_, hsplit isBlank, ?_, String.toList_ofList, rfl⟩
    intro d hd
    have hblank : isBlank d = true := by
      rcases List.mem_cons.1 hd with rfl | hd
      · exact hc
      · exact List.all_eq_true.1 List.all_takeWhile d hd
    rw [isMark, hblank]
    rfl
  split
  · next hc =>
    have htext : (Token.ofWord (String.ofList (c :: cs.takeWhile isWordChar))).text.toList
        = c :: cs.takeWhile isWordChar := by
      rw [Token.text_ofWord, String.toList_ofList]
    refine Or.inr ⟨_, hsplit isWordChar, ?_, htext, Token.isDelimiter_ofWord _⟩
    intro d hd
    have hword : isWordChar d = true := by
      rcases List.mem_cons.1 hd with rfl | hd
      · exact isWordChar_of_isLetter hc
      · exact List.all_eq_true.1 List.all_takeWhile d hd
    rw [isMark, hword, Bool.not_true, Bool.and_false]
  · exact Or.inl rfl

/-- The delimiters of a text are its quote marks and parentheses. -/
theorem filter_isDelimiter_lexemes (cs : List Char) :
    (lexemes cs).filter Token.isDelimiter = (cs.map Token.ofMark).filter Token.isDelimiter := by
  fun_induction lexemes cs with
  | case1 => rfl
  | case2 c cs ih =>
    rcases lexeme_eq_mark_or_run c cs with h | ⟨run, hcut, hrun, -, hdelim⟩
    · rw [h] at ih ⊢
      rw [List.map_cons, List.filter_cons, List.filter_cons, ih]
    · conv => rhs; rw [hcut]
      rw [List.filter_cons_of_neg (by simp [hdelim]), ih, List.map_append, List.filter_append,
        filter_isDelimiter_run hrun, List.nil_append]

/-- A delimiter among the tokens of a text is one of its characters, and the tokens before it are
those of the text before it. -/
theorem exists_cut_of_isDelimiter {t : Token} (ht : t.isDelimiter = true) (cs : List Char) :
    ∀ ts us, lexemes cs = ts ++ t :: us →
      ∃ before c after, cs = before ++ c :: after ∧ Token.ofMark c = t ∧ lexemes before = ts := by
  fun_induction lexemes cs with
  | case1 =>
    intro ts us h
    exact absurd h.symm (List.append_ne_nil_of_right_ne_nil _ (List.cons_ne_nil _ _))
  | case2 c cs ih =>
    intro ts us h
    cases ts with
    | nil =>
      obtain ⟨hfirst, -⟩ := List.cons_eq_cons.1 h
      rcases lexeme_eq_mark_or_run c cs with hmark | ⟨-, -, -, -, hrun⟩
      · rw [hmark] at hfirst
        exact ⟨[], c, cs, rfl, hfirst, lexemes_nil⟩
      · rw [hfirst, ht] at hrun
        cases hrun
    | cons u ts =>
      obtain ⟨hfirst, hrest⟩ := List.cons_eq_cons.1 h
      obtain ⟨before, d, after, hcut, hd, hbefore⟩ := ih ts us hrest
      have hmark : isMark d = true := by
        cases hrun : isMark d with
        | true => rfl
        | false => rw [← hd, Token.isDelimiter_ofMark hrun] at ht; cases ht
      obtain ⟨run, hsplit⟩ : ∃ run, c :: cs = run ++ (lexeme c cs).2 := by
        rcases lexeme_eq_mark_or_run c cs with hone | ⟨run, hsplit, -⟩
        · exact ⟨[c], by rw [hone]; rfl⟩
        · exact ⟨run, hsplit⟩
      have hcs : c :: cs = (run ++ before) ++ d :: after := by
        rw [hsplit, hcut, List.append_assoc]
      refine ⟨run ++ before, d, after, hcs, hd, ?_⟩
      -- the tokens of the whole text are known, and those behind the delimiter are the same
      have htokens : lexemes (run ++ before) ++ .ofMark d :: lexemes after
          = (u :: ts) ++ .ofMark d :: lexemes after := by
        rw [← lexemes_append_mark _ hmark, ← hcs, lexemes_cons, hfirst, hcut,
          lexemes_append_mark _ hmark, hbefore, List.cons_append]
      exact List.append_cancel_right htokens

/-! ### What is open after a text -/

theorem Token.ofMark_eq_quoteMark_iff {c : Char} :
    Token.ofMark c = .quoteMark ↔ isQuote c = true := by
  rw [isQuote_iff]
  unfold Token.ofMark
  split
  · next hc => subst hc; decide
  split
  · next hc => subst hc; decide
  split
  · next hc => exact iff_of_true rfl hc
  · next hc => exact iff_of_false Token.noConfusion hc

theorem Token.ofMark_eq_rightParen_iff {c : Char} : Token.ofMark c = .rightParen ↔ c = ')' := by
  unfold Token.ofMark
  split
  · next hc => subst hc; decide
  split
  · next hc => exact iff_of_true rfl hc
  split
  · next hc => exact iff_of_false Token.noConfusion ‹_›
  · next hc => exact iff_of_false Token.noConfusion ‹_›

namespace Nesting

/-- A character has the effect of the token that it is by itself. -/
theorem token?_ofMark (n : Nesting) (c : Char) : n.token? (.ofMark c) = n.next? c := by
  by_cases hquote : isQuote c = true
  · rw [Token.ofMark_eq_quoteMark_iff.2 hquote, next?, if_pos hquote]
    rfl
  · rw [next?, if_neg hquote]
    rw [isQuote_iff] at hquote
    rw [Token.ofMark, if_neg hquote]
    split
    · rfl
    split
    · rfl
    · rw [ite_self]
      rfl

theorem token?_of_not_isDelimiter (n : Nesting) {t : Token} (ht : t.isDelimiter = false) :
    n.token? t = some n := by
  cases t <;> first | rfl | cases ht

theorem foldlM_filter (n : Nesting) (ts : List Token) :
    (ts.filter Token.isDelimiter).foldlM token? n = ts.foldlM token? n := by
  induction ts generalizing n with
  | nil => rfl
  | cons t ts ih =>
    cases ht : t.isDelimiter with
    | true =>
      rw [List.filter_cons_of_pos ht, List.foldlM_cons, List.foldlM_cons]
      exact congrArg _ (funext fun n => ih n)
    | false =>
      rw [List.filter_cons_of_neg (by simp [ht]), List.foldlM_cons,
        token?_of_not_isDelimiter n ht, ih]
      rfl

/-- What is open after the tokens of a text is open after its characters. -/
theorem foldlM_lexemes (n : Nesting) (cs : List Char) :
    (lexemes cs).foldlM token? n = cs.foldlM next? n := by
  have hmark : (fun (n : Nesting) (c : Char) => n.token? (.ofMark c)) = next? :=
    funext fun n => funext fun c => n.token?_ofMark c
  rw [← foldlM_filter, filter_isDelimiter_lexemes, foldlM_filter, List.foldlM_map, hmark]

end Nesting

/-! ### Open phrases -/

theorem countP_isQuote_eq_zero {cs : List Char} (h : ∀ c ∈ cs, isQuote c = false) :
    cs.countP isQuote = 0 := by
  rw [List.countP_eq_zero]
  intro c hc
  rw [h c hc]
  exact Bool.false_ne_true

theorem countP_quoteMark_lexemes (cs : List Char) :
    (lexemes cs).countP (· == .quoteMark) = cs.countP isQuote := by
  have hdelim (ts : List Token) :
      (ts.filter Token.isDelimiter).countP (· == .quoteMark) = ts.countP (· == .quoteMark) := by
    rw [List.countP_filter]
    refine List.countP_congr fun t _ => ?_
    cases t <;> simp [Token.isDelimiter]
  have hmark (c : Char) : ((· == Token.quoteMark) ∘ Token.ofMark) c = isQuote c := by
    rw [Function.comp_apply, Bool.eq_iff_iff, beq_iff_eq, Token.ofMark_eq_quoteMark_iff]
  rw [← hdelim, filter_isDelimiter_lexemes, hdelim, List.countP_map]
  exact List.countP_congr fun c _ => by rw [hmark]

namespace Spine

/-- A quote mark, and nothing else, opens or closes a phrase. -/
theorem isSome_phrase_step (z : Spine) (t : Token) :
    (z.step t).phrase.isSome = (z.phrase.isSome ^^ (t == .quoteMark)) := by
  obtain ⟨q, above, phrase⟩ := z
  cases phrase with
  | some words => cases t <;> rfl
  | none =>
    cases t with
    | or =>
      simp only [step, stepOutside, applyOr]
      split <;> rfl
    | rightParen => cases above <;> rfl
    | _ => rfl

theorem isSome_phrase_foldl (z : Spine) (ts : List Token) :
    (ts.foldl step z).phrase.isSome
      = (z.phrase.isSome ^^ (ts.countP (· == .quoteMark) % 2 == 1)) := by
  induction ts generalizing z with
  | nil => simp
  | cons t ts ih =>
    -- one more quote mark turns an odd count into an even one
    have hparity (n : Nat) : ((n + 1) % 2 == 1) = !(n % 2 == 1) := by
      rcases Nat.mod_two_eq_zero_or_one n with h | h <;> rw [Nat.add_mod, h] <;> rfl
    rw [List.foldl_cons, ih, isSome_phrase_step, List.countP_cons]
    cases t == Token.quoteMark with
    | false => simp
    | true =>
      rw [if_pos rfl, hparity]
      cases z.phrase.isSome <;> cases ts.countP (· == .quoteMark) % 2 == 1 <;> rfl

/-- A phrase is open after an odd number of quote marks. -/
theorem isSome_phrase_read (z : Spine) (cs : List Char) :
    (z.read cs).phrase.isSome = (z.phrase.isSome ^^ (cs.countP isQuote % 2 == 1)) := by
  rw [read, isSome_phrase_foldl, countP_quoteMark_lexemes]

/-- No phrase is open after an even number of quote marks. -/
theorem phrase_read_of_even {cs : List Char} (h : cs.countP isQuote % 2 = 0) :
    (({} : Spine).read cs).phrase = none := by
  have hphrase := isSome_phrase_read {} cs
  rw [h] at hphrase
  exact Option.isNone_iff_eq_none.1 (Option.isSome_eq_false_iff.1 hphrase)

theorem phrase_read_of_hasEvenQuotes {s : String} (h : HasEvenQuotes s) :
    (({} : Spine).read s.toList).phrase = none :=
  phrase_read_of_even h

end Spine

end BooleanSearch
