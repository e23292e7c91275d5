import BooleanSearch.Proofs.Phrases

/-!
# Repairing a text

Every text has a tree, also one in which a phrase does not end or parentheses do not match.  It is
the tree of a text without such mistakes, which can be told from the first one: the phrase that does
not end is cut off, closing parentheses that close nothing are blanked, and the groups that are
still open are closed.

At every place before its end, the repaired text leads to the same open nodes as the first one.  A
blank stands for a parenthesis that had no effect, so that no words grow together.  And a closing
parenthesis changes the tree nowhere, as all open nodes are closed at the end anyway.

## Main definitions

* `withoutOpenPhrase` — a text without the phrase that does not end.
* `blankStrays` — a text without the closing parentheses that close nothing.
* `repaired` — a string without mistakes.

## Main results

* `Spine.read_withoutOpenPhrase`, `Spine.read_blankStrays` — the effect stays the same.
* `Draft.exists_of_mem_noticesAlong` — where a notice comes from.
* `not_isAt_of_blankStrays` — no closing parenthesis is left that closes nothing.
* `Spine.close_all` — closing parentheses for all nodes that are open.
* `parse_repaired` — **a string and its repair have the same tree.**
-/

namespace BooleanSearch

/-- A text without the phrase that does not end, which begins at the last quote mark if the number
of quote marks is odd. -/
def withoutOpenPhrase (s : String) : List Char :=
  if HasEvenQuotes s then s.toList else (s.toList.rdropWhile fun c => !isQuote c).dropLast

/-- A text with a space for each closing parenthesis that is read at the root, outside phrases,
where `before` stands before the text. -/
def blankStrays (before : List Char) : List Char → List Char
  | [] => []
  | c :: cs =>
    (if c = ')' ∧ (Draft.ofTokens (tokenize (String.ofList before))).IsAt 0 then ' ' else c) ::
      blankStrays (before ++ [c]) cs

/-- Some closing parentheses. -/
def closers (n : Nat) : String :=
  String.ofList (List.replicate n ')')

/-- A string without the phrase that does not end and the closing parentheses that close nothing,
and with closing parentheses for the groups that are open at its end. -/
def repaired (s : String) : String :=
  String.ofList (blankStrays [] (withoutOpenPhrase s)) ++
    closers (Draft.ofTokens (tokenize s)).path.length

/-! ### The phrase that does not end -/

/-- A string with an odd number of quote marks is cut before the last of them. -/
theorem exists_last_quote {s : String} (h : ¬HasEvenQuotes s) :
    ∃ q after, s.toList = withoutOpenPhrase s ++ q :: after ∧ isQuote q = true ∧
      ∀ c ∈ after, isQuote c = false := by
  have hne : (s.toList.rdropWhile fun c => !isQuote c) ≠ [] := by
    intro hnil
    have hnone : ∀ c ∈ s.toList, isQuote c = false := by
      intro c hc
      simpa using List.rdropWhile_eq_nil_iff.1 hnil c hc
    apply h
    rw [HasEvenQuotes, countP_isQuote_eq_zero hnone]
  have hlast := List.rdropWhile_last_not _ s.toList hne
  refine ⟨_, s.toList.rtakeWhile fun c => !isQuote c, ?_, by simpa using hlast, ?_⟩
  · rw [withoutOpenPhrase, if_neg h, ← List.singleton_append, ← List.append_assoc,
      List.dropLast_append_getLast hne, List.rdropWhile_append_rtakeWhile]
  · intro c hc
    simpa using List.mem_rtakeWhile_imp hc

/-- An even number of quote marks is left. -/
theorem countP_withoutOpenPhrase (s : String) :
    (withoutOpenPhrase s).countP isQuote % 2 = 0 := by
  by_cases heven : HasEvenQuotes s
  · rw [withoutOpenPhrase, if_pos heven]
    exact heven
  · obtain ⟨q, after, hcut, hq, hafter⟩ := exists_last_quote heven
    rw [HasEvenQuotes, hcut, List.countP_append, List.countP_cons_of_pos hq,
      countP_isQuote_eq_zero hafter] at heven
    omega

/-- Without the phrase that does not end, a text leads to the same nodes. -/
theorem Spine.read_withoutOpenPhrase (s : String) :
    ({} : Spine).read (withoutOpenPhrase s)
      = { ({} : Spine).read s.toList with phrase := none } := by
  have hphrase := phrase_read_of_even (countP_withoutOpenPhrase s)
  rcases hz : ({} : Spine).read (withoutOpenPhrase s) with ⟨node, above, phrase⟩
  rw [hz] at hphrase
  obtain rfl : phrase = none := hphrase
  by_cases heven : HasEvenQuotes s
  · rw [withoutOpenPhrase, if_pos heven] at hz
    rw [hz]
  · obtain ⟨q, after, hcut, hq, hafter⟩ := exists_last_quote heven
    -- what follows the quote mark is collected in the phrase, and the nodes stay as they are
    have hopen : step ⟨node, above, none⟩ .quoteMark = ⟨node, above, some []⟩ := rfl
    rw [hcut, read_append_mark _ _ (isMark_of_isQuote hq), Token.ofMark_eq_quoteMark_iff.2 hq, hz,
      hopen, read_in_phrase node above [] hafter]

/-! ### Closing parentheses -/

theorem Draft.ofTokens_tokenize_ofList (cs : List Char) :
    ofTokens (tokenize (String.ofList cs)) = (({} : Spine).read cs).draft := by
  rw [ofTokens_tokenize, String.toList_ofList]

namespace Spine

/-- A closing parenthesis has no effect at the root. -/
theorem step_rightParen_of_isAt {z : Spine} (h : z.draft.IsAt 0) : z.step .rightParen = z := by
  have hpath := path_eq_nil_of_cursor_eq_zero h.2
  obtain ⟨q, above, phrase⟩ := z
  cases above with
  | nil =>
    cases phrase with
    | none => rfl
    | some words => cases h.1
  | cons parent above => cases hpath

/-- A closing parenthesis changes nothing in the tree. -/
theorem tree_step_rightParen (z : Spine) : (z.step .rightParen).tree = z.tree := by
  obtain ⟨q, above, phrase⟩ := z
  cases phrase with
  | none => exact tree_ascend ⟨q, above, none⟩
  | some words => rfl

theorem tree_foldl_rightParen (n : Nat) : ∀ z : Spine,
    ((List.replicate n .rightParen).foldl step z).tree = z.tree := by
  induction n with
  | zero =>
    intro z
    rfl
  | succ n ih =>
    intro z
    rw [List.replicate_succ, List.foldl_cons, ih, tree_step_rightParen]

/-- Closing parentheses at the beginning have no effect. -/
theorem read_closers_append (n : Nat) (cs : List Char) :
    ({} : Spine).read (List.replicate n ')' ++ cs) = ({} : Spine).read cs := by
  have hroot : ({} : Spine).draft.IsAt 0 := ⟨rfl, rfl⟩
  induction n with
  | zero => rfl
  | succ n ih =>
    have hstep : ({} : Spine).step (.ofMark ')') = {} := step_rightParen_of_isAt hroot
    rw [List.replicate_succ, List.cons_append, read_mark _ rfl, hstep, ih]

/-- As many closing parentheses as nodes are open close all of them, and there is no notice. -/
theorem close_all (above : List Query) : ∀ q : Query,
    Draft.noticesAlong (⟨q, above, none⟩ : Spine).draft (List.replicate above.length .rightParen)
        = [] ∧
      ((List.replicate above.length .rightParen).foldl step ⟨q, above, none⟩).draft.closingNotices
        = [] := by
  induction above with
  | nil =>
    intro q
    exact ⟨rfl, rfl⟩
  | cons parent above ih =>
    intro q
    have hstep : step ⟨q, parent :: above, none⟩ .rightParen
        = ⟨parent.pushSubquery q, above, none⟩ := rfl
    have hnotice : (⟨q, parent :: above, none⟩ : Spine).draft.notice? .rightParen = none := rfl
    rw [List.length_cons, List.replicate_succ, Draft.noticesAlong, hnotice, step_draft, hstep,
      List.foldl_cons, hstep]
    exact ih (parent.pushSubquery q)

end Spine

/-! ### Closing parentheses that close nothing -/

theorem blankStrays_concat (c : Char) (cs : List Char) : ∀ before : List Char,
    blankStrays before (cs ++ [c])
      = blankStrays before cs ++
          [if c = ')' ∧ (Draft.ofTokens (tokenize (String.ofList (before ++ cs)))).IsAt 0 then ' '
            else c] := by
  induction cs with
  | nil =>
    intro before
    rw [List.append_nil]
    rfl
  | cons d cs ih =>
    intro before
    rw [List.cons_append, blankStrays, ih, List.append_assoc, List.singleton_append]
    rfl

/-- With a space for each closing parenthesis that closes nothing, a text leads to the same nodes
and the same phrase, whatever comes behind it. -/
theorem Spine.read_blankStrays_append (cs : List Char) : ∀ ds : List Char,
    ({} : Spine).read (blankStrays [] cs ++ ds) = ({} : Spine).read (cs ++ ds) := by
  induction cs using List.reverseRecOn with
  | nil =>
    intro ds
    rfl
  | append_singleton cs c ih =>
    intro ds
    rw [blankStrays_concat, List.nil_append, List.append_assoc, List.append_assoc,
      List.singleton_append, List.singleton_append, ih]
    split
    · next hstray =>
      obtain ⟨rfl, hroot⟩ := hstray
      rw [Draft.ofTokens_tokenize_ofList] at hroot
      have hstep : (({} : Spine).read cs).step (.ofMark ')') = ({} : Spine).read cs :=
        step_rightParen_of_isAt hroot
      -- a space ends every word, so what follows is read as if nothing stood there
      rw [read_append_blank _ _ rfl, read_append_mark _ _ rfl, hstep]
    · rfl

theorem Spine.read_blankStrays (cs : List Char) :
    ({} : Spine).read (blankStrays [] cs) = ({} : Spine).read cs := by
  have hread := read_blankStrays_append cs []
  rwa [List.append_nil, List.append_nil] at hread

/-- No closing parenthesis is left that closes nothing. -/
theorem not_isAt_of_blankStrays (cs : List Char) : ∀ before after : List Char,
    blankStrays [] cs = before ++ ')' :: after →
      ¬(({} : Spine).read before).draft.IsAt 0 := by
  induction cs using List.reverseRecOn with
  | nil =>
    intro before after h
    exact absurd h.symm (List.append_ne_nil_of_right_ne_nil _ (List.cons_ne_nil _ _))
  | append_singleton cs c ih =>
    intro before after h
    rw [blankStrays_concat, List.nil_append] at h
    rcases List.eq_nil_or_concat after with rfl | ⟨after, d, rfl⟩
    · obtain ⟨rfl, hlast⟩ := List.append_inj' h rfl
      intro hroot
      rw [Spine.read_blankStrays, ← Draft.ofTokens_tokenize_ofList] at hroot
      -- the last parenthesis would have been blanked
      split at hlast
      · cases hlast
      · next hkept =>
        obtain ⟨rfl, -⟩ := List.cons_eq_cons.1 hlast
        exact hkept ⟨rfl, hroot⟩
    · rw [List.concat_eq_append, ← List.cons_append, ← List.append_assoc] at h
      exact ih before after (List.append_inj' h rfl).1

/-! ### Notices -/

namespace Draft

theorem noticesAlong_append (us : List Token) (ts : List Token) : ∀ d : Draft,
    d.noticesAlong (ts ++ us) = d.noticesAlong ts ++ (ts.foldl step d).noticesAlong us := by
  induction ts with
  | nil =>
    intro d
    rfl
  | cons t ts ih =>
    intro d
    rw [List.cons_append, noticesAlong, noticesAlong, ih, List.append_assoc]
    rfl

/-- A notice is given about one of the tokens, and the draft by then is what the tokens before it
lead to. -/
theorem exists_of_mem_noticesAlong {notice : Notice} (ts : List Token) : ∀ d : Draft,
    notice ∈ d.noticesAlong ts →
      ∃ before t after, ts = before ++ t :: after ∧
        (before.foldl step d).notice? t = some notice := by
  induction ts with
  | nil =>
    intro d hmem
    cases hmem
  | cons t ts ih =>
    intro d hmem
    rw [noticesAlong, List.mem_append, Option.mem_toList] at hmem
    rcases hmem with hnow | hlater
    · exact ⟨[], t, ts, rfl, hnow⟩
    · obtain ⟨before, u, after, rfl, hu⟩ := ih (d.step t) hlater
      exact ⟨t :: before, u, after, rfl, hu⟩

/-- A notice about a token is about a stray character or about a closing parenthesis at the root. -/
theorem eq_of_notice?_eq_some {d : Draft} {t : Token} {notice : Notice}
    (h : d.notice? t = some notice) :
    (∃ c, notice = .strayCharacter c) ∨ (t = .rightParen ∧ d.IsAt 0) := by
  cases t with
  | illegal c =>
    cases h
    exact Or.inl ⟨c, rfl⟩
  | rightParen =>
    rw [notice?_rightParen] at h
    split at h
    · next hroot =>
      rw [Bool.and_eq_true, Option.isNone_iff_eq_none, List.isEmpty_iff] at hroot
      refine Or.inr ⟨rfl, hroot.1, ?_⟩
      rw [cursor, hroot.2]
      rfl
    · cases h
  | _ => cases h

end Draft

/-- Where no closing parenthesis closes nothing, there are notices about stray characters only. -/
theorem eq_strayCharacter_of_mem_noticesAlong {cs : List Char}
    (h : ∀ before after : List Char, cs = before ++ ')' :: after →
      ¬(({} : Spine).read before).draft.IsAt 0) :
    ∀ notice ∈ ({} : Draft).noticesAlong (lexemes cs), ∃ c, notice = .strayCharacter c := by
  intro notice hmem
  obtain ⟨ts, t, us, hts, hnotice⟩ := Draft.exists_of_mem_noticesAlong _ _ hmem
  rcases Draft.eq_of_notice?_eq_some hnotice with hstray | ⟨rfl, hroot⟩
  · exact hstray
  · obtain ⟨before, c, after, hcut, hc, rfl⟩ := exists_cut_of_isDelimiter rfl cs ts us hts
    rw [← Draft.ofTokens, Draft.ofTokens_lexemes] at hroot
    obtain rfl : c = ')' := Token.ofMark_eq_rightParen_iff.1 hc
    exact absurd hroot (h before after hcut)

/-! ### Strings -/

theorem lexemes_append_closers (cs : List Char) (n : Nat) :
    lexemes (cs ++ List.replicate n ')') = lexemes cs ++ List.replicate n .rightParen := by
  induction n with
  | zero => rw [List.replicate_zero, List.replicate_zero, List.append_nil, List.append_nil]
  | succ n ih =>
    rw [List.replicate_succ', ← List.append_assoc, lexemes_append_mark _ rfl, ih, lexemes_nil,
      List.append_assoc, List.replicate_succ']
    rfl

theorem Spine.read_append_closers (z : Spine) (cs : List Char) (n : Nat) :
    z.read (cs ++ List.replicate n ')')
      = (List.replicate n .rightParen).foldl step (z.read cs) := by
  rw [read, lexemes_append_closers, List.foldl_append, read]

theorem Spine.length_path_draft (z : Spine) : z.draft.path.length = z.above.length := by
  rw [draft]
  induction z.above with
  | nil => rfl
  | cons parent above ih => exact congrArg (· + 1) ih

/-- Where all nodes that are open are closed at the end, the notices are those about the text
before. -/
theorem toList_notices_of_closed {s : String} {cs : List Char}
    (hphrase : (({} : Spine).read cs).phrase = none)
    (hs : s.toList = cs ++ List.replicate (({} : Spine).read cs).above.length ')') :
    (readString s).notices.toList = ({} : Draft).noticesAlong (lexemes cs) := by
  rw [toList_notices, tokenize_eq, hs, lexemes_append_closers, Draft.noticesAlong_append,
    ← Draft.ofTokens, Draft.ofTokens_lexemes, Spine.read_append_closers]
  rcases hz : ({} : Spine).read cs with ⟨q, above, phrase⟩
  rw [hz] at hphrase
  obtain rfl : phrase = none := hphrase
  obtain ⟨hnone, hclosing⟩ := Spine.close_all above q
  rw [hnone, hclosing, List.append_nil, List.append_nil]

/-- **A string and its repair have the same tree**, and there is no notice about phrases or
parentheses of the repair.  More closing parentheses, before a string or behind it, do not change
its tree either. -/
theorem parse_repaired (s : String) :
    parse (repaired s) = parse s ∧
      (∀ notice ∈ (readString (repaired s)).notices.toList, ∃ c, notice = .strayCharacter c) ∧
      ∀ n, parse (closers n ++ s) = parse s ∧ parse (s ++ closers n) = parse s := by
  have hkept : ({} : Spine).read (blankStrays [] (withoutOpenPhrase s))
      = { ({} : Spine).read s.toList with phrase := none } := by
    rw [Spine.read_blankStrays, Spine.read_withoutOpenPhrase]
  have habove := congrArg (·.above.length) hkept
  have htext : (repaired s).toList
      = blankStrays [] (withoutOpenPhrase s) ++ List.replicate
          (({} : Spine).read (blankStrays [] (withoutOpenPhrase s))).above.length ')' := by
    rw [repaired, String.toList_append, closers, String.toList_ofList, String.toList_ofList,
      Draft.ofTokens_tokenize, Spine.length_path_draft, habove]
  refine ⟨?_, ?_, ?_⟩
  · rw [parse_eq_read, parse_eq_read, htext, Spine.read_append_closers,
      Spine.tree_foldl_rightParen, hkept]
    rfl
  · rw [toList_notices_of_closed (congrArg Spine.phrase hkept) htext]
    exact eq_strayCharacter_of_mem_noticesAlong (not_isAt_of_blankStrays (withoutOpenPhrase s))
  · intro n
    constructor
    · rw [parse_eq_read, parse_eq_read, String.toList_append, closers, String.toList_ofList,
        Spine.read_closers_append]
    · rw [parse_eq_read, parse_eq_read, String.toList_append, closers, String.toList_ofList,
        Spine.read_append_closers, Spine.tree_foldl_rightParen]

end BooleanSearch
