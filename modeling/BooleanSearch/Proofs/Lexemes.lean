import BooleanSearch.Proofs.Feed
import BooleanSearch.Proofs.Lists
import Mathlib.Data.List.Basic
import Mathlib.Data.List.TakeWhile

/-!
# The tokens of a text

Tokens by recursion on the characters of a text.  A token is as long as it can be, so a text can be
cut wherever the token before the cut would not go on behind it.  A character that may stand in no
run ends the token before it and is a token by itself.

## Main definitions

* `lexeme`, `lexemes` — the first token of a text, and all of them.
* `Token.goesOn` — whether a token is a run that goes on with a character.
* `isMark` — the characters that may stand in no run.
* `withoutBlanks` — the tokens but for runs of blanks.
* `Token.isSignificant` — the tokens that have an effect on a draft.
* `Spine.read` — the effect of a text.

## Main results

* `tokenize_eq` — the tokens of a string.
* `goesOn_lexeme` — a token is as long as it can be.
* `lexemes_append`, `lexemes_append_mark` — where a text may be cut.
* `withoutBlanks_lexemes_append` — where it may be cut if blanks do not matter.
* `Spine.foldl_step_filter` — only significant tokens have an effect.
* `Spine.read_blank`, `Spine.read_mark`, `Spine.read_word` — reading what a text begins with.
* `Spine.read_append`, `Spine.read_append_blank`, `Spine.read_append_mark` — reading a text that is
  cut between words, at a blank or at a mark.
-/

namespace BooleanSearch

/-- The first token of a text that begins with `c` and goes on with `cs`, and what comes after
it. -/
def lexeme (c : Char) (cs : List Char) : Token × List Char :=
  if isBlank c then
    (.whitespace (String.ofList (c :: cs.takeWhile isBlank)), cs.dropWhile isBlank)
  else if isLetter c then
    (.ofWord (String.ofList (c :: cs.takeWhile isWordChar)), cs.dropWhile isWordChar)
  else (.ofMark c, cs)

theorem length_lexeme_le (c : Char) (cs : List Char) : (lexeme c cs).2.length ≤ cs.length := by
  rw [lexeme]
  split
  · exact (List.dropWhile_suffix _).length_le
  split
  · exact (List.dropWhile_suffix _).length_le
  · exact Nat.le_refl _

/-- The tokens of a text. -/
def lexemes : List Char → List Token
  | [] => []
  | c :: cs => (lexeme c cs).1 :: lexemes (lexeme c cs).2
termination_by cs => cs.length
decreasing_by exact Nat.lt_succ_of_le (length_lexeme_le c cs)

@[simp] theorem lexemes_nil : lexemes [] = [] := by rw [lexemes]

theorem lexemes_cons (c : Char) (cs : List Char) :
    lexemes (c :: cs) = (lexeme c cs).1 :: lexemes (lexeme c cs).2 := by rw [lexemes]

theorem lexeme_ne_endOfInput (c : Char) (cs : List Char) : (lexeme c cs).1 ≠ .endOfInput := by
  rw [lexeme]
  split
  · simp
  split
  · exact Token.ofWord_ne_endOfInput _
  · exact Token.ofMark_ne_endOfInput _

/-! ### The tokens of a string -/

theorem scan_map_char_cons {ε : Type} (c : Char) (cs : List Char) :
    Feed.scan ((c :: cs).map .char : Feed ε)
      = (.ok (lexeme c cs).1, (lexeme c cs).2.map .char) := by
  have hend (t : Token) (rest : List Char) :
      Feed.endRun t (rest.map .char : Feed ε) = (.ok t, rest.map .char) := by
    cases rest <;> rfl
  simp only [List.map_cons, Feed.scan, Feed.splitRun_map_char, hend, lexeme]
  split
  · rfl
  split <;> rfl

/-- A scanner gives the tokens of the characters that are ahead of it. -/
theorem tokens_eq_lexemes {ε : Type} {s : Scanner (Feed ε)} {cs : List Char}
    (h : s.ahead = cs.map .char) : s.tokens.1 = .ok (lexemes cs) := by
  fun_induction lexemes cs generalizing s with
  | case1 =>
    have hscan := s.scan_eq
    rw [h] at hscan
    obtain ⟨h₁, -⟩ := Prod.mk.inj hscan
    rw [Scanner.tokens_of_end (Prod.ext h₁ rfl)]
  | case2 c cs ih =>
    have hscan := s.scan_eq
    rw [h, scan_map_char_cons] at hscan
    obtain ⟨h₁, h₂⟩ := Prod.mk.inj hscan
    rw [Scanner.tokens_of_token (Prod.ext h₁ rfl) (lexeme_ne_endOfInput c cs), ih h₂]
    rfl

/-- The tokens of a string. -/
theorem tokenize_eq (s : String) : tokenize s = lexemes s.toList := by
  have h : Except.ok (tokenize s) = Except.ok (ε := Empty) (lexemes s.toList) := by
    rw [← tokens_ofString]
    exact tokens_eq_lexemes rfl
  exact Except.ok.inj h

/-! ### Runs -/

/-- Whether a token is a run of blanks. -/
def Token.isWhitespace : Token → Bool
  | .whitespace _ => true
  | _ => false

/-- Whether a token is a run of word characters, which is a word or a keyword. -/
def Token.isWordRun : Token → Bool
  | .literal _ | .and | .or => true
  | _ => false

/-- Whether a token is a run. -/
def Token.isRun (t : Token) : Bool :=
  t.isWhitespace || t.isWordRun

/-- Whether a token is a run that goes on with a character. -/
def Token.goesOn (t : Token) (c : Char) : Bool :=
  (t.isWhitespace && isBlank c) || (t.isWordRun && isWordChar c)

@[simp] theorem Token.goesOn_whitespace (text : String) :
    (Token.whitespace text).goesOn = isBlank := by
  funext c
  simp [goesOn, isWhitespace, isWordRun]

@[simp] theorem Token.isWhitespace_ofWord (word : String) : (ofWord word).isWhitespace = false := by
  unfold ofWord
  split <;> rfl

@[simp] theorem Token.isWordRun_ofWord (word : String) : (ofWord word).isWordRun = true := by
  unfold ofWord
  split <;> rfl

@[simp] theorem Token.goesOn_ofWord (word : String) : (ofWord word).goesOn = isWordChar := by
  funext c
  simp [goesOn]

@[simp] theorem Token.isWhitespace_ofMark (c : Char) : (ofMark c).isWhitespace = false := by
  unfold ofMark
  split
  · rfl
  split
  · rfl
  split <;> rfl

@[simp] theorem Token.isWordRun_ofMark (c : Char) : (ofMark c).isWordRun = false := by
  unfold ofMark
  split
  · rfl
  split
  · rfl
  split <;> rfl

@[simp] theorem Token.goesOn_ofMark (c d : Char) : (ofMark c).goesOn d = false := by
  simp [goesOn]

/-- A token is as long as it can be. -/
theorem goesOn_lexeme (c : Char) (cs : List Char) :
    ∀ d ∈ (lexeme c cs).2.head?, (lexeme c cs).1.goesOn d = false := by
  have hrun (member : Char → Bool) :
      ∀ d ∈ (cs.dropWhile member).head?, member d = false := by
    intro d hd
    have hstop := List.head?_dropWhile_not member cs
    rw [Option.mem_def.1 hd] at hstop
    exact hstop
  intro d hd
  unfold lexeme at hd ⊢
  split at hd
  · next hc =>
    rw [if_pos hc, Token.goesOn_whitespace]
    exact hrun isBlank d hd
  next hblank =>
  rw [if_neg hblank]
  split at hd
  · next hc =>
    rw [if_pos hc, Token.goesOn_ofWord]
    exact hrun isWordChar d hd
  · next hletter =>
    rw [if_neg hletter]
    exact Token.goesOn_ofMark c d

/-! ### Cutting a text -/

/-- What comes after a text makes no difference to its first token, unless the token reaches the
end of the text and goes on there. -/
theorem lexeme_append {c : Char} {cs ds : List Char}
    (h : (lexeme c cs).2 = [] → ∀ d ∈ ds.head?, (lexeme c cs).1.goesOn d = false) :
    lexeme c (cs ++ ds) = ((lexeme c cs).1, (lexeme c cs).2 ++ ds) := by
  unfold lexeme at h ⊢
  by_cases hblank : isBlank c = true
  · simp only [if_pos hblank, Token.goesOn_whitespace] at h ⊢
    obtain ⟨htake, hdrop⟩ := takeWhile_append_of_stop h
    rw [htake, hdrop]
  by_cases hletter : isLetter c = true
  · simp only [if_neg hblank, if_pos hletter, Token.goesOn_ofWord] at h ⊢
    obtain ⟨htake, hdrop⟩ := takeWhile_append_of_stop h
    rw [htake, hdrop]
  · simp only [if_neg hblank, if_neg hletter]

theorem isBlank_of_isLetter {c : Char} (hc : isLetter c = true) : isBlank c = false := by
  cases h : isBlank c with
  | false => rfl
  | true =>
    simp only [isBlank, Bool.or_eq_true, beq_iff_eq] at h
    rcases h with (rfl | rfl) | rfl <;> cases hc

theorem isWordChar_of_isBlank {c : Char} (hc : isBlank c = true) : isWordChar c = false := by
  simp only [isBlank, Bool.or_eq_true, beq_iff_eq] at hc
  rcases hc with (rfl | rfl) | rfl <;> decide

/-- A run of blanks is one token. -/
theorem lexemes_of_isBlank {c : Char} {cs : List Char} (hc : isBlank c = true)
    (hcs : ∀ d ∈ cs, isBlank d = true) :
    lexemes (c :: cs) = [.whitespace (String.ofList (c :: cs))] := by
  have hdrop : cs.dropWhile isBlank = [] := List.dropWhile_eq_nil_iff.2 hcs
  have htake : cs.takeWhile isBlank = cs := List.takeWhile_eq_self_iff.2 hcs
  rw [lexemes_cons, lexeme, if_pos hc, hdrop, htake, lexemes_nil]

/-- A word is one token. -/
theorem lexemes_of_isLetter {c : Char} {cs : List Char} (hc : isLetter c = true)
    (hcs : ∀ d ∈ cs, isWordChar d = true) :
    lexemes (c :: cs) = [.ofWord (String.ofList (c :: cs))] := by
  have hdrop : cs.dropWhile isWordChar = [] := List.dropWhile_eq_nil_iff.2 hcs
  have htake : cs.takeWhile isWordChar = cs := List.takeWhile_eq_self_iff.2 hcs
  have hblank : ¬isBlank c = true := by simp [isBlank_of_isLetter hc]
  rw [lexemes_cons, lexeme, if_neg hblank, if_pos hc, hdrop, htake, lexemes_nil]

/-- **A text may be cut where the last token before the cut does not go on behind it.** -/
theorem lexemes_append {cs ds : List Char}
    (h : ∀ t ∈ (lexemes cs).getLast?, ∀ d ∈ ds.head?, t.goesOn d = false) :
    lexemes (cs ++ ds) = lexemes cs ++ lexemes ds := by
  fun_induction lexemes cs with
  | case1 => rfl
  | case2 c cs ih =>
    -- a token that reaches the end of the text is the last one
    have hfirst : (lexeme c cs).2 = [] → ∀ d ∈ ds.head?, (lexeme c cs).1.goesOn d = false := by
      intro hnil
      rw [hnil, lexemes_nil] at h
      exact h _ rfl
    have hrest := ih fun t ht => h t (List.mem_getLast?_cons ht)
    rw [List.cons_append, lexemes_cons, lexeme_append hfirst, hrest, List.cons_append]

/-- Whether a character may stand in no run. -/
def isMark (c : Char) : Bool :=
  !isBlank c && !isWordChar c

theorem Token.goesOn_of_isMark {c : Char} (hc : isMark c = true) (t : Token) :
    t.goesOn c = false := by
  simp only [isMark, Bool.and_eq_true, Bool.not_eq_true'] at hc
  rw [goesOn, hc.1, hc.2, Bool.and_false, Bool.and_false, Bool.or_false]

/-- A character that begins no run is a token by itself. -/
theorem lexeme_eq_ofMark {c : Char} (hblank : isBlank c = false) (hletter : isLetter c = false)
    (cs : List Char) : lexeme c cs = (.ofMark c, cs) := by
  rw [lexeme, hblank, hletter]
  rfl

theorem lexeme_of_isMark {c : Char} (hc : isMark c = true) (cs : List Char) :
    lexeme c cs = (.ofMark c, cs) := by
  simp only [isMark, Bool.and_eq_true, Bool.not_eq_true'] at hc
  have hletter : isLetter c = false := by
    cases h : isLetter c with
    | false => rfl
    | true => rw [isWordChar_of_isLetter h] at hc; simp at hc
  exact lexeme_eq_ofMark hc.1 hletter cs

/-- A text may be cut at a mark. -/
theorem lexemes_append_mark (cs : List Char) {c : Char} (hc : isMark c = true)
    (rest : List Char) :
    lexemes (cs ++ c :: rest) = lexemes cs ++ .ofMark c :: lexemes rest := by
  have hcut : ∀ t ∈ (lexemes cs).getLast?, ∀ d ∈ (c :: rest).head?, t.goesOn d = false := by
    intro t _ d hd
    cases hd
    exact t.goesOn_of_isMark hc
  rw [lexemes_append hcut, lexemes_cons, lexeme_of_isMark hc]

/-! ### Blanks -/

/-- The tokens that are no runs of blanks. -/
def withoutBlanks (ts : List Token) : List Token :=
  ts.filter fun t => !t.isWhitespace

@[simp] theorem withoutBlanks_whitespace_cons (text : String) (ts : List Token) :
    withoutBlanks (.whitespace text :: ts) = withoutBlanks ts := rfl

theorem withoutBlanks_cons {t : Token} (ht : t.isWhitespace = false) (ts : List Token) :
    withoutBlanks (t :: ts) = t :: withoutBlanks ts :=
  List.filter_cons_of_pos (by simp [ht])

@[simp] theorem withoutBlanks_append (ts us : List Token) :
    withoutBlanks (ts ++ us) = withoutBlanks ts ++ withoutBlanks us :=
  List.filter_append ..

/-- A blank makes no token but a run of blanks, also where it begins a run. -/
theorem withoutBlanks_lexemes_cons {c : Char} (hc : isBlank c = true) (cs : List Char) :
    withoutBlanks (lexemes (c :: cs)) = withoutBlanks (lexemes cs) := by
  have hskip : ∀ (c : Char) (cs : List Char), isBlank c = true →
      withoutBlanks (lexemes (c :: cs)) = withoutBlanks (lexemes (cs.dropWhile isBlank)) := by
    intro c cs hc
    rw [lexemes_cons, lexeme, if_pos hc, withoutBlanks_whitespace_cons]
  rw [hskip c cs hc]
  cases cs with
  | nil => rfl
  | cons d ds =>
    cases hd : isBlank d with
    | true => rw [hskip d ds hd, List.dropWhile_cons_of_pos hd]
    | false => rw [List.dropWhile_cons_of_neg (by simp [hd])]

theorem withoutBlanks_lexemes_append_of_blank {cs : List Char}
    (h : ∀ c ∈ cs, isBlank c = true) (ds : List Char) :
    withoutBlanks (lexemes (cs ++ ds)) = withoutBlanks (lexemes ds) := by
  induction cs with
  | nil => rfl
  | cons c cs ih =>
    rw [List.forall_mem_cons] at h
    rw [List.cons_append, withoutBlanks_lexemes_cons h.1, ih h.2]

theorem isWhitespace_lexeme (c : Char) (cs : List Char) :
    (lexeme c cs).1.isWhitespace = isBlank c := by
  unfold lexeme
  split
  · next hc => rw [hc]; rfl
  next hc =>
  rw [Bool.eq_false_iff.2 hc]
  split
  · exact Token.isWhitespace_ofWord _
  · exact Token.isWhitespace_ofMark c

/-- But for blanks, a text may be cut wherever no word goes on. -/
theorem withoutBlanks_lexemes_append {cs ds : List Char}
    (h : ∀ t ∈ (lexemes cs).getLast?, t.isWordRun = true →
      ∀ d ∈ ds.head?, isWordChar d = false) :
    withoutBlanks (lexemes (cs ++ ds))
      = withoutBlanks (lexemes cs) ++ withoutBlanks (lexemes ds) := by
  fun_induction lexemes cs with
  | case1 => rfl
  | case2 c cs ih =>
    by_cases hblank : isBlank c = true ∧ (lexeme c cs).2 = []
    · -- nothing but blanks before the cut, and a run of them may go on behind it
      obtain ⟨hc, hnil⟩ := hblank
      have hcs : ∀ d ∈ cs, isBlank d = true := by
        rw [lexeme, if_pos hc] at hnil
        exact List.dropWhile_eq_nil_iff.1 hnil
      rw [withoutBlanks_lexemes_append_of_blank (List.forall_mem_cons.2 ⟨hc, hcs⟩), hnil,
        lexemes_nil, lexeme, if_pos hc]
      rfl
    · have hfirst : (lexeme c cs).2 = [] →
          ∀ d ∈ ds.head?, (lexeme c cs).1.goesOn d = false := by
        intro hnil d hd
        have hc : isBlank c = false := Bool.eq_false_iff.2 fun hc => hblank ⟨hc, hnil⟩
        rw [Token.goesOn, isWhitespace_lexeme, hc, Bool.false_and, Bool.false_or,
          Bool.and_eq_false_imp]
        intro hword
        rw [hnil, lexemes_nil] at h
        exact h _ rfl hword d hd
      have hrest := ih fun t ht => h t (List.mem_getLast?_cons ht)
      rw [List.cons_append, lexemes_cons, lexeme_append hfirst]
      simp only [withoutBlanks, List.filter_cons] at hrest ⊢
      rw [hrest]
      split <;> rfl

/-! ### Significant tokens -/

/-- Whether a token has an effect on a draft. -/
def Token.isSignificant : Token → Bool
  | .whitespace _ | .illegal _ => false
  | _ => true

namespace Spine

theorem step_of_not_isSignificant (z : Spine) {t : Token} (ht : t.isSignificant = false) :
    z.step t = z := by
  obtain ⟨q, above, phrase⟩ := z
  cases t <;> simp only [Token.isSignificant, Bool.true_eq_false] at ht <;>
    cases phrase <;> simp [step, stepInPhrase, stepOutside, Token.phraseWord?]

/-- Tokens without effect may be left out. -/
theorem foldl_step_filter_of {keep : Token → Bool}
    (hkeep : ∀ t, keep t = false → t.isSignificant = false) (ts : List Token) :
    ∀ z : Spine, (ts.filter keep).foldl step z = ts.foldl step z := by
  induction ts with
  | nil =>
    intro z
    rfl
  | cons t ts ih =>
    intro z
    cases ht : keep t with
    | true => rw [List.filter_cons_of_pos ht, List.foldl_cons, List.foldl_cons, ih]
    | false =>
      rw [List.filter_cons_of_neg (by simp [ht]), List.foldl_cons,
        step_of_not_isSignificant z (hkeep t ht), ih]

/-- Only significant tokens have an effect. -/
theorem foldl_step_filter (z : Spine) (ts : List Token) :
    (ts.filter Token.isSignificant).foldl step z = ts.foldl step z :=
  foldl_step_filter_of (fun _ ht => ht) ts z

/-- Runs of blanks have no effect. -/
theorem foldl_step_withoutBlanks (z : Spine) (ts : List Token) :
    (withoutBlanks ts).foldl step z = ts.foldl step z := by
  apply foldl_step_filter_of
  intro t ht
  cases t with
  | whitespace text => rfl
  | _ => cases ht

/-! ### Reading a text -/

/-- The effect of a text. -/
def read (z : Spine) (cs : List Char) : Spine :=
  (lexemes cs).foldl step z

@[simp] theorem read_nil (z : Spine) : z.read [] = z := by
  rw [read, lexemes_nil, List.foldl_nil]

theorem read_cons (z : Spine) (c : Char) (cs : List Char) :
    z.read (c :: cs) = (z.step (lexeme c cs).1).read (lexeme c cs).2 := by
  rw [read, lexemes_cons, List.foldl_cons, read]

/-- A blank has no effect, also where it begins a run. -/
theorem read_blank (z : Spine) {c : Char} (hc : isBlank c = true) (cs : List Char) :
    z.read (c :: cs) = z.read cs := by
  rw [read, ← foldl_step_withoutBlanks, withoutBlanks_lexemes_cons hc, foldl_step_withoutBlanks,
    read]

/-- A text may be read up to a place where no word goes on, and then from there. -/
theorem read_append (z : Spine) {cs ds : List Char}
    (h : ∀ t ∈ (lexemes cs).getLast?, t.isWordRun = true →
      ∀ d ∈ ds.head?, isWordChar d = false) :
    z.read (cs ++ ds) = (z.read cs).read ds := by
  rw [read, ← foldl_step_withoutBlanks, withoutBlanks_lexemes_append h, List.foldl_append,
    foldl_step_withoutBlanks, foldl_step_withoutBlanks, read, read]

/-- A blank behind a text parts it from what follows. -/
theorem read_append_blank (z : Spine) (cs : List Char) {c : Char} (hc : isBlank c = true)
    (rest : List Char) : z.read (cs ++ c :: rest) = (z.read cs).read rest := by
  have hcut : ∀ t ∈ (lexemes cs).getLast?, t.isWordRun = true →
      ∀ d ∈ (c :: rest).head?, isWordChar d = false := by
    intro t _ _ d hd
    cases hd
    exact isWordChar_of_isBlank hc
  rw [read_append _ hcut, read_blank _ hc]

/-- A mark is a token by itself. -/
theorem read_mark (z : Spine) {c : Char} (hc : isMark c = true) (cs : List Char) :
    z.read (c :: cs) = (z.step (.ofMark c)).read cs := by
  rw [read_cons, lexeme_of_isMark hc]

/-- A word ends where no word character follows. -/
theorem read_word (z : Spine) {c : Char} (hletter : isLetter c = true) {cs : List Char}
    (hcs : ∀ d ∈ cs, isWordChar d = true) {rest : List Char}
    (hrest : rest.takeWhile isWordChar = []) :
    z.read (c :: cs ++ rest) = (z.step (.ofWord (String.ofList (c :: cs)))).read rest := by
  have hcut : ∀ t ∈ (lexemes (c :: cs)).getLast?, ∀ d ∈ rest.head?, t.goesOn d = false := by
    intro t ht d hd
    rw [lexemes_of_isLetter hletter hcs, List.getLast?_singleton, Option.mem_some_iff] at ht
    rw [← ht, Token.goesOn_ofWord]
    cases rest with
    | nil => cases hd
    | cons e rest =>
      cases hd
      cases h : isWordChar d with
      | false => rfl
      | true => rw [List.takeWhile_cons_of_pos h] at hrest; cases hrest
  rw [read, lexemes_append hcut, lexemes_of_isLetter hletter hcs]
  rfl

/-- Reading a text that is cut at a mark. -/
theorem read_append_mark (z : Spine) (cs : List Char) {c : Char} (hc : isMark c = true)
    (rest : List Char) :
    z.read (cs ++ c :: rest) = ((z.read cs).step (.ofMark c)).read rest := by
  rw [read, lexemes_append_mark cs hc, List.foldl_append, List.foldl_cons]
  rfl

end Spine

/-- The tree of a string is that of the spine that its text makes. -/
theorem parse_eq_read (s : String) : parse s = (({} : Spine).read s.toList).tree := by
  rw [parse_eq_tree, tokenize_eq, Spine.read]

/-- The draft of a text is that of the spine that it makes. -/
theorem Draft.ofTokens_lexemes (cs : List Char) :
    ofTokens (lexemes cs) = (({} : Spine).read cs).draft := by
  rw [ofTokens_eq, Spine.read]

theorem Draft.ofTokens_tokenize (s : String) :
    ofTokens (tokenize s) = (({} : Spine).read s.toList).draft := by
  rw [tokenize_eq, ofTokens_lexemes]

end BooleanSearch
