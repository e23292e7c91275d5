import BooleanSearch.Proofs.Events
import BooleanSearch.Proofs.Sources
import Mathlib.Data.Nat.Find

/-!
# Reading through pauses

A source may say that the input is at its end and go on when it is asked again, and it may fail.
An end that comes in the middle of a word or of a run of blanks only cuts the run short there, as a
space would.  Any other end is the end of what is read, and so is a failure.  Nothing is taken from
the source beyond that point, as no character is in hand when it is reached.

## Main definitions

* `Scanner.Gives` — what a scanner reads, and as what it goes on then.
* `Feed.endLexeme` — how a token ends at an end or a failure.

## Main results

* `Scanner.Gives.tokens_piece` — scanning characters up to an end or a failure.
* `Scanner.Gives.tokens_eq` — scanning up to the first answer at which reading stops.
* `readSource_events` — **what a source reads as, and where it stands then.**
-/

namespace BooleanSearch

variable {σ ε : Type}

/-- Ends a token, given what comes after it. -/
def Feed.endLexeme (t : Token) (feed : Feed ε) : Except ε Token × Feed ε :=
  if t.isRun then endRun t feed else (.ok t, feed)

/-! ### What a scanner reads -/

namespace Scanner

variable [CharSource σ ε]

/-- A scanner reads `feed` character by character, and goes on as `s'` then. -/
def Gives : Scanner σ → Feed ε → Scanner σ → Prop
  | s, [], s' => s = s'
  | s, event :: feed, s' => s.read.1 = event.answer ∧ Gives s.read.2 feed s'

theorem gives_events (n : Nat) : ∀ source : σ,
    Gives { source } (CharSource.events source n) { source := CharSource.after source n } := by
  induction n with
  | zero =>
    intro source
    rfl
  | succ n ih =>
    intro source
    rw [CharSource.events_succ]
    exact ⟨(Event.answer_ofAnswer _).symm, ih (CharSource.next source).2⟩

theorem tokens_eq_map_nil (s : Scanner σ) : s.tokens = (s.tokens.1.map ([] ++ ·), s.tokens.2) := by
  rcases s.tokens with ⟨e | ts, s'⟩ <;> rfl

namespace Gives

variable {s s' : Scanner σ} {event : Event ε} {feed rest : Feed ε} {cs : List Char}

theorem read_eq (h : s.Gives (event :: feed) s') : s.read = (event.answer, s.read.2) :=
  Prod.ext h.1 rfl

/-- A character that is put back is read again. -/
theorem putBack (h : s.Gives feed s') (hpending : s.pending = none) (c : Char) :
    Gives { s with pending := some c } (.char c :: feed) s' := by
  obtain ⟨source, pending⟩ := s
  obtain rfl : pending = none := hpending
  exact ⟨rfl, h⟩

/-- The rest of a run. -/
theorem readRun (member : Char → Bool) (make : String → Token) (hevent : event.isChar = false)
    (h : s.Gives (cs.map .char ++ event :: rest) s') (text : String) :
    (s.readRun member text).1.map make
        = (Feed.endRun (make (text ++ String.ofList (cs.takeWhile member)))
            ((cs.dropWhile member).map .char ++ event :: rest)).1 ∧
      (s.readRun member text).2.Gives
        (Feed.endRun (make (text ++ String.ofList (cs.takeWhile member)))
          ((cs.dropWhile member).map .char ++ event :: rest)).2 s' := by
  induction cs generalizing s text with
  | nil =>
    have hread := h.read_eq
    cases event with
    | char c => cases hevent
    | stop =>
      rw [readRun_of_end hread]
      simp only [List.takeWhile_nil, String.ofList_nil, String.append_empty]
      exact ⟨rfl, h.2⟩
    | fail e =>
      rw [readRun_of_error hread]
      exact ⟨rfl, h.2⟩
  | cons c cs ih =>
    have hread : s.read = (.ok (some c), s.read.2) := h.read_eq
    rw [readRun_of_char hread]
    cases hc : member c with
    | true =>
      have hrest := ih h.2 (text.push c)
      rw [if_pos rfl, List.takeWhile_cons_of_pos hc, List.dropWhile_cons_of_pos hc,
        String.ofList_cons, ← String.append_assoc, String.append_singleton]
      exact hrest
    | false =>
      rw [if_neg Bool.false_ne_true, List.takeWhile_cons_of_neg (by simp [hc]),
        List.dropWhile_cons_of_neg (by simp [hc])]
      simp only [String.ofList_nil, String.append_empty]
      exact ⟨rfl, h.2.putBack s.pending_read c⟩

/-- A token that begins with a character.  What stops a run is an end, a failure or a character
that stays ahead. -/
theorem scan {c : Char} (hevent : event.isChar = false)
    (h : s.Gives ((c :: cs).map .char ++ event :: rest) s') :
    s.scan.1 = (Feed.endLexeme (lexeme c cs).1 ((lexeme c cs).2.map .char ++ event :: rest)).1 ∧
      s.scan.2.Gives
        (Feed.endLexeme (lexeme c cs).1 ((lexeme c cs).2.map .char ++ event :: rest)).2 s' := by
  have hread : s.read = (.ok (some c), s.read.2) := h.read_eq
  rw [Scanner.scan, hread]
  unfold lexeme
  by_cases hblank : isBlank c = true
  · have hrun := h.2.readRun isBlank .whitespace hevent (String.singleton c)
    simp only [if_pos hblank, String.ofList_cons]
    exact hrun
  by_cases hletter : isLetter c = true
  · have hrun := h.2.readRun isWordChar .ofWord hevent (String.singleton c)
    simp only [if_neg hblank, if_pos hletter, String.ofList_cons, Feed.endLexeme,
      Token.isRun, Token.isWordRun_ofWord, Bool.or_true, if_true]
    exact hrun
  · simp only [if_neg hblank, if_neg hletter, Feed.endLexeme, Token.isRun,
      Token.isWhitespace_ofMark, Token.isWordRun_ofMark, Bool.or_false, Bool.false_eq_true,
      if_false]
    exact ⟨trivial, h.2⟩

/-- Scanning characters up to an end or a failure gives their tokens, but for a run that reaches
it. -/
theorem tokens_piece (hevent : event.isChar = false)
    (h : s.Gives (cs.map .char ++ event :: rest) s') :
    ∃ (ts : List Token) (left : List Char) (s₁ : Scanner σ),
      lexemes cs = ts ++ lexemes left ∧ s₁.Gives (left.map .char ++ event :: rest) s' ∧
        s.tokens = (s₁.tokens.1.map (ts ++ ·), s₁.tokens.2) ∧
          ((left = [] ∧ ¬EndsInRun (String.ofList cs)) ∨
            (∃ c ds, left = c :: ds ∧ (lexeme c ds).2 = [] ∧ (lexeme c ds).1.isRun = true ∧
              EndsInRun (String.ofList cs))) := by
  fun_induction lexemes cs generalizing s with
  | case1 =>
    exact ⟨[], [], s, lexemes_nil.symm, h, s.tokens_eq_map_nil,
      Or.inl ⟨rfl, not_endsInRun_nil⟩⟩
  | case2 c cs ih =>
    by_cases hlast : (lexeme c cs).2 = [] ∧ (lexeme c cs).1.isRun = true
    · obtain ⟨hrest, hrun⟩ := hlast
      exact ⟨[], c :: cs, s, (lexemes_cons c cs).symm, h, s.tokens_eq_map_nil,
        Or.inr ⟨c, cs, rfl, hrest, hrun, endsInRun_run hrest hrun⟩⟩
    · have hend : Feed.endLexeme (lexeme c cs).1 ((lexeme c cs).2.map .char ++ event :: rest)
          = (.ok (lexeme c cs).1, (lexeme c cs).2.map .char ++ event :: rest) := by
        unfold Feed.endLexeme
        split
        · next hrun =>
          cases hrest : (lexeme c cs).2 with
          | nil => exact absurd ⟨hrest, hrun⟩ hlast
          | cons d ds => rfl
        · rfl
      obtain ⟨hscan, hgives⟩ := h.scan hevent
      rw [hend] at hscan hgives
      obtain ⟨ts, left, s₁, hts, hs₁, htokens, hends⟩ := ih hgives
      refine ⟨(lexeme c cs).1 :: ts, left, s₁, by rw [hts]; rfl, hs₁, ?_, ?_⟩
      · rw [tokens_of_token (Prod.ext hscan rfl) (lexeme_ne_endOfInput c cs), htokens]
        cases s₁.tokens.1 <;> rfl
      · rw [endsInRun_cons hlast]
        exact hends

/-- A failure behind some characters is what the tokens come to. -/
theorem tokens_fail {e : ε} (h : s.Gives (cs.map .char ++ .fail e :: rest) s') :
    s.tokens.1 = .error e ∧ s.tokens.2.Gives rest s' := by
  obtain ⟨ts, left, s₁, -, hs₁, htokens, hends⟩ := h.tokens_piece rfl
  have hfail : s₁.scan.1 = .error e ∧ s₁.scan.2.Gives rest s' := by
    rcases hends with ⟨rfl, -⟩ | ⟨c, ds, rfl, hrest, hrun, -⟩
    · have hread : s₁.read = (.error e, s₁.read.2) := hs₁.read_eq
      rw [Scanner.scan, hread]
      exact ⟨rfl, hs₁.2⟩
    · have hscan := hs₁.scan rfl
      rw [hrest, Feed.endLexeme, if_pos hrun] at hscan
      exact hscan
  rw [htokens, tokens_of_error (Prod.ext hfail.1 rfl)]
  exact ⟨rfl, hfail.2⟩

/-- An end behind characters that do not end in a run is the end of the tokens. -/
theorem tokens_stop_of_not_endsInRun (hends : ¬EndsInRun (String.ofList cs))
    (h : s.Gives (cs.map .char ++ .stop :: rest) s') :
    s.tokens.1 = .ok (lexemes cs) ∧ s.tokens.2.Gives rest s' := by
  obtain ⟨ts, left, s₁, hts, hs₁, htokens, hleft⟩ := h.tokens_piece rfl
  rcases hleft with ⟨rfl, -⟩ | ⟨c, ds, -, -, -, hrun⟩
  · have hread : s₁.read = (.ok none, s₁.read.2) := hs₁.read_eq
    have hscan : s₁.scan = (.ok .endOfInput, s₁.read.2) := by
      rw [Scanner.scan, hread]
    rw [lexemes_nil, List.append_nil] at hts
    rw [htokens, tokens_of_end hscan, hts]
    refine ⟨?_, hs₁.2⟩
    simp [Except.map]
  · exact absurd hrun hends

/-- An end behind characters that end in a run only ends the run. -/
theorem tokens_stop_of_endsInRun (hends : EndsInRun (String.ofList cs))
    (h : s.Gives (cs.map .char ++ .stop :: rest) s') :
    ∃ s₁ : Scanner σ, s₁.Gives rest s' ∧
      s.tokens = (s₁.tokens.1.map (lexemes cs ++ ·), s₁.tokens.2) := by
  obtain ⟨ts, left, s₁, hts, hs₁, htokens, hleft⟩ := h.tokens_piece rfl
  rcases hleft with ⟨-, hrun⟩ | ⟨c, ds, rfl, hrest, hrun, -⟩
  · exact absurd hends hrun
  · obtain ⟨hscan, hgives⟩ := hs₁.scan rfl
    rw [hrest, Feed.endLexeme, if_pos hrun] at hscan hgives
    refine ⟨s₁.scan.2, hgives, ?_⟩
    rw [htokens, tokens_of_token (Prod.ext hscan rfl) (lexeme_ne_endOfInput c ds), hts,
      lexemes_cons, hrest, lexemes_nil]
    cases s₁.scan.2.tokens.1 <;> simp [Except.map]

/-- **Scanning up to the first event at which reading stops.**  The tokens are those of the text
before it, but for blanks. -/
theorem tokens_eq {before : Feed ε} (hstop : before.StopsAt event) (hpasses : before.Passes)
    (h : s.Gives (before ++ [event]) s') :
    s.tokens.1.map withoutBlanks = event.outcome (withoutBlanks (lexemes before.text.toList)) ∧
      s.tokens.2 = s' := by
  induction hlen : before.length using Nat.strongRecOn generalizing s before with
  | ind len ih =>
    subst hlen
    rcases before.eq_map_char_or with ⟨cs, rfl⟩ | ⟨cs, e, rest, rfl, he⟩
    · rw [Feed.toList_text_map_char]
      cases event with
      | char c => exact hstop.elim
      | stop =>
        rw [Feed.StopsAt, Feed.lastPiece_map_char] at hstop
        obtain ⟨htokens, hgives⟩ := h.tokens_stop_of_not_endsInRun hstop
        rw [htokens]
        exact ⟨rfl, hgives⟩
      | fail e =>
        obtain ⟨htokens, hgives⟩ := h.tokens_fail
        rw [htokens]
        exact ⟨rfl, hgives⟩
    · have hcs := hpasses (cs.map .char) e rest rfl
      cases e with
      | char c => cases he
      | fail e => exact absurd trivial hcs
      | stop =>
        -- the end interrupts a run, and reading goes on behind it
        rw [Feed.StopsAt, Feed.lastPiece_map_char, Classical.not_not] at hcs
        rw [List.append_assoc, List.cons_append] at h
        rw [Feed.stopsAt_append_stop] at hstop
        obtain ⟨s₁, hs₁, htokens⟩ := h.tokens_stop_of_endsInRun hcs
        have hlt : rest.length < (cs.map Event.char ++ .stop :: rest : Feed ε).length := by
          rw [List.length_append, List.length_cons]
          omega
        obtain ⟨hrest, hend⟩ := ih _ hlt hstop hpasses.of_append_stop hs₁ rfl
        rw [htokens, Feed.withoutBlanks_text_append_stop]
        refine ⟨?_, hend⟩
        calc (s₁.tokens.1.map (lexemes cs ++ ·)).map withoutBlanks
            = (s₁.tokens.1.map withoutBlanks).map (withoutBlanks (lexemes cs) ++ ·) := by
              cases s₁.tokens.1 <;> simp [Except.map]
          _ = event.outcome (withoutBlanks (lexemes cs)
                ++ withoutBlanks (lexemes rest.text.toList)) := by
              rw [hrest, Event.map_outcome]

end Gives

end Scanner

/-! ### What a source reads as -/

/-- Blanks make no difference to what tokens are read as. -/
theorem Draft.reading_withoutBlanks (ts : List Token) :
    ∀ d : Draft, d.reading (withoutBlanks ts) = d.reading ts := by
  induction ts with
  | nil =>
    intro d
    rfl
  | cons t ts ih =>
    intro d
    cases ht : t.isWhitespace with
    | false => rw [withoutBlanks_cons ht, reading_cons, reading_cons, ih]
    | true =>
      cases t with
      | whitespace text =>
        have hnone : d.notice? (.whitespace text) = none := rfl
        rw [withoutBlanks_whitespace_cons, ih, reading_cons, step_whitespace, hnone]
        simp
      | _ => cases ht

/-- A source reads as the text up to the first event at which reading stops, and nothing is taken
from it behind that event. -/
theorem readSource_of_stopsAt [CharSource σ ε] {source : σ} {n : Nat}
    (hstop : (CharSource.events source n).StopsAt (CharSource.event source n))
    (hfirst : ∀ m < n, ¬(CharSource.events source m).StopsAt (CharSource.event source m)) :
    readSource source
      = ((CharSource.event source n).outcome (readString (CharSource.events source n).text),
          CharSource.after source (n + 1)) := by
  have hgives := Scanner.gives_events (n + 1) source
  rw [CharSource.events_concat] at hgives
  obtain ⟨htokens, hend⟩ := hgives.tokens_eq hstop (CharSource.passes_events hfirst)
  have hreading : ∀ tokens : Except ε (List Token),
      tokens.map (Draft.reading {}) = (tokens.map withoutBlanks).map (Draft.reading {}) := by
    intro tokens
    cases tokens with
    | error e => rfl
    | ok ts => exact congrArg Except.ok (Draft.reading_withoutBlanks ts {}).symm
  rw [readSource_eq, hreading, htokens, hend, Event.map_outcome, Draft.reading_withoutBlanks,
    readString_eq, tokenize_eq]

/-- **What a source reads as, and where it stands then.**  Let `n` be the number of answers before
the first that is a failure, or an end of the input that does not come right behind a character of a
word or of a run of blanks.  There is such an answer, whatever the source, as its supply is finite,
which `CharSource` asks for.  It is the last that the source is asked for.  If it is a failure, so
is the reading; if not, the tree is that of the characters before it, where each end among them
counts as a space. -/
theorem readSource_events [CharSource σ ε] (source : σ) :
    ∃ n, (CharSource.events source n).StopsAt (CharSource.event source n) ∧
      (∀ m < n, ¬(CharSource.events source m).StopsAt (CharSource.event source m)) ∧
      (readSource source).2 = CharSource.after source (n + 1) ∧
      (readSource source).1.map Reading.query
        = (CharSource.event source n).outcome (parse (CharSource.events source n).text) := by
  classical
  have hexists := CharSource.exists_stopsAt source
  have hstop := Nat.find_spec hexists
  have hfirst : ∀ m < Nat.find hexists,
      ¬(CharSource.events source m).StopsAt (CharSource.event source m) := by
    intro m hm
    exact Nat.find_min hexists hm
  refine ⟨Nat.find hexists, hstop, hfirst, ?_, ?_⟩
  · rw [readSource_of_stopsAt hstop hfirst]
  · rw [readSource_of_stopsAt hstop hfirst, Event.map_outcome]
    rfl

end BooleanSearch
