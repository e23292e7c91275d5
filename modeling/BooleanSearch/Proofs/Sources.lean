import BooleanSearch.Proofs.Decoding
import BooleanSearch.Proofs.Lexemes

/-!
# Reading through any source

What a source reads as depends on its answers and on nothing else: a map between two kinds of
sources that keeps the answers keeps what they read as.  The bytes of a reader may so be replaced
by the answers that its events are decoded to.

## Main definitions

* `KeepsAnswers` — the maps between sources that keep the answers.
* `Scanner.map` — a scanner over the image of a source.

## Main results

* `KeepsAnswers.scan`, `KeepsAnswers.tokens` — the tokens are kept.
* `KeepsAnswers.readSource` — what a source reads as is kept.
* `ByteSource.keepsAnswers_decode` — the answers of a byte source are those that its events are
  decoded to.
* `Scanner.tokens_fail` — a failure ahead is what the tokens come to.
-/

namespace BooleanSearch

variable {σ τ ε : Type} [CharSource σ ε] [CharSource τ ε]

/-- A map between sources keeps the answers if the image of a source answers what the source
answers, and goes on as the image of what the source goes on as. -/
def KeepsAnswers (f : σ → τ) : Prop :=
  ∀ s : σ, CharSource.next (f s) = ((CharSource.next s).1, f (CharSource.next s).2)

/-- A scanner over the image of a source. -/
def Scanner.map (f : σ → τ) (s : Scanner σ) : Scanner τ where
  source := f s.source
  pending := s.pending

namespace Scanner

variable {member : Char → Bool} {s s' : Scanner σ}

theorem readRun_of_error {e : ε} (h : s.read = (.error e, s')) (text : String) :
    s.readRun member text = (.error e, s') := by
  rw [readRun]
  split
  · next h' => rw [h] at h'; cases h'; rfl
  · next h' => rw [h] at h'; cases h'
  · next h' => rw [h] at h'; cases h'

theorem readRun_of_end (h : s.read = (.ok none, s')) (text : String) :
    s.readRun member text = (.ok text, s') := by
  rw [readRun]
  split
  · next h' => rw [h] at h'; cases h'
  · next h' => rw [h] at h'; cases h'; rfl
  · next h' => rw [h] at h'; cases h'

theorem readRun_of_char {c : Char} (h : s.read = (.ok (some c), s')) (text : String) :
    s.readRun member text
      = if member c then s'.readRun member (text.push c)
        else (.ok text, { s' with pending := some c }) := by
  conv => lhs; rw [readRun]
  split
  · next h' => rw [h] at h'; cases h'
  · next h' => rw [h] at h'; cases h'
  · next h' => rw [h] at h'; cases h'; rfl

end Scanner

namespace KeepsAnswers

variable {f : σ → τ} (hf : KeepsAnswers f)
include hf

theorem read (s : Scanner σ) : (s.map f).read = (s.read.1, s.read.2.map f) := by
  obtain ⟨source, pending⟩ := s
  cases pending with
  | some c => rfl
  | none =>
    have h := hf source
    simp only [Scanner.read, Scanner.map, h]

theorem readRun (member : Char → Bool) (text : String) (s : Scanner σ) :
    (s.map f).readRun member text
      = ((s.readRun member text).1, (s.readRun member text).2.map f) := by
  fun_induction Scanner.readRun member text s with
  | case1 text s e s' h =>
    have h' : (s.map f).read = (.error e, s'.map f) := by rw [hf.read, h]
    rw [Scanner.readRun_of_error h']
  | case2 text s s' h =>
    have h' : (s.map f).read = (.ok none, s'.map f) := by rw [hf.read, h]
    rw [Scanner.readRun_of_end h']
  | case3 text s c s' h hc ih =>
    have h' : (s.map f).read = (.ok (some c), s'.map f) := by rw [hf.read, h]
    rw [Scanner.readRun_of_char h', if_pos hc, ih]
  | case4 text s c s' h hc =>
    have h' : (s.map f).read = (.ok (some c), s'.map f) := by rw [hf.read, h]
    -- the character that stops the run is kept on both sides
    rw [Scanner.readRun_of_char h', if_neg hc]
    rfl

theorem scan (s : Scanner σ) : (s.map f).scan = (s.scan.1, s.scan.2.map f) := by
  have hread := hf.read s
  rcases h : s.read with ⟨e | _ | c, s'⟩ <;> rw [h] at hread
  · simp only [Scanner.scan, hread, h]
  · simp only [Scanner.scan, hread, h]
  · simp only [Scanner.scan, hread, h, hf.readRun]
    split
    · rfl
    split <;> rfl

/-- The tokens of a source are those of its image. -/
theorem tokens (s : Scanner σ) : (s.map f).tokens = (s.tokens.1, s.tokens.2.map f) := by
  fun_induction Scanner.tokens s with
  | case1 s e s' h =>
    have h' : (s.map f).scan = (.error e, s'.map f) := by rw [hf.scan, h]
    rw [Scanner.tokens_of_error h']
  | case2 s s' h =>
    have h' : (s.map f).scan = (.ok .endOfInput, s'.map f) := by rw [hf.scan, h]
    rw [Scanner.tokens_of_end h']
  | case3 s t s' h ht rest s'' hrest ih =>
    have h' : (s.map f).scan = (.ok t, s'.map f) := by rw [hf.scan, h]
    rw [Scanner.tokens_of_token h' ht, ih, hrest]

/-- A source and its image read as the same. -/
theorem readSource (source : σ) :
    BooleanSearch.readSource (f source)
      = ((BooleanSearch.readSource source).1, f (BooleanSearch.readSource source).2) := by
  have h : Scanner.tokens { source := f source }
      = ((Scanner.tokens { source }).1, (Scanner.tokens { source }).2.map f) :=
    hf.tokens { source }
  rw [readSource_eq, readSource_eq, h]
  rfl

end KeepsAnswers

/-- A byte source answers what the events ahead of it are decoded to. -/
theorem ByteSource.keepsAnswers_decode :
    KeepsAnswers fun source : ByteSource => source.events.decode := by
  intro source
  have hnext : (source.next.1, source.next.2.events) = source.events.next := source.next_eq
  change Feed.next source.events.decode = (source.next.1, source.next.2.events.decode)
  rw [ByteFeed.next_decode, ← hnext]

/-! ### A failure ahead -/

namespace Feed

/-- A run in front of a failure is lost if it reaches the failure. -/
theorem endRun_fail (t : Token) (left : List Char) (e : ε) (rest : Feed ε) :
    endRun t (left.map .char ++ .fail e :: rest)
      = if left = [] then (.error e, rest) else (.ok t, left.map .char ++ .fail e :: rest) := by
  cases left <;> rfl

/-- The next token of characters in front of a failure is the failure, or else it leaves fewer
characters in front of it. -/
theorem scan_fail (cs : List Char) (e : ε) (rest : Feed ε) :
    scan (cs.map .char ++ .fail e :: rest) = (.error e, rest) ∨
      ∃ (t : Token) (left : List Char), t ≠ .endOfInput ∧ left.length < cs.length ∧
        scan (cs.map .char ++ .fail e :: rest) = (.ok t, left.map .char ++ .fail e :: rest) := by
  cases cs with
  | nil => exact Or.inl rfl
  | cons c cs =>
    -- a run goes on up to the failure, or it leaves the character that stops it
    have hrun (t : Token) (ht : t ≠ .endOfInput) (member : Char → Bool) :
        endRun t ((cs.dropWhile member).map .char ++ .fail e :: rest) = (.error e, rest) ∨
          ∃ (t' : Token) (left : List Char), t' ≠ .endOfInput ∧ left.length < (c :: cs).length ∧
            endRun t ((cs.dropWhile member).map .char ++ .fail e :: rest)
              = (.ok t', left.map .char ++ .fail e :: rest) := by
      rw [endRun_fail]
      split
      · exact Or.inl rfl
      · refine Or.inr ⟨t, cs.dropWhile member, ht, ?_, rfl⟩
        exact Nat.lt_succ_of_le (List.dropWhile_suffix _).length_le
    rw [List.map_cons, List.cons_append, scan]
    split
    · rw [splitRun_append rfl]
      exact hrun _ (by simp) isBlank
    split
    · rw [splitRun_append rfl]
      exact hrun _ (Token.ofWord_ne_endOfInput _) isWordChar
    · exact Or.inr ⟨_, cs, Token.ofMark_ne_endOfInput c, Nat.lt_succ_self _, rfl⟩

end Feed

/-- A failure ahead is what the tokens come to. -/
theorem Scanner.tokens_fail {s : Scanner (Feed ε)} {cs : List Char} {e : ε} {rest : Feed ε}
    (h : s.ahead = cs.map .char ++ .fail e :: rest) : s.tokens.1 = .error e := by
  induction hlen : cs.length using Nat.strongRecOn generalizing s cs with
  | ind len ih =>
    subst hlen
    have hscan := s.scan_eq
    rw [h] at hscan
    -- every token takes away one character at least from those in front of the failure
    rcases Feed.scan_fail cs e rest with hfail | ⟨t, left, ht, hlt, htoken⟩
    · rw [hfail] at hscan
      obtain ⟨h₁, -⟩ := Prod.mk.inj hscan
      rw [Scanner.tokens_of_error (Prod.ext h₁ rfl)]
    · rw [htoken] at hscan
      obtain ⟨h₁, h₂⟩ := Prod.mk.inj hscan
      rw [Scanner.tokens_of_token (Prod.ext h₁ rfl) ht, ih left.length hlt h₂ rfl]
      rfl

end BooleanSearch
