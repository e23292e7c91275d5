import BooleanSearch.Source.Basic
import BooleanSearch.Token.Basic

/-!
# The scanner

The scanner takes a source apart into tokens, one per call.  A run goes on as long as the source
gives characters of its class.  The character that stops it is kept for the next token; an end of
the input that stops it is used up, and a failure loses the run.

## Main definitions

* `Scanner` — a source and the character kept from it.
* `Scanner.read` — the next character.
* `Scanner.readRun` — the rest of a run.
* `Scanner.scan` — the next token.
* `tokenize` — all tokens of a string.
-/

namespace BooleanSearch

/-- A source and at most one character that was taken from it too early. -/
structure Scanner (σ : Type) where
  /-- Where the characters come from. -/
  source : σ
  /-- The character that was taken too early. -/
  pending : Option Char := none
  deriving Repr

namespace Scanner

variable {σ ε : Type} [CharSource σ ε]

/-- A bound on the number of characters that are still to come. -/
def remaining (s : Scanner σ) : Nat :=
  CharSource.remaining s.source + s.pending.toList.length

/-- The next character, or `none` at the end of the input. -/
def read (s : Scanner σ) : Except ε (Option Char) × Scanner σ :=
  match s.pending with
  | some c => (.ok (some c), { s with pending := none })
  | none =>
    let (answer, source) := CharSource.next s.source
    (answer, { s with source })

/-- Nothing is kept after a character was read. -/
theorem pending_read (s : Scanner σ) : s.read.2.pending = none := by
  obtain ⟨source, pending⟩ := s
  cases pending <;> rfl

theorem remaining_read_le (s : Scanner σ) : s.read.2.remaining ≤ s.remaining := by
  obtain ⟨source, pending⟩ := s
  cases pending with
  | some c => exact Nat.le_succ _
  | none => exact CharSource.remaining_next_le source

theorem remaining_read_lt {s s' : Scanner σ} {c : Char}
    (h : s.read = (.ok (some c), s')) : s'.remaining < s.remaining := by
  obtain ⟨source, pending⟩ := s
  cases pending with
  | some c' =>
    cases h
    exact Nat.lt_succ_self _
  | none =>
    obtain rfl : { source := (CharSource.next source).2 } = s' := congrArg Prod.snd h
    exact CharSource.remaining_next_lt source c (congrArg Prod.fst h)

/-- Goes on with a run of which `text` has been read so far. -/
def readRun (member : Char → Bool) (text : String) (s : Scanner σ) :
    Except ε String × Scanner σ :=
  match _h : s.read with
  | (.error e, s') => (.error e, s')
  | (.ok none, s') => (.ok text, s')
  | (.ok (some c), s') =>
    if member c then readRun member (text.push c) s'
    else (.ok text, { s' with pending := some c })
termination_by s.remaining
decreasing_by exact remaining_read_lt _h

theorem remaining_readRun_le (member : Char → Bool) (text : String) (s : Scanner σ) :
    (s.readRun member text).2.remaining ≤ s.remaining := by
  fun_induction readRun member text s with
  | case1 text s e s' h => simpa [h] using remaining_read_le s
  | case2 text s s' h => simpa [h] using remaining_read_le s
  | case3 text s c s' h hc ih => exact Nat.le_trans ih (Nat.le_of_lt (remaining_read_lt h))
  | case4 text s c s' h hc =>
    -- the character that was read makes room for itself
    have hlt := remaining_read_lt h
    simp only [remaining, Option.toList_some, List.length_singleton] at hlt ⊢
    omega

/-- The next token.  At the end of the input it is `Token.endOfInput`. -/
def scan (s : Scanner σ) : Except ε Token × Scanner σ :=
  match s.read with
  | (.error e, s) => (.error e, s)
  | (.ok none, s) => (.ok .endOfInput, s)
  | (.ok (some c), s) =>
    if isBlank c then
      let (run, s) := s.readRun isBlank (String.singleton c)
      (run.map .whitespace, s)
    else if isLetter c then
      let (run, s) := s.readRun isWordChar (String.singleton c)
      (run.map .ofWord, s)
    else (.ok (.ofMark c), s)

/-- Every token but the end of the input takes at least one character. -/
theorem remaining_scan_lt {s s' : Scanner σ} {t : Token} (h : s.scan = (.ok t, s'))
    (ht : t ≠ .endOfInput) : s'.remaining < s.remaining := by
  rcases hr : s.read with ⟨e | _ | c, s₁⟩
  · simp only [scan, hr] at h
    cases h
  · simp only [scan, hr] at h
    cases h
    contradiction
  · have hs : s.scan.2.remaining ≤ s₁.remaining := by
      simp only [scan, hr]
      split
      · exact remaining_readRun_le _ _ _
      split
      · exact remaining_readRun_le _ _ _
      · exact Nat.le_refl _
    rw [h] at hs
    exact Nat.lt_of_le_of_lt hs (remaining_read_lt hr)

/-- The tokens up to the end of the input, after those in `tokens`. -/
def scanAll (tokens : Array Token) (s : Scanner σ) : Except ε (Array Token) × Scanner σ :=
  match _h : s.scan with
  | (.error e, s') => (.error e, s')
  | (.ok t, s') => if _ht : t = .endOfInput then (.ok tokens, s') else scanAll (tokens.push t) s'
termination_by s.remaining
decreasing_by exact remaining_scan_lt _h _ht

end Scanner

/-- The tokens of a string, without the end of the input. -/
def tokenize (s : String) : List Token :=
  let scanner : Scanner (Feed Empty) := { source := .ofString s }
  match (scanner.scanAll #[]).1 with
  | .ok tokens => tokens.toList
  | .error e => nomatch e

end BooleanSearch
