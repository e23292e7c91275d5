import BooleanSearch.Token.Scanner

/-!
# The token buffer

A scanner whose last token can be put back.  Only the token that was scanned last can be, and only
once: while a token waits to be scanned again, putting back does nothing.

## Main definitions

* `TokenBuffer` — a scanner, its last token, and the token put back.
* `TokenBuffer.scan`, `TokenBuffer.unscan` — the next token, and one step back.
* `TokenBuffer.scanSignificant` — the next token that is not a run of blanks.
-/

namespace BooleanSearch

/-- A scanner whose last token can be put back. -/
structure TokenBuffer (σ : Type) where
  /-- Where the tokens come from. -/
  scanner : Scanner σ
  /-- The token that was scanned last, unless it was put back. -/
  last : Option Token := none
  /-- The token that was put back. -/
  pending : Option Token := none
  deriving Repr

namespace TokenBuffer

variable {σ ε : Type} [CharSource σ ε]

/-- A buffer over a source that nothing has been taken from. -/
def ofSource (source : σ) : TokenBuffer σ where
  scanner := { source }

/-- A bound on the number of tokens that are still to come. -/
def remaining (b : TokenBuffer σ) : Nat :=
  b.scanner.remaining + b.pending.toList.length

/-- The next token: the one put back, or else the next one of the scanner. -/
def scan (b : TokenBuffer σ) : Except ε Token × TokenBuffer σ :=
  match b.pending with
  | some t => (.ok t, { b with last := some t, pending := none })
  | none =>
    match b.scanner.scan with
    | (.ok t, scanner) => (.ok t, { b with scanner, last := some t })
    | (.error e, scanner) => (.error e, { b with scanner })

/-- Puts the last token back, if it can be. -/
def unscan (b : TokenBuffer σ) : TokenBuffer σ :=
  match b.pending with
  | some _ => b
  | none => { b with last := none, pending := b.last }

/-- Every token but the end of the input is taken from the supply. -/
theorem remaining_scan_lt {b b' : TokenBuffer σ} {t : Token} (h : b.scan = (.ok t, b'))
    (ht : t ≠ .endOfInput) : b'.remaining < b.remaining := by
  obtain ⟨scanner, last, pending⟩ := b
  cases pending with
  | some t' =>
    cases h
    exact Nat.lt_succ_self _
  | none =>
    rcases hs : scanner.scan with ⟨e | t', scanner'⟩
    · simp only [scan, hs] at h
      cases h
    · simp only [scan, hs] at h
      cases h
      exact Scanner.remaining_scan_lt hs ht

/-- The next token that is not a run of blanks. -/
def scanSignificant (b : TokenBuffer σ) : Except ε Token × TokenBuffer σ :=
  match _h : b.scan with
  | (.ok (.whitespace _), b') => scanSignificant b'
  | answer => answer
termination_by b.remaining
decreasing_by exact remaining_scan_lt _h (by simp)

theorem remaining_scanSignificant_lt {b b' : TokenBuffer σ} {t : Token}
    (h : b.scanSignificant = (.ok t, b')) (ht : t ≠ .endOfInput) :
    b'.remaining < b.remaining := by
  fun_induction scanSignificant b with
  | case1 b text b₁ hs ih =>
    exact Nat.lt_trans (ih h) (remaining_scan_lt hs (by simp))
  | case2 b hne => exact remaining_scan_lt h ht

end TokenBuffer

end BooleanSearch
