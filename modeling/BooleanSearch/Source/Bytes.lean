import BooleanSearch.Reader
import BooleanSearch.Source.Basic
import BooleanSearch.Text.Utf8

/-!
# Characters of a byte reader

The source that decodes the bytes of a reader as UTF-8, one character per answer, and holds no
more of the input than one block and the few bytes that it looked ahead at.

A byte that starts no well-formed character is answered by U+FFFD, and only that byte is consumed:
the bytes after it that had been read as its continuation are put back and read again.

A failure of the reader is answered as it comes.  The bytes that had been taken for the character
under way are lost with it, and the next answer goes on behind them.

## Main definitions

* `ByteSource` — the reader, the rest of its last block, and the bytes put back.
* `ByteSource.nextByte` — the next byte.
* `ByteSource.takeTail` — the continuation bytes of a character.
* `ByteSource.next` — the next character.
-/

namespace BooleanSearch

/-- A source that decodes the bytes of a reader. -/
structure ByteSource where
  /-- The bytes that were put back and come first. -/
  pushback : List UInt8 := []
  /-- The rest of the last block. -/
  block : List UInt8 := []
  /-- The reader, which holds what comes after the block. -/
  reader : Reader
  deriving Repr

namespace ByteSource

/-- A source at the beginning of a reader. -/
def ofReader (reader : Reader) : ByteSource where
  reader := reader

/-- The number of bytes still to be decoded. -/
def remaining (s : ByteSource) : Nat :=
  s.pushback.length + s.block.length + s.reader.size

/-- The next byte, or `none` if the reader is at its end. -/
def nextByte (s : ByteSource) : Except ReadError (Option UInt8) × ByteSource :=
  match s.pushback with
  | b :: pushback => (.ok (some b), { s with pushback })
  | [] =>
    match s.block with
    | b :: block => (.ok (some b), { s with block })
    | [] =>
      match s.reader.fill with
      | (.ok [], reader) => (.ok none, { s with reader })
      | (.ok (b :: block), reader) => (.ok (some b), { s with block, reader })
      | (.error e, reader) => (.error e, { s with reader })

/-- A byte is taken from the supply, and any other answer leaves the supply as it is. -/
theorem remaining_nextByte (s : ByteSource) :
    match s.nextByte with
    | (.ok (some _), s') => s'.remaining + 1 = s.remaining
    | (_, s') => s'.remaining = s.remaining := by
  obtain ⟨pushback, block, reader⟩ := s
  cases pushback with
  | cons b pushback => simp only [nextByte, remaining, List.length_cons]; omega
  | nil =>
    cases block with
    | cons b block => simp only [nextByte, remaining, List.length_cons]; omega
    | nil =>
      have h := Reader.size_fill reader
      rcases hf : reader.fill with ⟨e | bytes, reader'⟩
      · rw [hf] at h
        simpa [nextByte, hf, remaining, Except.toOption] using h
      · rw [hf] at h
        cases bytes with
        | nil => simpa [nextByte, hf, remaining, Except.toOption] using h
        | cons b block =>
          simp only [Except.toOption, Option.getD_some, List.length_cons] at h
          simp only [nextByte, hf, remaining, List.length_nil]
          omega

/-- Up to `n` more bytes, fewer if the reader comes to an end before. -/
def takeTail : Nat → ByteSource → Except ReadError (List UInt8) × ByteSource
  | 0, s => (.ok [], s)
  | n + 1, s =>
    match s.nextByte with
    | (.error e, s) => (.error e, s)
    | (.ok none, s) => (.ok [], s)
    | (.ok (some b), s) =>
      match takeTail n s with
      | (.error e, s) => (.error e, s)
      | (.ok tail, s) => (.ok (b :: tail), s)

/-- The bytes taken are those by which the supply has shrunk. -/
theorem remaining_takeTail (n : Nat) (s : ByteSource) :
    match takeTail n s with
    | (.ok tail, s') => tail.length ≤ n ∧ s'.remaining + tail.length = s.remaining
    | (.error _, s') => s'.remaining ≤ s.remaining := by
  induction n generalizing s with
  | zero => simp [takeTail]
  | succ n ih =>
    have hb := remaining_nextByte s
    rcases hs : s.nextByte with ⟨e | _ | b, s₁⟩
    · rw [hs] at hb
      simp only [takeTail, hs]
      exact Nat.le_of_eq hb
    · rw [hs] at hb
      simp only [takeTail, hs, List.length_nil]
      exact ⟨Nat.zero_le _, hb⟩
    · rw [hs] at hb
      have ht := ih s₁
      rcases hs₁ : takeTail n s₁ with ⟨e | tail, s₂⟩
      · rw [hs₁] at ht
        simp only [takeTail, hs, hs₁] at hb ht ⊢
        omega
      · rw [hs₁] at ht
        simp only [takeTail, hs, hs₁, List.length_cons] at hb ht ⊢
        omega

/-- The character that stands for a byte that starts no well-formed character. -/
def replacement : Char := '\uFFFD'

/-- The next character. -/
def next (s : ByteSource) : Except ReadError (Option Char) × ByteSource :=
  match s.nextByte with
  | (.error e, s) => (.error e, s)
  | (.ok none, s) => (.ok none, s)
  | (.ok (some lead), s) =>
    match Utf8.tailLength? lead with
    | none => (.ok (some replacement), s)
    | some n =>
      match s.takeTail n with
      | (.error e, s) => (.error e, s)
      | (.ok tail, s) =>
        match Utf8.decode? lead tail with
        | some c => (.ok (some c), s)
        | none => (.ok (some replacement), { s with pushback := tail ++ s.pushback })

/-- No answer adds to the supply, and every character takes at least one byte from it. -/
theorem remaining_next (s : ByteSource) :
    match s.next with
    | (.ok (some _), s') => s'.remaining < s.remaining
    | (_, s') => s'.remaining ≤ s.remaining := by
  have hb := remaining_nextByte s
  rcases hs : s.nextByte with ⟨e | _ | lead, s₁⟩
  · rw [hs] at hb
    simp only [next, hs]
    exact Nat.le_of_eq hb
  · rw [hs] at hb
    simp only [next, hs]
    exact Nat.le_of_eq hb
  · rw [hs] at hb
    cases hl : Utf8.tailLength? lead with
    | none =>
      simp only [next, hs, hl] at hb ⊢
      omega
    | some n =>
      have ht := remaining_takeTail n s₁
      rcases hs₁ : s₁.takeTail n with ⟨e | tail, s₂⟩
      · rw [hs₁] at ht
        simp only [next, hs, hl, hs₁] at hb ht ⊢
        omega
      · rw [hs₁] at ht
        cases hd : Utf8.decode? lead tail with
        | some c =>
          simp only [next, hs, hl, hs₁, hd] at hb ht ⊢
          omega
        | none =>
          simp only [next, hs, hl, hs₁, hd, remaining, List.length_append] at hb ht ⊢
          omega

instance : CharSource ByteSource ReadError where
  next := next
  remaining := remaining
  remaining_next_le s := by
    have h := remaining_next s
    rcases hs : s.next with ⟨e | _ | c, s'⟩ <;> rw [hs] at h
    · exact h
    · exact h
    · exact Nat.le_of_lt h
  remaining_next_lt s c hc := by
    have h := remaining_next s
    rcases hs : s.next with ⟨e | _ | c', s'⟩ <;> rw [hs] at h hc
    · cases hc
    · cases hc
    · exact h

end ByteSource

end BooleanSearch
