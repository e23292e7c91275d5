import BooleanSearch.Proofs.Utf8

/-!
# A byte reader without buffers

The events of a reader are its bytes, its momentary ends and its failures, in order.  Blocks, bytes
put back and the pieces that the bytes came in are not to be seen in them, and interruptions are
left out.  What a byte source answers depends on the events ahead of it and on nothing else.

## Main definitions

* `ByteEvent`, `ByteFeed` — events, and a list of them.
* `ByteFeed.next` — the character that comes next, and the events after it.
* `Reader.events`, `ByteSource.events` — the events ahead of a reader and of a source.

## Main results

* `ByteSource.nextByte_eq` — the next byte is that of the events ahead.
* `ByteSource.next_eq` — **the next character is that of the events ahead.**
-/

namespace BooleanSearch

/-- Something that happens when the bytes of a reader are asked for. -/
inductive ByteEvent
  /-- A byte. -/
  | byte (b : UInt8)
  /-- The end of the input, for the moment. -/
  | stop
  /-- A failure. -/
  | fail (e : ReadError)
  deriving DecidableEq, Repr

/-- The events ahead.  After the last of them the input is at its end for ever. -/
abbrev ByteFeed := List ByteEvent

namespace ByteFeed

/-- The next byte. -/
def nextByte : ByteFeed → Except ReadError (Option UInt8) × ByteFeed
  | [] => (.ok none, [])
  | .byte b :: rest => (.ok (some b), rest)
  | .stop :: rest => (.ok none, rest)
  | .fail e :: rest => (.error e, rest)

/-- Up to `n` bytes, fewer if an end is met before.  The end is used up. -/
def takeTail : Nat → ByteFeed → Except ReadError (List UInt8) × ByteFeed
  | 0, feed => (.ok [], feed)
  | _ + 1, [] => (.ok [], [])
  | n + 1, .byte b :: rest =>
    let (tail, rest) := takeTail n rest
    (tail.map (b :: ·), rest)
  | _ + 1, .stop :: rest => (.ok [], rest)
  | _ + 1, .fail e :: rest => (.error e, rest)

/-- The next character.  Where no encoding begins, one byte is used up. -/
def next : ByteFeed → Except ReadError (Option Char) × ByteFeed
  | [] => (.ok none, [])
  | .stop :: rest => (.ok none, rest)
  | .fail e :: rest => (.error e, rest)
  | .byte lead :: rest =>
    match Utf8.tailLength? lead with
    | none => (.ok (some ByteSource.replacement), rest)
    | some n =>
      match takeTail n rest with
      | (.error e, rest) => (.error e, rest)
      | (.ok tail, rest) =>
        match Utf8.decode? lead tail with
        | some c => (.ok (some c), rest)
        | none => (.ok (some ByteSource.replacement), tail.map .byte ++ rest)

theorem takeTail_succ (n : Nat) (feed : ByteFeed) :
    takeTail (n + 1) feed
      = match feed.nextByte with
        | (.error e, rest) => (.error e, rest)
        | (.ok none, rest) => (.ok [], rest)
        | (.ok (some b), rest) => ((takeTail n rest).1.map (b :: ·), (takeTail n rest).2) := by
  rcases feed with _ | ⟨_ | _ | _, rest⟩ <;> rfl

theorem next_eq_of_nextByte (feed : ByteFeed) :
    feed.next
      = match feed.nextByte with
        | (.error e, rest) => (.error e, rest)
        | (.ok none, rest) => (.ok none, rest)
        | (.ok (some lead), rest) => next (.byte lead :: rest) := by
  rcases feed with _ | ⟨_ | _ | _, rest⟩ <;> rfl

end ByteFeed

/-! ### The events of a reader -/

namespace Reader

/-- The events ahead of a reader. -/
def events : Reader → ByteFeed
  | [] => []
  | .data [] :: rest => .stop :: events rest
  | .data bytes :: rest => bytes.map .byte ++ events rest
  | .fail e :: rest => if e.kind = .interrupted then events rest else .fail e :: events rest

theorem events_data {bytes : List UInt8} (h : bytes ≠ []) (rest : Reader) :
    events (.data bytes :: rest) = bytes.map .byte ++ events rest := by
  obtain ⟨b, bs, rfl⟩ := List.exists_cons_of_ne_nil h
  rfl

/-- What is left of a piece comes before what follows it. -/
theorem events_left (left : List UInt8) (rest : Reader) :
    events (if left.isEmpty then rest else .data left :: rest)
      = left.map .byte ++ events rest := by
  cases left with
  | nil => rfl
  | cons b bs => exact events_data (List.cons_ne_nil b bs) rest

/-- A block holds the bytes that are ahead. -/
theorem fill_eq (reader : Reader) :
    (match reader.fill with
      | (.ok [], reader') => (.ok none, reader'.events)
      | (.ok (b :: block), reader') => (.ok (some b), block.map .byte ++ reader'.events)
      | (.error e, reader') => (.error e, reader'.events))
      = reader.events.nextByte := by
  fun_induction fill reader with
  | case1 e rest h ih => rw [ih, events, if_pos h]
  | case2 e rest h => rw [events, if_neg h, ByteFeed.nextByte]
  | case3 reader hfail =>
    cases reader with
    | nil => rfl
    | cons chunk rest =>
      cases chunk with
      | fail e => exact absurd rfl (hfail e rest)
      | data bytes =>
        cases bytes with
        | nil => rfl
        | cons b bytes =>
          have htake : (b :: bytes).take blockSize = b :: bytes.take 8191 := rfl
          have hdrop : (b :: bytes).drop blockSize = bytes.drop 8191 := rfl
          -- what did not fit into the block comes right after it
          have hjoin : (bytes.take 8191).map ByteEvent.byte ++ (bytes.drop 8191).map ByteEvent.byte
              = bytes.map .byte := by
            rw [← List.map_append, List.take_append_drop]
          simp only [read, htake, hdrop, events_left, ← List.append_assoc, hjoin]
          rfl

end Reader

/-! ### The events of a source -/

namespace ByteSource

/-- The events ahead of a source. -/
def events (s : ByteSource) : ByteFeed :=
  s.pushback.map .byte ++ (s.block.map .byte ++ s.reader.events)

/-- The next byte is that of the events ahead. -/
theorem nextByte_eq (s : ByteSource) : (s.nextByte.1, s.nextByte.2.events) = s.events.nextByte := by
  obtain ⟨pushback, block, reader⟩ := s
  cases pushback with
  | cons b pushback => rfl
  | nil =>
    cases block with
    | cons b block => rfl
    | nil =>
      have h := reader.fill_eq
      have hevents : events { reader } = reader.events := rfl
      rw [hevents, ← h]
      rcases hf : reader.fill with ⟨e | _ | ⟨b, block⟩, reader'⟩ <;> simp [nextByte, hf, events]

/-- Bytes put back are ahead again. -/
theorem events_pushback (s : ByteSource) (bytes : List UInt8) :
    events { s with pushback := bytes ++ s.pushback } = bytes.map .byte ++ s.events := by
  rw [events, events, List.map_append, List.append_assoc]

theorem takeTail_eq (n : Nat) (s : ByteSource) :
    ((s.takeTail n).1, (s.takeTail n).2.events) = s.events.takeTail n := by
  induction n generalizing s with
  | zero =>
    rw [ByteFeed.takeTail]
    rfl
  | succ n ih =>
    rw [ByteFeed.takeTail_succ, ← s.nextByte_eq]
    rcases hs : s.nextByte with ⟨e | _ | b, s₁⟩
    · simp only [takeTail, hs]
    · simp only [takeTail, hs]
    · have h := ih s₁
      simp only [takeTail, hs, ← h]
      rcases s₁.takeTail n with ⟨e | tail, s₂⟩ <;> rfl

/-- The next character is that of the events ahead. -/
theorem next_eq (s : ByteSource) : (s.next.1, s.next.2.events) = s.events.next := by
  rw [ByteFeed.next_eq_of_nextByte, ← s.nextByte_eq]
  rcases hs : s.nextByte with ⟨e | _ | lead, s₁⟩
  · simp only [next, hs]
  · simp only [next, hs]
  · cases hl : Utf8.tailLength? lead with
    | none => simp only [next, hs, hl, ByteFeed.next]
    | some n =>
      have h := s₁.takeTail_eq n
      rcases hs₁ : s₁.takeTail n with ⟨e | tail, s₂⟩ <;> rw [hs₁] at h
      · simp only [next, hs, hl, hs₁, ByteFeed.next, ← h]
      · cases hd : Utf8.decode? lead tail with
        | some c => simp only [next, hs, hl, hs₁, hd, ByteFeed.next, ← h]
        | none => simp only [next, hs, hl, hs₁, hd, ByteFeed.next, ← h, events_pushback]

end ByteSource

end BooleanSearch
