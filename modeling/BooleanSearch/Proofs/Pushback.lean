import BooleanSearch.Proofs.LookAhead
import BooleanSearch.Proofs.Lossy

/-!
# The memory of a byte source

A byte source needs little room.  The bytes of the character under way fit into four places, and
those that are put back never make up more than three, however often bytes are put back that had
been put back before.

A call takes the lead byte and then up to three bytes more, those put back first.  What it puts back
is the tail it took.  If bytes that were put back earlier are left behind the tail, then the lead
byte and the tail were among these, so there are fewer of them than before.  Otherwise nothing but
the tail is there, which is three bytes at the most.

To say that no place is ever missed, a call is run in such a room: with a buffer of four places that
is written and cut at checked positions, and a queue that takes up to three bytes.  It never runs
out of the room and answers what the source answers.

What a call takes from the input is settled by how it ends: the bytes of the character, or the one
byte that was passed over.  So the characters never outnumber the bytes.

## Main definitions

* `ByteSource.unread` — the bytes still to be decoded.
* `ByteSource.Takes` — a source goes on after some bytes were taken from its front.
* `Outcome`, `ByteSource.Call` — how a call ends, and what it does to the source.
* `ByteSource.Buffer`, `ByteSource.putBack?`, `ByteSource.pull?` — a call in a fixed room.

## Main results

* `ByteSource.Call.length_pushback_le` — three bytes put back are never exceeded.
* `ByteSource.Call.consumes` — what a call consumes.
* `ByteSource.pull?_eq` — the room is enough for a call, which does what the source does.
* `byteSource_room` — **the room is enough for all calls, and every character is paid for in
  bytes.**
-/

namespace BooleanSearch

/-! ### Decoding a text of one character -/

namespace Utf8

/-- A text is decoded from some bytes if these are its encoding. -/
theorem fromUTF8?_eq_some_iff {bytes : List UInt8} {text : String} :
    String.fromUTF8? bytes.toByteArray = some text
      ↔ text.toList.flatMap String.utf8EncodeChar = bytes := by
  rw [← List.toByteArray_inj, ← List.utf8Encode, String.utf8Encode_toList]
  unfold String.fromUTF8?
  constructor
  · intro h
    split at h
    · next hvalid =>
      cases h
      rfl
    · cases h
  · intro h
    rw [dif_pos (h ▸ text.isValidUTF8)]
    exact congrArg some (String.toByteArray_inj.1 h.symm)

/-- With no more bytes than a lead byte calls for, a text has one character. -/
theorem flatMap_encode_eq_cons_iff {lead : UInt8} {n : Nat} (hlead : tailLength? lead = some n)
    {tail : List UInt8} (htail : tail.length ≤ n) {cs : List Char} :
    cs.flatMap String.utf8EncodeChar = lead :: tail
      ↔ ∃ c, cs = [c] ∧ String.utf8EncodeChar c = lead :: tail := by
  constructor
  · intro h
    cases cs with
    | nil => cases h
    | cons c cs =>
      rw [List.flatMap_cons] at h
      obtain ⟨b, first, hfirst⟩ := List.exists_cons_of_ne_nil (List.ne_nil_of_length_pos
        (length_encode_pos c))
      rw [hfirst, List.cons_append] at h
      obtain ⟨rfl, rfl⟩ := List.cons.inj h
      -- the first character takes all the bytes there are, which leaves none for a second
      have hlength := tailLength?_of_isEncoding (encode_eq_iff.1 hfirst)
      rw [hlead, Option.some.injEq] at hlength
      rw [List.length_append] at htail
      have hrest : cs.flatMap String.utf8EncodeChar = [] :=
        List.eq_nil_of_length_eq_zero (by omega)
      cases cs with
      | nil => exact ⟨c, rfl, by rw [hfirst, hrest, List.append_nil]⟩
      | cons d cs =>
        have hpos := length_encode_pos d
        rw [List.flatMap_cons, List.append_eq_nil_iff] at hrest
        rw [hrest.1] at hpos
        cases hpos
  · rintro ⟨c, rfl, hc⟩
    rw [List.flatMap_cons, List.flatMap_nil, List.append_nil, hc]

/-- The text of a lead byte and of no more bytes than it calls for is the character that they
encode. -/
theorem fromUTF8?_cons {lead : UInt8} {n : Nat} (hlead : tailLength? lead = some n)
    {tail : List UInt8} (htail : tail.length ≤ n) :
    String.fromUTF8? (lead :: tail).toByteArray
      = (decode? lead tail).map fun c => String.ofList [c] := by
  apply Option.ext
  intro text
  rw [fromUTF8?_eq_some_iff, flatMap_encode_eq_cons_iff hlead htail, Option.map_eq_some_iff]
  constructor
  · rintro ⟨c, hchars, hc⟩
    exact ⟨c, decode?_eq_some_iff.2 hc, by rw [← hchars, String.ofList_toList]⟩
  · rintro ⟨c, hc, rfl⟩
    exact ⟨c, String.toList_ofList, decode?_eq_some_iff.1 hc⟩

end Utf8

/-! ### Taking bytes -/

namespace Reader

theorem length_bytes (reader : Reader) : reader.bytes.length = reader.size := by
  induction reader with
  | nil => rfl
  | cons chunk rest ih =>
    cases chunk with
    | data piece => rw [bytes, List.length_append, ih, size_data_cons]
    | fail e => exact ih

/-- A block holds the bytes that come first. -/
theorem bytes_fill (reader : Reader) :
    reader.fill.1.toOption.getD [] ++ reader.fill.2.bytes = reader.bytes := by
  fun_induction fill reader with
  | case1 e rest h ih => exact ih
  | case2 e rest h => rfl
  | case3 reader hfail =>
    cases reader with
    | nil => rfl
    | cons chunk rest =>
      cases chunk with
      | fail e => exact absurd rfl (hfail e rest)
      | data piece =>
        have hleft : bytes (if (piece.drop blockSize).isEmpty then rest
            else .data (piece.drop blockSize) :: rest) = piece.drop blockSize ++ bytes rest := by
          split
          · next h => rw [List.isEmpty_iff.1 h, List.nil_append]
          · rfl
        simp only [read, Except.toOption, Option.getD_some, hleft, bytes]
        rw [← List.append_assoc, List.take_append_drop]

end Reader

namespace ByteSource

/-- The bytes still to be decoded. -/
def unread (s : ByteSource) : List UInt8 :=
  s.pushback ++ (s.block ++ s.reader.bytes)

/-- Some bytes are taken from the front, those that were put back before any others. -/
structure Takes (s : ByteSource) (taken : List UInt8) (s' : ByteSource) : Prop where
  /-- The bytes were in front. -/
  unread : s.unread = taken ++ s'.unread
  /-- Bytes put back are left only if there were more than were taken. -/
  pushback : s'.pushback = s.pushback.drop taken.length

namespace Takes

variable {s s' s'' : ByteSource} {taken taken' : List UInt8}

theorem trans (h : s.Takes taken s') (h' : s'.Takes taken' s'') :
    s.Takes (taken ++ taken') s'' where
  unread := by rw [h.unread, h'.unread, List.append_assoc]
  pushback := by rw [h'.pushback, h.pushback, List.drop_drop, List.length_append]

theorem length_pushback_le (h : s.Takes taken s') : s'.pushback.length ≤ s.pushback.length := by
  rw [h.pushback, List.length_drop]
  exact Nat.sub_le _ _

end Takes

/-- The next byte is taken, and nothing if there is none. -/
theorem takes_nextByte (s : ByteSource) :
    match s.nextByte with
    | (.ok (some b), s') => s.Takes [b] s'
    | (_, s') => s.Takes [] s' := by
  obtain ⟨pushback, block, reader⟩ := s
  cases pushback with
  | cons b pushback => exact ⟨rfl, rfl⟩
  | nil =>
    cases block with
    | cons b block => exact ⟨rfl, rfl⟩
    | nil =>
      have h := reader.bytes_fill
      rcases hf : reader.fill with ⟨e | _ | ⟨b, block⟩, reader'⟩ <;> rw [hf] at h <;>
        simp only [nextByte, hf] <;> exact ⟨h.symm, rfl⟩

/-- The tail is taken byte by byte.  Where a failure comes instead of it, fewer bytes were taken
than were asked for. -/
theorem takes_takeTail (n : Nat) : ∀ s : ByteSource,
    match s.takeTail n with
    | (.ok tail, s') => tail.length ≤ n ∧ s.Takes tail s'
    | (.error _, s') => ∃ lost : List UInt8, lost.length < n ∧ s.Takes lost s' := by
  induction n with
  | zero =>
    intro s
    exact ⟨Nat.le_refl 0, rfl, rfl⟩
  | succ n ih =>
    intro s
    have hbyte := s.takes_nextByte
    rcases hs : s.nextByte with ⟨e | _ | b, s₁⟩ <;> rw [hs] at hbyte
    · simp only [takeTail, hs]
      exact ⟨[], Nat.succ_pos n, hbyte⟩
    · simp only [takeTail, hs]
      exact ⟨Nat.zero_le _, hbyte⟩
    · have htail := ih s₁
      rcases hs₁ : s₁.takeTail n with ⟨e | tail, s₂⟩ <;> rw [hs₁] at htail
      · obtain ⟨lost, hlost, htaken⟩ := htail
        simp only [takeTail, hs, hs₁]
        exact ⟨b :: lost, Nat.succ_lt_succ hlost, hbyte.trans htaken⟩
      · obtain ⟨hlength, htaken⟩ := htail
        simp only [takeTail, hs, hs₁]
        exact ⟨Nat.succ_le_succ hlength, hbyte.trans htaken⟩

end ByteSource

/-! ### How a call ends -/

/-- How a call for the next character ends. -/
inductive Outcome
  /-- The reader failed. -/
  | failed (e : ReadError)
  /-- The input is at its end, for the moment. -/
  | ended
  /-- A character was decoded. -/
  | decoded (c : Char)
  /-- A byte was passed over, since no character begins with it. -/
  | rejected (b : UInt8)

namespace Outcome

/-- The answer that a call gives. -/
def answer : Outcome → Except ReadError (Option Char)
  | failed e => .error e
  | ended => .ok none
  | decoded c => .ok (some c)
  | rejected _ => .ok (some '\uFFFD')

/-- What a call consumes of the bytes that were unread before it.  The bytes of a character that a
failure interrupts are lost. -/
def Consumes (before after : List UInt8) : Outcome → Prop
  | failed _ => ∃ lost : List UInt8, lost.length ≤ 3 ∧ before = lost ++ after
  | ended => before = after
  | decoded c => before = String.utf8EncodeChar c ++ after
  | rejected b => before = b :: after

/-- A character takes one byte at the least. -/
theorem Consumes.length_le {outcome : Outcome} {before after : List UInt8}
    (h : outcome.Consumes before after) :
    (if (Event.ofAnswer outcome.answer).isChar then 1 else 0) + after.length ≤ before.length := by
  cases outcome with
  | failed e =>
    obtain ⟨lost, -, rfl⟩ := h
    simp [answer, Event.ofAnswer, Event.isChar]
  | ended =>
    cases h
    simp [answer, Event.ofAnswer, Event.isChar]
  | decoded c =>
    cases h
    have hpos := Utf8.length_encode_pos c
    simp only [answer, Event.ofAnswer, Event.isChar, if_true, List.length_append]
    omega
  | rejected b =>
    cases h
    simp only [answer, Event.ofAnswer, Event.isChar, if_true, List.length_cons]
    omega

end Outcome

namespace ByteSource

/-- What a call does to a source. -/
inductive Call (s : ByteSource) : Outcome → ByteSource → Prop
  /-- A failure loses the bytes that were taken before it. -/
  | failed (e : ReadError) {lost : List UInt8} {s' : ByteSource} :
    lost.length ≤ 3 → s.Takes lost s' → Call s (.failed e) s'
  /-- An end takes nothing. -/
  | ended {s' : ByteSource} : s.Takes [] s' → Call s .ended s'
  /-- A character takes its bytes. -/
  | decoded {c : Char} {s' : ByteSource} :
    s.Takes (String.utf8EncodeChar c) s' → Call s (.decoded c) s'
  /-- Where no character begins, the tail is put back. -/
  | rejected {lead : UInt8} {tail : List UInt8} {s' : ByteSource} : tail.length ≤ 3 →
    s.Takes (lead :: tail) s' →
      Call s (.rejected lead) { s' with pushback := tail ++ s'.pushback }

namespace Call

variable {s s' : ByteSource} {outcome : Outcome}

/-- What a call consumes. -/
theorem consumes (h : s.Call outcome s') : outcome.Consumes s.unread s'.unread := by
  cases h with
  | failed e hlost htaken => exact ⟨_, hlost, htaken.unread⟩
  | ended htaken => exact htaken.unread
  | decoded htaken => exact htaken.unread
  | @rejected lead tail s' htail htaken =>
    have hback : unread { s' with pushback := tail ++ s'.pushback } = tail ++ s'.unread :=
      List.append_assoc _ _ _
    rw [Outcome.Consumes, hback]
    exact htaken.unread

/-- Three bytes put back are never exceeded. -/
theorem length_pushback_le (h : s.Call outcome s') (hs : s.pushback.length ≤ 3) :
    s'.pushback.length ≤ 3 := by
  cases h with
  | failed e hlost htaken => exact Nat.le_trans htaken.length_pushback_le hs
  | ended htaken => exact Nat.le_trans htaken.length_pushback_le hs
  | decoded htaken => exact Nat.le_trans htaken.length_pushback_le hs
  | @rejected lead tail s' htail htaken =>
    -- either all the bytes put back were taken, or the lead byte was one of them
    have hleft := congrArg List.length htaken.pushback
    rw [List.length_drop, List.length_cons] at hleft
    rw [List.length_append]
    omega

end Call

/-! ### A call in a fixed room -/

/-- Four places for the bytes of a character, and the number of those that are filled. -/
structure Buffer where
  /-- The places. -/
  places : Vector UInt8 4
  /-- The number of bytes. -/
  length : Nat

namespace Buffer

/-- The buffer with a lead byte. -/
def ofLead (lead : UInt8) : Buffer where
  places := #v[lead, 0, 0, 0]
  length := 1

/-- Writes a byte behind the others, or gives `none` if there is no such place. -/
def push? (buf : Buffer) (b : UInt8) : Option Buffer :=
  if h : buf.length < 4 then
    some { places := buf.places.set buf.length b, length := buf.length + 1 }
  else none

/-- The bytes from a position on, or `none` if they do not lie within the places. -/
def slice? (buf : Buffer) (first : Nat) : Option (List UInt8) :=
  if first ≤ buf.length ∧ buf.length ≤ 4 then
    some ((buf.places.toList.take buf.length).drop first)
  else none

theorem length_of_push? {buf buf' : Buffer} {b : UInt8} (h : buf.push? b = some buf') :
    buf'.length = buf.length + 1 := by
  unfold push? at h
  split at h
  · cases h
    rfl
  · cases h

/-- A buffer is filled with some bytes. -/
structure Holds (buf : Buffer) (bytes : List UInt8) : Prop where
  /-- They are as many as it says. -/
  length_eq : buf.length = bytes.length
  /-- They fit. -/
  length_le : bytes.length ≤ 4
  /-- They are in the first places. -/
  take_eq : buf.places.toList.take bytes.length = bytes

theorem holds_ofLead (lead : UInt8) : (ofLead lead).Holds [lead] := ⟨rfl, Nat.le_add_left 1 3, rfl⟩

variable {buf : Buffer} {bytes : List UInt8}

theorem Holds.push? (h : buf.Holds bytes) (hlt : bytes.length < 4) (b : UInt8) :
    ∃ buf', buf.push? b = some buf' ∧ buf'.Holds (bytes ++ [b]) := by
  have hlength : buf.length < 4 := h.length_eq ▸ hlt
  refine ⟨_, dif_pos hlength, ?_, ?_, ?_⟩
  · rw [List.length_append, ← h.length_eq]
    rfl
  · rw [List.length_append]
    exact hlt
  · have hplace : bytes.length < (buf.places.toList.set bytes.length b).length := by
      rw [List.length_set, Vector.length_toList]
      exact hlt
    rw [List.length_append, List.length_singleton, Vector.toList_set, h.length_eq,
      List.take_add_one, List.take_set_of_le (Nat.le_refl _), h.take_eq,
      List.getElem?_eq_getElem hplace, List.getElem_set_self]
    rfl

theorem Holds.slice? (h : buf.Holds bytes) {first : Nat} (hfirst : first ≤ bytes.length) :
    buf.slice? first = some (bytes.drop first) := by
  rw [Buffer.slice?, h.length_eq, if_pos ⟨hfirst, h.length_le⟩, h.take_eq]

end Buffer

/-- Fills a buffer up to a width, with fewer bytes if the reader comes to an end before. -/
def fill? (width : Nat) (buf : Buffer) (s : ByteSource) :
    Option (Except ReadError Buffer × ByteSource) :=
  if buf.length < width then
    match s.nextByte with
    | (.error e, s) => some (.error e, s)
    | (.ok none, s) => some (.ok buf, s)
    | (.ok (some b), s) =>
      match _ : buf.push? b with
      | none => none
      | some buf' => fill? width buf' s
  else some (.ok buf, s)
termination_by width - buf.length
decreasing_by
  have hlength := Buffer.length_of_push? ‹buf.push? b = some buf'›
  omega

/-- Puts a byte in front of the queue, or gives `none` if three are there. -/
def pushFront? (b : UInt8) (s : ByteSource) : Option ByteSource :=
  if s.pushback.length < 3 then some { s with pushback := b :: s.pushback } else none

/-- Puts bytes in front of the queue, the last of them first. -/
def putBack? (bytes : List UInt8) (s : ByteSource) : Option ByteSource :=
  bytes.foldrM pushFront? s

/-- A call for the next character, in a fixed room.  It comes to `none` if a place is missed. -/
def pull? (s : ByteSource) : Option (Outcome × ByteSource) :=
  match s.nextByte with
  | (.error e, s) => some (.failed e, s)
  | (.ok none, s) => some (.ended, s)
  | (.ok (some lead), s) =>
    if Utf8.width lead = 0 then some (.rejected lead, s)
    else
      match fill? (Utf8.width lead) (.ofLead lead) s with
      | none => none
      | some (.error e, s) => some (.failed e, s)
      | some (.ok buf, s) =>
        (buf.slice? 0).bind fun bytes =>
          match String.fromUTF8? bytes.toByteArray with
          | some text => some (text.toList.head?.elim .ended .decoded, s)
          | none =>
            (buf.slice? 1).bind fun tail =>
              (putBack? tail s).map fun s => (.rejected lead, s)

/-- A buffer is filled with the tail that is taken. -/
theorem fill?_eq (n : Nat) : ∀ {buf : Buffer} {bytes : List UInt8} (s : ByteSource),
    buf.Holds bytes → bytes.length + n ≤ 4 →
      match s.takeTail n with
      | (.error e, s') => fill? (bytes.length + n) buf s = some (.error e, s')
      | (.ok tail, s') => ∃ buf', fill? (bytes.length + n) buf s = some (.ok buf', s') ∧
          buf'.Holds (bytes ++ tail) := by
  induction n with
  | zero =>
    intro buf bytes s hbuf hle
    refine ⟨buf, ?_, ?_⟩
    · rw [fill?, if_neg (by rw [hbuf.length_eq]; exact Nat.lt_irrefl _)]
    · rwa [List.append_nil]
  | succ n ih =>
    intro buf bytes s hbuf hle
    have hroom : buf.length < bytes.length + (n + 1) := by
      rw [hbuf.length_eq]
      exact Nat.lt_add_of_pos_right (Nat.succ_pos n)
    rcases hs : s.nextByte with ⟨e | _ | b, s₁⟩
    · simp only [takeTail, hs]
      rw [fill?, if_pos hroom, hs]
    · simp only [takeTail, hs]
      refine ⟨buf, ?_, ?_⟩
      · rw [fill?, if_pos hroom, hs]
      · rwa [List.append_nil]
    · obtain ⟨buf₁, hpush, hbuf₁⟩ := hbuf.push? (by omega) b
      have hstep : fill? (bytes.length + (n + 1)) buf s
          = fill? ((bytes ++ [b]).length + n) buf₁ s₁ := by
        have hwidth : bytes.length + (n + 1) = (bytes ++ [b]).length + n := by
          rw [List.length_append, List.length_singleton]
          omega
        conv => lhs; rw [fill?, if_pos hroom, hs]
        simp only
        split
        · next hnone => rw [hpush] at hnone; cases hnone
        · next hsome => rw [hpush] at hsome; cases hsome; rw [hwidth]
      have hfill := ih s₁ hbuf₁ (by rw [List.length_append, List.length_singleton]; omega)
      rw [hstep]
      rcases hs₁ : s₁.takeTail n with ⟨e | tail, s₂⟩ <;> rw [hs₁] at hfill
      · simp only [takeTail, hs, hs₁]
        exact hfill
      · obtain ⟨buf', heq, hbuf'⟩ := hfill
        rw [List.append_assoc] at hbuf'
        simp only [takeTail, hs, hs₁]
        exact ⟨buf', heq, hbuf'⟩

/-- Bytes are put back in front, as long as there is room for them. -/
theorem putBack?_eq {bytes : List UInt8} {s : ByteSource}
    (h : bytes.length + s.pushback.length ≤ 3) :
    putBack? bytes s = some { s with pushback := bytes ++ s.pushback } := by
  induction bytes with
  | nil => rfl
  | cons b bytes ih =>
    rw [List.length_cons] at h
    have hroom : (bytes ++ s.pushback).length < 3 := by
      rw [List.length_append]
      omega
    rw [putBack?, List.foldrM_cons, ← putBack?, ih (by omega)]
    exact if_pos hroom

section

variable {s s₁ s₂ : ByteSource} {lead : UInt8} {n : Nat}

theorem width_ne_zero (hlead : Utf8.tailLength? lead = some n) : Utf8.width lead ≠ 0 := by
  rw [Utf8.width_of_tailLength? hlead]
  exact Nat.succ_ne_zero n

/-- The buffer of a call is filled with the lead byte and the tail. -/
theorem fill?_ofLead (hlead : Utf8.tailLength? lead = some n) (s : ByteSource) :
    match s.takeTail n with
    | (.error e, s') => fill? (Utf8.width lead) (.ofLead lead) s = some (.error e, s')
    | (.ok tail, s') => ∃ buf, fill? (Utf8.width lead) (.ofLead lead) s = some (.ok buf, s') ∧
        buf.Holds (lead :: tail) := by
  have hle := Utf8.tailLength?_le hlead
  have hroom : [lead].length + n ≤ 4 := by
    rw [List.length_singleton]
    omega
  have hwidth : Utf8.width lead = [lead].length + n := by
    rw [Utf8.width_of_tailLength? hlead, List.length_singleton, Nat.add_comm]
  rw [hwidth]
  exact fill?_eq n s (Buffer.holds_ofLead lead) hroom

/-- A call that takes a lead byte and its tail either decodes them or puts the tail back. -/
theorem pull?_of_takeTail (h : s.pushback.length ≤ 3) (hs : s.nextByte = (.ok (some lead), s₁))
    (hlead : Utf8.tailLength? lead = some n) {tail : List UInt8}
    (hs₁ : s₁.takeTail n = (.ok tail, s₂)) (hlength : tail.length ≤ n)
    (htaken : s.Takes (lead :: tail) s₂) :
    ∃ outcome, s.pull? = some (outcome, s.next.2) ∧ outcome.answer = s.next.1 ∧
      s.Call outcome s.next.2 := by
  have hne := width_ne_zero hlead
  have hfill := fill?_ofLead hlead s₁
  rw [hs₁] at hfill
  obtain ⟨buf, hbuf, hholds⟩ := hfill
  have hall : buf.slice? 0 = some (lead :: tail) := hholds.slice? (Nat.zero_le _)
  have hrest : buf.slice? 1 = some tail := hholds.slice? (Nat.succ_pos _)
  have htext := Utf8.fromUTF8?_cons hlead hlength
  cases hd : Utf8.decode? lead tail with
  | some c =>
    rw [hd, Option.map_some] at htext
    rw [← Utf8.decode?_eq_some_iff.1 hd] at htaken
    simp only [pull?, next, hs, hlead, hs₁, if_neg hne, hbuf, hall, Option.bind_some, htext, hd,
      String.toList_ofList]
    exact ⟨.decoded c, rfl, rfl, .decoded htaken⟩
  | none =>
    rw [hd, Option.map_none] at htext
    have hcall : s.Call (.rejected lead) { s₂ with pushback := tail ++ s₂.pushback } :=
      .rejected (Nat.le_trans hlength (Utf8.tailLength?_le hlead)) htaken
    have hroom : tail.length + s₂.pushback.length ≤ 3 := by
      rw [← List.length_append]
      exact hcall.length_pushback_le h
    simp only [pull?, next, hs, hlead, hs₁, if_neg hne, hbuf, hall, Option.bind_some, htext, hd,
      hrest, putBack?_eq hroom, Option.map_some]
    exact ⟨.rejected lead, rfl, rfl, hcall⟩

/-- The room is enough for a call, which does what the source does. -/
theorem pull?_eq (h : s.pushback.length ≤ 3) :
    ∃ outcome, s.pull? = some (outcome, s.next.2) ∧ outcome.answer = s.next.1 ∧
      s.Call outcome s.next.2 := by
  have hbyte := s.takes_nextByte
  have hnil : ([] : List UInt8).length ≤ 3 := Nat.zero_le 3
  rcases hs : s.nextByte with ⟨e | _ | lead, s₁⟩ <;> rw [hs] at hbyte
  · simp only [pull?, next, hs]
    exact ⟨.failed e, rfl, rfl, .failed e hnil hbyte⟩
  · simp only [pull?, next, hs]
    exact ⟨.ended, rfl, rfl, .ended hbyte⟩
  · cases hlead : Utf8.tailLength? lead with
    | none =>
      have hwidth : Utf8.width lead = 0 := by rw [Utf8.width, hlead]; rfl
      simp only [pull?, next, hs, hlead, hwidth, if_true]
      exact ⟨.rejected lead, rfl, rfl, .rejected hnil hbyte⟩
    | some n =>
      have htail := s₁.takes_takeTail n
      rcases hs₁ : s₁.takeTail n with ⟨e | tail, s₂⟩ <;> rw [hs₁] at htail
      · obtain ⟨lost, hlost, htaken⟩ := htail
        have hlength : (lead :: lost).length ≤ 3 :=
          Nat.le_trans hlost (Utf8.tailLength?_le hlead)
        have hne := width_ne_zero hlead
        have hfill := fill?_ofLead hlead s₁
        rw [hs₁] at hfill
        simp only [pull?, next, hs, hlead, hs₁, if_neg hne, hfill]
        exact ⟨.failed e, rfl, rfl, .failed e hlength (hbyte.trans htaken)⟩
      · obtain ⟨hlength, htaken⟩ := htail
        exact pull?_of_takeTail h hs hlead hs₁ hlength (hbyte.trans htaken)

end

/-! ### Call after call -/

/-- The queue of a source never holds more than three bytes. -/
theorem length_pushback_after (reader : Reader) (n : Nat) :
    (CharSource.after (ofReader reader) n).pushback.length ≤ 3 := by
  induction n with
  | zero => exact Nat.zero_le 3
  | succ n ih =>
    obtain ⟨outcome, -, -, hcall⟩ := pull?_eq ih
    rw [CharSource.after_add]
    exact hcall.length_pushback_le ih

/-- The characters answered so far, and the bytes that are still unread, are no more than the bytes
of the reader. -/
theorem countP_isChar_events (reader : Reader) (n : Nat) :
    (CharSource.events (ofReader reader) n).countP Event.isChar
      + (CharSource.after (ofReader reader) n).unread.length ≤ reader.size := by
  induction n with
  | zero =>
    rw [← reader.length_bytes]
    exact Nat.le_of_eq (Nat.zero_add _)
  | succ n ih =>
    obtain ⟨outcome, -, hanswer, hcall⟩ := pull?_eq (length_pushback_after reader n)
    have hle := hcall.consumes.length_le
    have hevent : CharSource.event (ofReader reader) n = Event.ofAnswer outcome.answer := by
      rw [CharSource.event, hanswer]
      rfl
    rw [CharSource.events_concat, List.countP_append, List.countP_singleton, hevent,
      CharSource.after_add]
    exact Nat.le_trans (by rw [Nat.add_assoc]; exact Nat.add_le_add_left hle _) ih

end ByteSource

/-- **The room is enough for all calls, and every character is paid for in bytes.**  The queue holds
three bytes at the most, and with that each call keeps to its four places and to three bytes in the
queue while it puts bytes back.  A character takes the bytes of its encoding, and a byte that is
passed over is the only one that is consumed.  So there are no more characters than bytes, and where
the reader neither fails nor pauses, these characters are all that comes before the end. -/
theorem byteSource_room :
    (∀ (reader : Reader) (n : Nat),
      let s := CharSource.after (ByteSource.ofReader reader) n
      let s' := CharSource.after (ByteSource.ofReader reader) (n + 1)
      s.pushback.length ≤ 3 ∧
        ∃ outcome, s.pull? = some (outcome, s') ∧ outcome.answer = (CharSource.next s).1 ∧
          outcome.Consumes s.unread s'.unread) ∧
      (∀ (reader : Reader) (n : Nat),
        (CharSource.events (ByteSource.ofReader reader) n).countP Event.isChar ≤ reader.size) ∧
      ∀ reader : Reader, reader.NeverPauses → reader.failure? = none →
        ∃ cs : List Char, cs.length ≤ reader.size ∧
          CharSource.events (ByteSource.ofReader reader) (cs.length + 1)
            = cs.map .char ++ [.stop] := by
  have hcount (reader : Reader) (n : Nat) :
      (CharSource.events (ByteSource.ofReader reader) n).countP Event.isChar ≤ reader.size :=
    Nat.le_trans (Nat.le_add_right _ _) (ByteSource.countP_isChar_events reader n)
  refine ⟨?_, hcount, ?_⟩
  · intro reader n s s'
    have hle := ByteSource.length_pushback_after reader n
    obtain ⟨outcome, hpull, hanswer, hcall⟩ := ByteSource.pull?_eq hle
    have hnext : s' = s.next.2 := CharSource.after_add n 1 _
    rw [hnext]
    exact ⟨hle, outcome, hpull, hanswer, hcall.consumes⟩
  · intro reader hpause hfail
    have hevents := ByteSource.events_ofReader hpause hfail
    have hlength : (Utf8.singly reader.bytes).length
        = (Utf8.text (Utf8.singly reader.bytes)).length := by
      rw [Utf8.text, List.length_map]
    rw [hlength] at hevents
    refine ⟨_, ?_, hevents⟩
    have hle := hcount reader ((Utf8.text (Utf8.singly reader.bytes)).length + 1)
    rw [hevents, List.countP_append, List.countP_map] at hle
    have hchars : ∀ c : Char, (Event.isChar ∘ (.char : Char → Event ReadError)) c = true :=
      fun _ => rfl
    rw [List.countP_eq_length.2 fun c _ => hchars c] at hle
    exact Nat.le_trans (Nat.le_add_right _ _) hle

/-- Two bytes are put back, the first of them is passed over, and the second begins a euro sign. -/
theorem byteSource_room_euro :
    let reader : Reader := [.data [0xE2, 0x82, 0xE2], .data [0x82, 0xAC]]
    let s := CharSource.after (ByteSource.ofReader reader) 1
    let s' := CharSource.after (ByteSource.ofReader reader) 2
    reader.NeverPauses ∧ reader.failure? = none ∧ s.pushback = [0x82, 0xE2] ∧
      (∃ outcome, s.pull? = some (outcome, s') ∧ outcome.answer = .ok (some '\uFFFD') ∧
        outcome.Consumes [0x82, 0xE2, 0x82, 0xAC] [0xE2, 0x82, 0xAC]) ∧
      (CharSource.events (ByteSource.ofReader reader) 9).countP Event.isChar ≤ 5 ∧
      CharSource.events (ByteSource.ofReader reader) 4
        = [.char '\uFFFD', .char '\uFFFD', .char '€', .stop] ∧
      ∃ cs : List Char, cs.length ≤ 5 ∧
        CharSource.events (ByteSource.ofReader reader) (cs.length + 1)
          = cs.map .char ++ [.stop] := by
  intro reader s s'
  have hpause : reader.NeverPauses := by simp [reader, Reader.NeverPauses]
  obtain ⟨hcalls, hcount, hdrain⟩ := byteSource_room
  refine ⟨hpause, rfl, by decide +kernel, ?_, hcount reader 9, by decide +kernel, ?_⟩
  · obtain ⟨-, outcome, hpull, hanswer, hconsumes⟩ := hcalls reader 1
    exact ⟨outcome, hpull, hanswer, hconsumes⟩
  · exact hdrain reader hpause rfl

end BooleanSearch
