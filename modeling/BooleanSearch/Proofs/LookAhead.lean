import BooleanSearch.Proofs.Decoding
import BooleanSearch.Proofs.Events

/-!
# Looking ahead instead of putting back

A byte source takes the bytes of a character one after the other, and puts back what it should not
have taken.  The same answers can be told from the events ahead of it without taking any: it is
enough to look at as many bytes as the lead byte calls for, or at those before an end or a failure
that comes earlier.

So the source needs no more of its state than the events ahead, over any number of answers.  The
blocks that it reads, the bytes that it puts back, the pieces that the bytes come in and the reads
that are interrupted leave no trace in the answers.

## Main definitions

* `Utf8.character?` — the character that some bytes encode.
* `Utf8.width` — the number of bytes of a character, told from the first.
* `ByteFeed.firstBytes` — the bytes that a feed begins with.
* `ByteFeed.answer` — the next character, told from the events ahead.
* `ByteFeed.left` — the events that some answers leave.

## Main results

* `Utf8.width_eq_succ_iff` — the width is that of the encodings that begin with the byte.
* `ByteFeed.next_eq_answer` — taking bytes and putting them back comes to the same as looking ahead.
* `ByteSource.events_after` — what is ahead of a source after some answers.
* `byteSource_answers` — **the answers of a byte source are told from the events of its reader.**
-/

namespace BooleanSearch

/-! ### Encodings -/

namespace Utf8

/-- The character that some bytes encode, all of them together. -/
def character? (bytes : List UInt8) : Option Char :=
  (leading? bytes).filter fun c => String.utf8EncodeChar c = bytes

theorem character?_eq_some_iff {bytes : List UInt8} {c : Char} :
    character? bytes = some c ↔ String.utf8EncodeChar c = bytes := by
  rw [character?, Option.filter_eq_some_iff, leading?_eq_some_iff, decide_eq_true_iff]
  constructor
  · exact And.right
  · intro h
    exact ⟨h ▸ List.prefix_refl _, h⟩

theorem decode?_eq_character? (lead : UInt8) (tail : List UInt8) :
    decode? lead tail = character? (lead :: tail) := by
  apply Option.ext
  intro c
  rw [decode?_eq_some_iff, character?_eq_some_iff]

/-- The number of bytes of the characters that begin with a byte, or zero if none does. -/
def width (lead : UInt8) : Nat :=
  (tailLength? lead).elim 0 (· + 1)

theorem width_of_tailLength? {lead : UInt8} {n : Nat} (h : tailLength? lead = some n) :
    width lead = n + 1 := by
  rw [width, h]
  rfl

/-- Continuation bytes that are all the least or all the greatest complete a character. -/
private theorem exists_decode?_replicate :
    ∀ b < 256, ∀ n ∈ tailLength? (UInt8.ofNat b),
      (decode? (UInt8.ofNat b) (List.replicate n 0x80)).isSome = true ∨
        (decode? (UInt8.ofNat b) (List.replicate n 0xBF)).isSome = true := by
  decide +kernel

/-- The width of a byte is that of the encodings that begin with it. -/
theorem width_eq_succ_iff {lead : UInt8} {n : Nat} :
    width lead = n + 1 ↔ ∃ c tail, String.utf8EncodeChar c = lead :: tail ∧ tail.length = n := by
  constructor
  · intro h
    have htail : tailLength? lead = some n := by
      rw [width] at h
      rcases hlead : tailLength? lead with _ | m <;> rw [hlead] at h
      · cases h
      · exact congrArg some (Nat.succ.inj h)
    have hlt : lead.toNat < 256 := lead.toNat_lt
    have hcomplete := exists_decode?_replicate lead.toNat hlt n
    rw [UInt8.ofNat_toNat] at hcomplete
    rcases hcomplete htail with hsome | hsome
    · obtain ⟨c, hc⟩ := Option.isSome_iff_exists.1 hsome
      exact ⟨c, _, decode?_eq_some_iff.1 hc, List.length_replicate⟩
    · obtain ⟨c, hc⟩ := Option.isSome_iff_exists.1 hsome
      exact ⟨c, _, decode?_eq_some_iff.1 hc, List.length_replicate⟩
  · rintro ⟨c, tail, hc, rfl⟩
    exact width_of_tailLength? (tailLength?_of_isEncoding (encode_eq_iff.1 hc))

end Utf8

/-! ### Looking ahead -/

namespace ByteFeed

/-- The bytes that a feed begins with, `n` of them at most. -/
def firstBytes : Nat → ByteFeed → List UInt8
  | n + 1, .byte b :: rest => b :: firstBytes n rest
  | _, _ => []

/-- What comes of a byte that is followed by the bytes `seen`, where it calls for more of them, and
what comes behind them is given.  A failure takes everything before it along.  An end is used up,
and all bytes but the first are left. -/
def cutShort (seen : List UInt8) : ByteFeed → Except ReadError (Option Char) × ByteFeed
  | .fail e :: later => (.error e, later)
  | .stop :: later => (.ok (some '\uFFFD'), seen.map .byte ++ later)
  | behind => (.ok (some '\uFFFD'), seen.map .byte ++ behind)

/-- The next character, told from the events ahead, and the events that are left. -/
def answer : ByteFeed → Except ReadError (Option Char) × ByteFeed
  | [] => (.ok none, [])
  | .stop :: rest => (.ok none, rest)
  | .fail e :: rest => (.error e, rest)
  | .byte lead :: rest =>
    let width := Utf8.width lead
    let seen := firstBytes (width - 1) rest
    let behind := rest.drop seen.length
    if width = 0 then (.ok (some '\uFFFD'), rest)
    else if seen.length + 1 < width then cutShort seen behind
    else
      match Utf8.character? (lead :: seen) with
      | some c => (.ok (some c), behind)
      | none => (.ok (some '\uFFFD'), rest)

/-- The events that `n` answers leave. -/
def left (feed : ByteFeed) : Nat → ByteFeed
  | 0 => feed
  | n + 1 => left feed.answer.2 n

/-- The first bytes of a feed, followed by what is behind them. -/
theorem firstBytes_append_drop (n : Nat) (feed : ByteFeed) :
    (feed.firstBytes n).map .byte ++ feed.drop (feed.firstBytes n).length = feed := by
  fun_induction firstBytes n feed with
  | case1 n b rest ih => rw [List.map_cons, List.length_cons, List.drop_succ_cons,
      List.cons_append, ih]
  | case2 n feed h => rfl

theorem length_firstBytes_le (n : Nat) (feed : ByteFeed) : (feed.firstBytes n).length ≤ n := by
  fun_induction firstBytes n feed with
  | case1 n b rest ih => exact Nat.succ_le_succ ih
  | case2 n feed h => exact Nat.zero_le n

/-- Fewer bytes than asked for are followed by something else than a byte. -/
theorem drop_firstBytes_ne {n : Nat} {feed : ByteFeed} (h : (firstBytes n feed).length < n)
    (b : UInt8) (rest : ByteFeed) : feed.drop (firstBytes n feed).length ≠ .byte b :: rest := by
  fun_induction firstBytes n feed with
  | case1 n b' feed ih => exact ih (Nat.lt_of_succ_lt_succ h)
  | case2 n feed hne =>
    rintro rfl
    cases n with
    | zero => cases h
    | succ n => exact hne n b rest rfl rfl

/-- An end that is met before enough bytes is used up. -/
theorem takeTail_stop {n : Nat} {bytes : List UInt8} (h : bytes.length < n) (rest : ByteFeed) :
    takeTail n (bytes.map .byte ++ .stop :: rest) = (.ok bytes, rest) := by
  induction n generalizing bytes with
  | zero => cases h
  | succ n ih =>
    cases bytes with
    | nil => rfl
    | cons b bytes =>
      rw [List.map_cons, List.cons_append, takeTail, ih (Nat.lt_of_succ_lt_succ h)]
      rfl

/-- Too few bytes decode to nothing. -/
theorem decode?_of_lt {lead : UInt8} {n : Nat} (hlead : Utf8.tailLength? lead = some n)
    {seen : List UInt8} (h : seen.length < n) : Utf8.decode? lead seen = none := by
  cases hd : Utf8.decode? lead seen with
  | none => rfl
  | some c =>
    have hlength := Utf8.tailLength?_of_decode? hd
    rw [hlead, Option.some.injEq] at hlength
    exact absurd h (Nat.not_lt_of_le (Nat.le_of_eq hlength))

/-- The answer where the bytes run out before there are enough of them. -/
theorem next_eq_cutShort {lead : UInt8} {n : Nat} (hlead : Utf8.tailLength? lead = some n)
    {rest : ByteFeed} (h : (firstBytes n rest).length < n) :
    next (.byte lead :: rest)
      = cutShort (firstBytes n rest) (rest.drop (firstBytes n rest).length) := by
  have hsplit := firstBytes_append_drop n rest
  have hnone := decode?_of_lt hlead h
  have hbyte := drop_firstBytes_ne h
  generalize firstBytes n rest = seen at *
  generalize rest.drop seen.length = behind at *
  subst hsplit
  rcases behind with _ | ⟨b | _ | e, later⟩
  · -- the bytes run out at the end of all events
    have htail := takeTail_bytes n seen
    rw [List.take_of_length_le (Nat.le_of_lt h), List.drop_eq_nil_of_le (Nat.le_of_lt h)] at htail
    simp only [next, hlead, cutShort, List.append_nil, htail, hnone, List.map_nil]
    rfl
  · exact absurd rfl (hbyte b later)
  · simp only [next, hlead, cutShort, takeTail_stop h, hnone]
    rfl
  · simp only [next, hlead, cutShort, takeTail_fail h]

/-- The answer where there are as many bytes as the lead byte calls for. -/
theorem next_of_length_eq {lead : UInt8} {n : Nat} (hlead : Utf8.tailLength? lead = some n)
    {rest : ByteFeed} (h : (firstBytes n rest).length = n) :
    next (.byte lead :: rest)
      = match Utf8.character? (lead :: firstBytes n rest) with
        | some c => (.ok (some c), rest.drop n)
        | none => (.ok (some '\uFFFD'), rest) := by
  have hsplit := firstBytes_append_drop n rest
  have htail : takeTail n rest = (.ok (firstBytes n rest), rest.drop n) := by
    have htake := takeTail_append (Nat.le_of_eq h.symm) (rest.drop n)
    rw [h] at hsplit
    rwa [hsplit, List.take_of_length_le (Nat.le_of_eq h),
      List.drop_eq_nil_of_le (Nat.le_of_eq h), List.map_nil, List.nil_append] at htake
  rw [h] at hsplit
  simp only [next, hlead, htail, Utf8.decode?_eq_character?, hsplit]
  rfl

/-- Taking bytes and putting them back comes to the same as looking ahead. -/
theorem next_eq_answer (feed : ByteFeed) : feed.next = feed.answer := by
  rcases feed with _ | ⟨lead | _ | e, rest⟩
  · rfl
  · cases hlead : Utf8.tailLength? lead with
    | none =>
      have hwidth : Utf8.width lead = 0 := by rw [Utf8.width, hlead]; rfl
      simp only [next, hlead, answer, hwidth, if_true]
      rfl
    | some n =>
      have hwidth := Utf8.width_of_tailLength? hlead
      have hle := length_firstBytes_le n rest
      simp only [answer, hwidth, Nat.add_sub_cancel, Nat.succ_ne_zero, if_false,
        Nat.add_lt_add_iff_right]
      by_cases hshort : (firstBytes n rest).length < n
      · rw [next_eq_cutShort hlead hshort, if_pos hshort]
      · have hlength : (firstBytes n rest).length = n := by omega
        rw [next_of_length_eq hlead hlength, if_neg hshort, hlength]
  · rfl
  · rfl

end ByteFeed

/-! ### Answer after answer -/

namespace ByteSource

theorem next_eq_answer (s : ByteSource) :
    (CharSource.next s).1 = s.events.answer.1 ∧
      (CharSource.next s).2.events = s.events.answer.2 := by
  have hnext : (s.next.1, s.next.2.events) = s.events.answer := by
    rw [s.next_eq, ByteFeed.next_eq_answer]
  exact ⟨congrArg Prod.fst hnext, congrArg Prod.snd hnext⟩

/-- What is ahead of a source after some answers is what they leave of the events ahead. -/
theorem events_after (n : Nat) : ∀ s : ByteSource,
    (CharSource.after s n).events = s.events.left n := by
  induction n with
  | zero =>
    intro s
    rfl
  | succ n ih =>
    intro s
    rw [CharSource.after, ih, s.next_eq_answer.2, ByteFeed.left]

/-- An answer depends on the events ahead only. -/
theorem answer_after (s : ByteSource) (n : Nat) :
    (CharSource.next (CharSource.after s n)).1 = (s.events.left n).answer.1 := by
  rw [(CharSource.after s n).next_eq_answer.1, events_after]

end ByteSource

namespace Reader

theorem events_append (reader reader' : Reader) :
    events (reader ++ reader') = reader.events ++ reader'.events := by
  induction reader with
  | nil => rfl
  | cons chunk reader ih =>
    cases chunk with
    | data bytes =>
      cases bytes with
      | nil => rw [List.cons_append, events, ih, events, List.cons_append]
      | cons b bytes =>
        rw [List.cons_append, events_data (List.cons_ne_nil b bytes), ih,
          events_data (List.cons_ne_nil b bytes), List.append_assoc]
    | fail e =>
      rw [List.cons_append, events, events, ih]
      split
      · rfl
      · rfl

/-- A piece may be cut in two. -/
theorem events_cut (before after : Reader) {bytes bytes' : List UInt8} (h : bytes ≠ [])
    (h' : bytes' ≠ []) :
    events (before ++ .data bytes :: .data bytes' :: after)
      = events (before ++ .data (bytes ++ bytes') :: after) := by
  have hboth : bytes ++ bytes' ≠ [] := List.append_ne_nil_of_left_ne_nil h bytes'
  rw [events_append, events_append, events_data h, events_data h', events_data hboth,
    List.map_append, List.append_assoc]

/-- A read may be interrupted. -/
theorem events_interrupted (before after : Reader) {e : ReadError} (h : e.kind = .interrupted) :
    events (before ++ .fail e :: after) = events (before ++ after) := by
  rw [events_append, events_append, events, if_pos h]

end Reader

/-- Whether two readers are decoded to the same answers. -/
def Reader.SameAnswers (reader reader' : Reader) : Prop :=
  ∀ n, CharSource.event (ByteSource.ofReader reader) n
    = CharSource.event (ByteSource.ofReader reader') n

/-- The events of a reader are all that matters. -/
theorem Reader.sameAnswers_of_events_eq {reader reader' : Reader}
    (h : reader.events = reader'.events) : reader.SameAnswers reader' := by
  intro n
  have hevents : (ByteSource.ofReader reader).events = (ByteSource.ofReader reader').events := h
  rw [CharSource.event, CharSource.event, ByteSource.answer_after, ByteSource.answer_after, hevents]

/-- **The answers of a byte source are told from the events of its reader.**  Each of them is the
answer to the events that those before it leave, found by looking ahead, where the width of a byte
is that of the encodings that begin with it.  So it makes no difference where the pieces of the
reader were cut and where a read was interrupted. -/
theorem byteSource_answers :
    (∀ (reader : Reader) (n : Nat),
      (CharSource.next (CharSource.after (ByteSource.ofReader reader) n)).1
        = (reader.events.left n).answer.1) ∧
      (∀ (lead : UInt8) (n : Nat), Utf8.width lead = n + 1 ↔
        ∃ c tail, String.utf8EncodeChar c = lead :: tail ∧ tail.length = n) ∧
      (∀ reader reader' : Reader, reader.events = reader'.events → reader.SameAnswers reader') ∧
      (∀ (before after : Reader) (bytes bytes' : List UInt8), bytes ≠ [] → bytes' ≠ [] →
        Reader.SameAnswers (before ++ .data bytes :: .data bytes' :: after)
          (before ++ .data (bytes ++ bytes') :: after)) ∧
      ∀ (before after : Reader) (e : ReadError), e.kind = .interrupted →
        Reader.SameAnswers (before ++ .fail e :: after) (before ++ after) := by
  refine ⟨?_, ?_, ?_, ?_, ?_⟩
  · intro reader n
    exact (ByteSource.ofReader reader).answer_after n
  · intro lead n
    exact Utf8.width_eq_succ_iff
  · intro reader reader' h
    exact Reader.sameAnswers_of_events_eq h
  · intro before after bytes bytes' h h'
    exact Reader.sameAnswers_of_events_eq (Reader.events_cut before after h h')
  · intro before after e h
    exact Reader.sameAnswers_of_events_eq (Reader.events_interrupted before after h)

/-- A euro sign, cut by an end the first time, and by an interruption or by nothing the second. -/
theorem byteSource_answers_euro :
    let whole : Reader := [.data [0xE2, 0x82], .data [], .data [0xE2, 0x82, 0xAC],
      .fail { kind := .timedOut }]
    let cut : Reader := [.data [0xE2, 0x82], .data [], .data [0xE2], .data [0x82, 0xAC],
      .fail { kind := .timedOut }]
    let interrupted : Reader := [.data [0xE2, 0x82], .data [], .data [0xE2],
      .fail { kind := .interrupted }, .data [0x82, 0xAC], .fail { kind := .timedOut }]
    interrupted.SameAnswers cut ∧ cut.SameAnswers whole ∧ interrupted.SameAnswers whole ∧
      CharSource.events (ByteSource.ofReader interrupted) 5
        = [.char '\uFFFD', .char '\uFFFD', .char '€', .fail { kind := .timedOut }, .stop] := by
  intro whole cut interrupted
  obtain ⟨-, -, hevents, hcut, hinterrupted⟩ := byteSource_answers
  refine ⟨?_, ?_, ?_, ?_⟩
  · exact hinterrupted [.data [0xE2, 0x82], .data [], .data [0xE2]]
      [.data [0x82, 0xAC], .fail { kind := .timedOut }] { kind := .interrupted } rfl
  · exact hcut [.data [0xE2, 0x82], .data []] [.fail { kind := .timedOut }] [0xE2] [0x82, 0xAC]
      (List.cons_ne_nil _ _) (List.cons_ne_nil _ _)
  · exact hevents interrupted whole rfl
  · decide +kernel

end BooleanSearch
