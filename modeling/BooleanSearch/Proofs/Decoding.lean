import BooleanSearch.Proofs.ByteFeed

/-!
# Decoding all events

The events of a byte reader, decoded one answer after the other until none is left, are the answers
of a source of characters.  Bytes without an end or a failure among them give their characters, and
a failure stays in the way of whatever comes after it.

## Main definitions

* `ByteFeed.decode` — the answers that events are decoded to.

## Main results

* `ByteFeed.next_decode` — decoding gives the answers one after the other.
* `ByteFeed.decode_bytes` — bytes are decoded to their characters.
* `ByteFeed.decode_fail` — a failure is met after some characters.
-/

namespace BooleanSearch

namespace Utf8

/-- The lead byte settles how many bytes may make up the leading character. -/
theorem leading?_cons (lead : UInt8) (rest : List UInt8) :
    leading? (lead :: rest) = (tailLength? lead).bind fun n => decode? lead (rest.take n) := by
  apply Option.ext
  intro c
  rw [leading?_eq_some_iff, Option.bind_eq_some_iff]
  constructor
  · intro hprefix
    obtain ⟨b, tail, hcons⟩ := List.exists_cons_of_ne_nil (List.ne_nil_of_length_pos
      (length_encode_pos c))
    rw [hcons] at hprefix
    obtain ⟨rfl, htail⟩ := List.cons_prefix_cons.1 hprefix
    refine ⟨tail.length, tailLength?_of_isEncoding (encode_eq_iff.1 hcons), ?_⟩
    rwa [← List.prefix_iff_eq_take.1 htail, decode?_eq_some_iff]
  · rintro ⟨n, -, hc⟩
    rw [decode?_eq_some_iff.1 hc, List.cons_prefix_cons]
    exact ⟨rfl, List.take_prefix n rest⟩

end Utf8

namespace ByteFeed

/-! ### The answers of a feed -/

/-- No event is added by taking bytes. -/
theorem length_takeTail (n : Nat) (feed : ByteFeed) :
    match takeTail n feed with
    | (.ok tail, rest) => tail.length + rest.length ≤ feed.length
    | (.error _, rest) => rest.length ≤ feed.length := by
  fun_induction takeTail n feed with
  | case1 feed => simp
  | case2 n => simp
  | case3 n b rest tail rest' h ih =>
    rw [h] at ih
    cases tail <;> simp only [Except.map, List.length_cons] at ih ⊢ <;> omega
  | case4 n rest => simp
  | case5 n e rest => simp

/-- Every answer uses up an event, as long as there is one. -/
theorem length_next_lt (event : ByteEvent) (rest : ByteFeed) :
    (next (event :: rest)).2.length < (event :: rest).length := by
  cases event with
  | stop => exact Nat.lt_succ_self _
  | fail e => exact Nat.lt_succ_self _
  | byte lead =>
    rcases hl : Utf8.tailLength? lead with _ | n
    · simp only [next, hl]
      exact Nat.lt_succ_self _
    · have hle := length_takeTail n rest
      rcases ht : takeTail n rest with ⟨e | tail, rest'⟩ <;> rw [ht] at hle
      · simp only [next, hl, ht]
        exact Nat.lt_succ_of_le hle
      · have hle : tail.length + rest'.length ≤ rest.length := hle
        rcases hd : Utf8.decode? lead tail with _ | c
        · simp only [next, hl, ht, hd, List.length_append, List.length_map]
          exact Nat.lt_succ_of_le hle
        · simp only [next, hl, ht, hd, List.length_cons]
          omega

/-- The answers that events are decoded to. -/
def decode : ByteFeed → Feed ReadError
  | [] => []
  | event :: rest =>
    match (next (event :: rest)).1 with
    | .ok (some c) => .char c :: decode (next (event :: rest)).2
    | .ok none => .stop :: decode (next (event :: rest)).2
    | .error e => .fail e :: decode (next (event :: rest)).2
termination_by feed => feed.length
decreasing_by all_goals exact length_next_lt event rest

theorem decode_nil : decode [] = [] := by rw [decode]

theorem decode_of_char {feed rest : ByteFeed} {c : Char} (h : feed.next = (.ok (some c), rest)) :
    decode feed = .char c :: decode rest := by
  cases feed with
  | nil => cases h
  | cons event feed => rw [decode, h]

theorem decode_of_fail {feed rest : ByteFeed} {e : ReadError} (h : feed.next = (.error e, rest)) :
    decode feed = .fail e :: decode rest := by
  cases feed with
  | nil => cases h
  | cons event feed => rw [decode, h]

/-- Decoding gives the answers one after the other. -/
theorem next_decode (feed : ByteFeed) :
    (decode feed).next = (feed.next.1, decode feed.next.2) := by
  cases feed with
  | nil => rw [decode_nil, next, decode_nil]; rfl
  | cons event rest =>
    rw [decode]
    rcases (next (event :: rest)).1 with e | _ | c <;> rfl

/-! ### Bytes in front of a feed -/

theorem takeTail_append {n : Nat} {bytes : List UInt8} (h : n ≤ bytes.length) (feed : ByteFeed) :
    takeTail n (bytes.map .byte ++ feed)
      = (.ok (bytes.take n), (bytes.drop n).map .byte ++ feed) := by
  induction n generalizing bytes with
  | zero => rw [takeTail]; rfl
  | succ n ih =>
    cases bytes with
    | nil => cases h
    | cons b bytes =>
      rw [List.map_cons, List.cons_append, takeTail, ih (Nat.le_of_succ_le_succ h)]
      rfl

/-- Bytes run out at the end. -/
theorem takeTail_bytes (n : Nat) (bytes : List UInt8) :
    takeTail n (bytes.map .byte) = (.ok (bytes.take n), (bytes.drop n).map .byte) := by
  induction n generalizing bytes with
  | zero => rw [takeTail]; rfl
  | succ n ih =>
    cases bytes with
    | nil => rfl
    | cons b bytes => rw [List.map_cons, takeTail, ih]; rfl

/-- A failure is met when bytes run out before it. -/
theorem takeTail_fail {n : Nat} {bytes : List UInt8} (h : bytes.length < n) (e : ReadError)
    (rest : ByteFeed) : takeTail n (bytes.map .byte ++ .fail e :: rest) = (.error e, rest) := by
  induction n generalizing bytes with
  | zero => cases h
  | succ n ih =>
    cases bytes with
    | nil => rfl
    | cons b bytes =>
      rw [List.map_cons, List.cons_append, takeTail, ih (Nat.lt_of_succ_lt_succ h)]
      rfl

/-- The first answer to bytes is their leading character, or else stands for one byte. -/
theorem next_bytes (lead : UInt8) (bytes : List UInt8) :
    next (.byte lead :: bytes.map .byte)
      = match Utf8.leading? (lead :: bytes) with
        | some c => (.ok (some c),
            ((lead :: bytes).drop (String.utf8EncodeChar c).length).map .byte)
        | none => (.ok (some ByteSource.replacement), bytes.map .byte) := by
  have hjoin (n : Nat) : bytes.take n ++ bytes.drop n = bytes := List.take_append_drop n bytes
  rw [Utf8.leading?_cons]
  rcases hl : Utf8.tailLength? lead with _ | n
  · simp only [next, hl, Option.bind_none]
  · rcases hd : Utf8.decode? lead (bytes.take n) with _ | c
    · simp only [next, hl, takeTail_bytes, hd, Option.bind_some]
      rw [← List.map_append, hjoin]
    · simp only [next, hl, takeTail_bytes, hd, Option.bind_some]
      have hdrop : (lead :: bytes).drop (lead :: bytes.take n).length = bytes.drop n := by
        conv => lhs; arg 2; rw [← hjoin n, ← List.cons_append]
        exact List.drop_left
      rw [Utf8.decode?_eq_some_iff.1 hd, hdrop]

/-- Bytes are decoded to their characters. -/
theorem decode_bytes (bytes : List UInt8) :
    decode (bytes.map .byte) = (Utf8.characters bytes).map .char := by
  fun_induction Utf8.characters bytes with
  | case1 => exact decode_nil
  | case2 b bytes c hc ih =>
    have h := next_bytes b bytes
    rw [hc] at h
    rw [List.map_cons, decode_of_char h, ih, List.map_cons]
  | case3 b bytes hnone ih =>
    have h := next_bytes b bytes
    rw [hnone] at h
    rw [List.map_cons, decode_of_char h, ih, List.map_cons]
    rfl

/-- The first answer to bytes in front of a failure is the failure, or a character that leaves
fewer bytes in front of it. -/
theorem next_fail (lead : UInt8) (bytes : List UInt8) (e : ReadError) (rest : ByteFeed) :
    next (.byte lead :: (bytes.map .byte ++ .fail e :: rest)) = (.error e, rest) ∨
      ∃ (c : Char) (left : List UInt8), left.length ≤ bytes.length ∧
        next (.byte lead :: (bytes.map .byte ++ .fail e :: rest))
          = (.ok (some c), left.map .byte ++ .fail e :: rest) := by
  rcases hl : Utf8.tailLength? lead with _ | n
  · refine Or.inr ⟨ByteSource.replacement, bytes, Nat.le_refl _, ?_⟩
    simp only [next, hl]
  · by_cases hn : n ≤ bytes.length
    · have ht := takeTail_append hn (.fail e :: rest)
      rcases hd : Utf8.decode? lead (bytes.take n) with _ | c
      · refine Or.inr ⟨ByteSource.replacement, bytes, Nat.le_refl _, ?_⟩
        simp only [next, hl, ht, hd]
        rw [← List.append_assoc, ← List.map_append, List.take_append_drop]
      · refine Or.inr ⟨c, bytes.drop n, ?_, ?_⟩
        · rw [List.length_drop]
          exact Nat.sub_le _ _
        · simp only [next, hl, ht, hd]
    · -- the bytes run out, so the failure strikes inside the character
      have ht := takeTail_fail (Nat.lt_of_not_le hn) e rest
      refine Or.inl ?_
      simp only [next, hl, ht]

/-- A failure is met after some characters. -/
theorem decode_fail (bytes : List UInt8) (e : ReadError) (rest : ByteFeed) :
    ∃ (cs : List Char) (rest' : Feed ReadError),
      decode (bytes.map .byte ++ .fail e :: rest) = cs.map .char ++ .fail e :: rest' := by
  induction hlen : bytes.length using Nat.strongRecOn generalizing bytes with
  | ind len ih =>
    -- every character takes away one byte at least from those in front of the failure
    subst hlen
    cases bytes with
    | nil => exact ⟨[], decode rest, decode_of_fail rfl⟩
    | cons lead bytes =>
      rw [List.map_cons, List.cons_append]
      rcases next_fail lead bytes e rest with h | ⟨c, left, hle, h⟩
      · exact ⟨[], decode rest, decode_of_fail h⟩
      · obtain ⟨cs, rest', hcs⟩ := ih left.length (Nat.lt_succ_of_le hle) left rfl
        refine ⟨c :: cs, rest', ?_⟩
        rw [decode_of_char h, hcs]
        rfl

end ByteFeed

end BooleanSearch
