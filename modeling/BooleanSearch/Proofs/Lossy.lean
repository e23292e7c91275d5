import BooleanSearch.Proofs.Delivery
import BooleanSearch.Proofs.Events
import Mathlib.Algebra.Group.Nat.Defs
import Mathlib.Data.Nat.Find

/-!
# Bytes that are not well formed

Where no encoding begins, a byte source passes over one byte and answers U+FFFD.  The usual way is
to put one U+FFFD for as many bytes as could have been the beginning of an encoding.  The bytes of
such a beginning but for the first are continuation bytes, and no encoding begins with one of these,
so the source answers U+FFFD for each of them and is then in step again.

The two texts so have the same characters between runs of U+FFFD of different lengths.  A character
that means nothing has no effect wherever it stands, and one of them ends a word as well as several
do, so both texts have the same tree.

## Main definitions

* `Utf8.Begins` — some bytes are the beginning of an encoding.
* `Utf8.pieces` — the characters of some bytes, and the places where bytes are passed over.
* `Utf8.singly`, `Utf8.jointly` — the pieces if bytes are passed over one by one, and if as many are
  passed over at once as begin an encoding.
* `Utf8.lossy` — the text of some bytes, decoded the usual way.
* `Utf8.gaps` — whether bytes are passed over before each character and at the end.
* `Utf8.Expands` — pieces that differ in the lengths of the runs of places passed over.

## Main results

* `Utf8.begins_iff_complete?` — a beginning can be completed by bytes that are all the same.
* `Utf8.expands_pieces` — the pieces of some bytes, decoded in the two ways.
* `Spine.read_text_of_expands` — such pieces are read alike.
* `parseReader_lossy` — **a reader is read as the text of its bytes that is decoded the usual way.**
-/

namespace BooleanSearch

namespace Utf8

/-! ### Beginnings of encodings -/

/-- Whether some bytes are the beginning of an encoding. -/
def Begins (bytes : List UInt8) : Prop :=
  ∃ c : Char, bytes <+: String.utf8EncodeChar c

/-- The character of a lead byte and the continuation bytes behind it, where those that are missing
are all `fill`. -/
def complete? (fill lead : UInt8) (tail : List UInt8) : Option Char :=
  (tailLength? lead).bind fun n => decode? lead (tail ++ List.replicate (n - tail.length) fill)

theorem begins_of_complete? {fill lead : UInt8} {tail : List UInt8}
    (h : (complete? fill lead tail).isSome = true) : Begins (lead :: tail) := by
  obtain ⟨c, hc⟩ := Option.isSome_iff_exists.1 h
  obtain ⟨n, -, hn⟩ := Option.bind_eq_some_iff.1 hc
  refine ⟨c, ?_⟩
  rw [decode?_eq_some_iff.1 hn]
  exact List.prefix_append (lead :: tail) _

theorem exists_toNat_eq {n : Nat} (h : n.isValidChar) : ∃ c : Char, c.toNat = n := by
  refine ⟨Char.ofNat n, ?_⟩
  rw [Char.ofNat, dif_pos h]
  rfl

/-- The last bytes of an encoding may be replaced by the least continuation byte, unless all bits
are in them.  Then they may be replaced by the greatest. -/
theorem isEncoding_replicate {c c' : Char} {fill lead : UInt8} {tail more : List UInt8}
    (h : IsEncoding c (lead :: (tail ++ more)))
    (hfill : (fill.toNat = 0x80 ∧ 64 ^ more.length ≤ c.toNat ∧
        c'.toNat = c.toNat / 64 ^ more.length * 64 ^ more.length) ∨
      (fill.toNat = 0xBF ∧ c.toNat < 64 ^ more.length ∧ c'.toNat = 64 ^ more.length - 1)) :
    IsEncoding c' (lead :: (tail ++ List.replicate more.length fill)) := by
  have hlength := tailLength?_le (tailLength?_of_isEncoding h)
  -- each number of bytes that stay against each number of bytes that are replaced
  rcases more with _ | ⟨d₁, _ | ⟨d₂, _ | ⟨d₃, _ | ⟨d₄, more⟩⟩⟩⟩ <;>
    rcases tail with _ | ⟨b₁, _ | ⟨b₂, _ | ⟨b₃, _ | ⟨b₄, tail⟩⟩⟩⟩ <;>
    simp [IsEncoding, List.replicate_succ] at h hfill hlength ⊢ <;>
    omega

/-- The last bytes of an encoding may all be the least continuation byte, or else the greatest. -/
theorem exists_isEncoding_replicate {c : Char} {lead : UInt8} {tail more : List UInt8}
    (h : IsEncoding c (lead :: (tail ++ more))) :
    ∃ c', IsEncoding c' (lead :: (tail ++ List.replicate more.length 0x80)) ∨
      IsEncoding c' (lead :: (tail ++ List.replicate more.length 0xBF)) := by
  have hvalid : c.toNat.isValidChar := c.valid
  have hlength := tailLength?_le (tailLength?_of_isEncoding h)
  rw [List.length_append] at hlength
  have hbits : 64 ^ more.length = 1 ∨ 64 ^ more.length = 0x40 ∨ 64 ^ more.length = 0x1000 ∨
      64 ^ more.length = 0x40000 := by
    have hmore : more.length = 0 ∨ more.length = 1 ∨ more.length = 2 ∨ more.length = 3 := by
      omega
    rcases hmore with hm | hm | hm | hm <;> simp [hm]
  unfold Nat.isValidChar at hvalid
  by_cases hsmall : c.toNat < 64 ^ more.length
  · have hn : (64 ^ more.length - 1).isValidChar := by
      unfold Nat.isValidChar
      omega
    obtain ⟨c', hc'⟩ := exists_toNat_eq hn
    exact ⟨c', Or.inr (isEncoding_replicate h (Or.inr ⟨rfl, hsmall, hc'⟩))⟩
  · have hn : (c.toNat / 64 ^ more.length * 64 ^ more.length).isValidChar := by
      unfold Nat.isValidChar
      rcases hbits with hN | hN | hN | hN <;> rw [hN] <;> omega
    obtain ⟨c', hc'⟩ := exists_toNat_eq hn
    exact ⟨c', Or.inl (isEncoding_replicate h (Or.inl ⟨rfl, Nat.le_of_not_lt hsmall, hc'⟩))⟩

/-- The bytes of an encoding behind the first are continuation bytes. -/
theorem tailLength?_of_mem_tail {c : Char} {lead b : UInt8} {tail : List UInt8}
    (h : IsEncoding c (lead :: tail)) (hb : b ∈ tail) : tailLength? b = none := by
  have hcontinues : 0x80 ≤ b.toNat ∧ b.toNat ≤ 0xBF := by
    rcases tail with _ | ⟨b₁, _ | ⟨b₂, _ | ⟨b₃, _ | ⟨b₄, tail⟩⟩⟩⟩
    · cases hb
    · simp only [List.mem_singleton] at hb
      rw [IsEncoding] at h
      subst hb
      omega
    · simp only [List.mem_cons, List.not_mem_nil, or_false] at hb
      rw [IsEncoding] at h
      rcases hb with rfl | rfl <;> omega
    · simp only [List.mem_cons, List.not_mem_nil, or_false] at hb
      rw [IsEncoding] at h
      rcases hb with rfl | rfl | rfl <;> omega
    · cases h
  rw [Option.eq_none_iff_forall_ne_some]
  intro n hn
  rw [tailLength?_eq_some_iff] at hn
  omega

theorem begins_iff_complete? {lead : UInt8} {tail : List UInt8} :
    Begins (lead :: tail) ↔
      (complete? 0x80 lead tail).isSome = true ∨ (complete? 0xBF lead tail).isSome = true := by
  constructor
  · rintro ⟨c, more, hc⟩
    have hencoding : IsEncoding c (lead :: (tail ++ more)) := encode_eq_iff.1 hc.symm
    have hlength : tailLength? lead = some (tail.length + more.length) := by
      rw [tailLength?_of_isEncoding hencoding, List.length_append]
    have hfill (fill : UInt8) : complete? fill lead tail
        = decode? lead (tail ++ List.replicate more.length fill) := by
      rw [complete?, hlength, Option.bind_some, Nat.add_sub_cancel_left]
    obtain ⟨c', hc'⟩ := exists_isEncoding_replicate hencoding
    rw [hfill, hfill]
    refine hc'.imp ?_ ?_
    · intro h
      rw [decode?_eq_some_iff_isEncoding.2 h]
      rfl
    · intro h
      rw [decode?_eq_some_iff_isEncoding.2 h]
      rfl
  · rintro (h | h)
    · exact begins_of_complete? h
    · exact begins_of_complete? h

instance (bytes : List UInt8) : Decidable (Begins bytes) :=
  match bytes with
  | [] => isTrue ⟨'a', List.nil_prefix⟩
  | _ :: _ => decidable_of_iff' _ begins_iff_complete?

/-! ### Decoding with replacements -/

/-- The pieces of some bytes: the characters whose encodings they hold, and `none` wherever no
encoding begins.  There the first byte is passed over, and `extra` more bytes with it. -/
def pieces (extra : List UInt8 → Nat) : List UInt8 → List (Option Char)
  | [] => []
  | b :: bytes =>
    match leading? (b :: bytes) with
    | some c => some c :: pieces extra ((b :: bytes).drop (String.utf8EncodeChar c).length)
    | none => none :: pieces extra (bytes.drop (extra (b :: bytes)))
termination_by bytes => bytes.length
decreasing_by
  · have hpos := length_encode_pos c
    simp only [List.length_drop, List.length_cons]
    omega
  · simp only [List.length_drop, List.length_cons]
    omega

/-- The text of some pieces, with U+FFFD wherever bytes were passed over. -/
def text (ps : List (Option Char)) : List Char :=
  ps.map fun p => p.getD '\uFFFD'

/-- The pieces of some bytes if bytes are passed over one by one. -/
def singly : List UInt8 → List (Option Char) :=
  pieces fun _ => 0

/-- How many bytes behind the first begin an encoding together with it, at the most. -/
def begunTail (bytes : List UInt8) : Nat :=
  Nat.findGreatest (fun n => Begins (bytes.take n)) bytes.length - 1

/-- The pieces of some bytes if as many bytes are passed over at once as begin an encoding. -/
def jointly : List UInt8 → List (Option Char) :=
  pieces begunTail

/-- The text of some bytes, decoded with one U+FFFD for each ill-formed sequence that is as long as
it can be. -/
def lossy (bytes : List UInt8) : String :=
  String.ofList (text (jointly bytes))

/-! ### The pieces that a byte source gives -/

theorem pieces_of_char (extra : List UInt8 → Nat) {bytes : List UInt8} {c : Char}
    (h : leading? bytes = some c) :
    pieces extra bytes
      = some c :: pieces extra (bytes.drop (String.utf8EncodeChar c).length) := by
  cases bytes with
  | nil =>
    have hempty := leading?_eq_some_iff.1 h
    have hpos := length_encode_pos c
    rw [List.prefix_nil.1 hempty] at hpos
    cases hpos
  | cons b bytes => rw [pieces, h]

theorem pieces_of_none (extra : List UInt8 → Nat) {b : UInt8} {bytes : List UInt8}
    (h : leading? (b :: bytes) = none) :
    pieces extra (b :: bytes) = none :: pieces extra (bytes.drop (extra (b :: bytes))) := by
  rw [pieces, h]

/-- A byte source passes over bytes one by one. -/
theorem text_singly (bytes : List UInt8) : text (singly bytes) = characters bytes := by
  fun_induction characters bytes with
  | case1 => rw [singly, pieces]; rfl
  | case2 b bytes c hc ih => rw [singly, pieces_of_char _ hc, text, List.map_cons, ← ih]; rfl
  | case3 b bytes hnone ih => rw [singly, pieces_of_none _ hnone, text, List.map_cons, ← ih]; rfl

/-- No encoding begins with a continuation byte. -/
theorem singly_append {tail : List UInt8} (h : ∀ b ∈ tail, tailLength? b = none)
    (bytes : List UInt8) :
    singly (tail ++ bytes) = List.replicate tail.length none ++ singly bytes := by
  induction tail with
  | nil => rfl
  | cons b tail ih =>
    rw [List.forall_mem_cons] at h
    have hnone : leading? (b :: (tail ++ bytes)) = none := by
      rw [leading?_cons, h.1, Option.bind_none]
    rw [List.cons_append, singly, pieces_of_none _ hnone, List.drop_zero, ← singly, ih h.2]
    rfl

/-- The bytes that are passed over together are continuation bytes but for the first. -/
theorem tailLength?_of_mem_begunTail {lead b : UInt8} {bytes : List UInt8}
    (hb : b ∈ bytes.take (begunTail (lead :: bytes))) : tailLength? b = none := by
  cases hn : Nat.findGreatest (fun n => Begins ((lead :: bytes).take n)) (lead :: bytes).length with
  | zero =>
    rw [begunTail, hn] at hb
    cases hb
  | succ n =>
    have hbegins := Nat.findGreatest_of_ne_zero hn (Nat.succ_ne_zero n)
    obtain ⟨c, more, hc⟩ := hbegins
    rw [begunTail, hn] at hb
    exact tailLength?_of_mem_tail (encode_eq_iff.1 hc.symm) (List.mem_append_left more hb)

/-! ### Runs of places passed over -/

/-- Whether bytes are passed over before each character, and at the end. -/
def gaps : List (Option Char) → List Bool
  | [] => [false]
  | some _ :: ps => false :: gaps ps
  | none :: ps => true :: (gaps ps).tail

theorem tail_gaps_replicate (n : Nat) (ps : List (Option Char)) :
    (gaps (List.replicate n none ++ ps)).tail = (gaps ps).tail := by
  induction n with
  | zero => rfl
  | succ n ih => exact ih

/-- Some pieces and pieces that differ from them in that one place passed over may stand for
several. -/
inductive Expands : List (Option Char) → List (Option Char) → Prop
  /-- The end. -/
  | nil : Expands [] []
  /-- The same character. -/
  | char (c : Char) {ps qs : List (Option Char)} :
    Expands ps qs → Expands (some c :: ps) (some c :: qs)
  /-- One place, and as many more as there may be. -/
  | gap (n : Nat) {ps qs : List (Option Char)} :
    Expands ps qs → Expands (none :: ps) (none :: (List.replicate n none ++ qs))

/-- Where some bytes are passed over at once, they are passed over one by one. -/
theorem expands_pieces (bytes : List UInt8) : Expands (jointly bytes) (singly bytes) := by
  have h : ∀ bytes, Expands (pieces begunTail bytes) (singly bytes) := by
    intro bytes
    fun_induction pieces begunTail bytes with
    | case1 => rw [singly, pieces]; exact .nil
    | case2 b bytes c hc ih => rw [singly, pieces_of_char _ hc]; exact .char c ih
    | case3 b bytes hnone ih =>
      have htail : ∀ d ∈ bytes.take (begunTail (b :: bytes)), tailLength? d = none :=
        fun d hd => tailLength?_of_mem_begunTail hd
      have hsplit := singly_append htail (bytes.drop (begunTail (b :: bytes)))
      rw [List.take_append_drop] at hsplit
      rw [singly, pieces_of_none _ hnone, List.drop_zero, ← singly, hsplit]
      exact .gap _ ih
  exact h bytes

/-- The characters are the same. -/
theorem Expands.filterMap_eq {ps qs : List (Option Char)} (h : Expands ps qs) :
    ps.filterMap id = qs.filterMap id := by
  induction h with
  | nil => rfl
  | char c _ ih => simpa using ih
  | gap n _ ih => simpa [List.filterMap_append, List.filterMap_replicate] using ih

/-- Bytes are passed over at the same places. -/
theorem Expands.gaps_eq {ps qs : List (Option Char)} (h : Expands ps qs) : gaps ps = gaps qs := by
  induction h with
  | nil => rfl
  | char c _ ih => rw [gaps, gaps, ih]
  | gap n _ ih => rw [gaps, gaps, tail_gaps_replicate, ih]

end Utf8

/-! ### Reading -/

namespace Spine

open Utf8

/-- U+FFFD has no effect, but it ends a word. -/
theorem read_append_replacement (z : Spine) (cs rest : List Char) :
    z.read (cs ++ '\uFFFD' :: rest) = (z.read cs).read rest := by
  rw [read_append_mark _ _ (by decide), step_of_not_isSignificant _ (by decide)]

theorem read_replicate_none (z : Spine) (n : Nat) (ps : List (Option Char)) :
    z.read (text (List.replicate n none ++ ps)) = z.read (text ps) := by
  induction n with
  | zero => rfl
  | succ n ih =>
    have htext : text (List.replicate (n + 1) none ++ ps)
        = [] ++ '\uFFFD' :: text (List.replicate n none ++ ps) := rfl
    rw [htext, read_append_replacement, read_nil, ih]

/-- The lengths of runs of U+FFFD make no difference. -/
theorem read_text_of_expands {ps qs : List (Option Char)} (h : Expands ps qs) :
    ∀ (z : Spine) (cs : List Char), z.read (cs ++ text ps) = z.read (cs ++ text qs) := by
  induction h with
  | nil =>
    intro z cs
    rfl
  | @char c ps qs _ ih =>
    intro z cs
    -- the character may go on with the word before it
    have htext (rs : List (Option Char)) : cs ++ text (some c :: rs) = cs ++ [c] ++ text rs := by
      simp [text]
    rw [htext, htext, ih]
  | @gap n ps qs _ ih =>
    intro z cs
    have htext (rs : List (Option Char)) : text (none :: rs) = '\uFFFD' :: text rs := rfl
    rw [htext, htext, read_append_replacement, read_append_replacement, read_replicate_none]
    exact ih (z.read cs) []

end Spine

/-! ### The answers of a byte source -/

/-- The answers are kept one after the other. -/
theorem KeepsAnswers.events {σ τ ε : Type} [CharSource σ ε] [CharSource τ ε] {f : σ → τ}
    (hf : KeepsAnswers f) (n : Nat) :
    ∀ s : σ, CharSource.events (f s) n = CharSource.events s n := by
  induction n with
  | zero =>
    intro s
    rfl
  | succ n ih =>
    intro s
    have hfirst : CharSource.event (f s) 0 = CharSource.event s 0 := by
      rw [CharSource.event, CharSource.event, CharSource.after, CharSource.after, hf s]
    rw [CharSource.events_succ, CharSource.events_succ, hfirst, hf s, ih]

/-- Characters are answered one after the other, and then the end of the input. -/
theorem Feed.events_map_char {ε : Type} (cs : List Char) :
    CharSource.events (cs.map .char : Feed ε) (cs.length + 1) = cs.map .char ++ [.stop] := by
  induction cs with
  | nil => rfl
  | cons c cs ih =>
    rw [List.length_cons, CharSource.events_succ]
    exact congrArg (Event.char c :: ·) ih

/-- A byte source answers one U+FFFD for each byte that it passes over. -/
theorem ByteSource.events_ofReader {reader : Reader} (hpause : reader.NeverPauses)
    (hfail : reader.failure? = none) :
    CharSource.events (ByteSource.ofReader reader) ((Utf8.singly reader.bytes).length + 1)
      = (Utf8.text (Utf8.singly reader.bytes)).map .char ++ [.stop] := by
  have hdecode : (ByteSource.ofReader reader).events.decode
      = (Utf8.text (Utf8.singly reader.bytes)).map .char := by
    have hevents : (ByteSource.ofReader reader).events = reader.events := rfl
    rw [hevents, Reader.events_of_failure?_eq_none hpause hfail, ByteFeed.decode_bytes,
      Utf8.text_singly]
  have hlength : (Utf8.singly reader.bytes).length
      = (Utf8.text (Utf8.singly reader.bytes)).length := by
    rw [Utf8.text, List.length_map]
  rw [← ByteSource.keepsAnswers_decode.events, hdecode, hlength, Feed.events_map_char]

/-- The text of some bytes reads alike whichever way they are decoded. -/
theorem parse_characters (bytes : List UInt8) :
    parse (String.ofList (Utf8.characters bytes)) = parse (Utf8.lossy bytes) := by
  have h := Spine.read_text_of_expands (Utf8.expands_pieces bytes) {} []
  rw [List.nil_append, List.nil_append, Utf8.text_singly] at h
  rw [parse_eq_read, parse_eq_read, Utf8.lossy, String.toList_ofList, String.toList_ofList, h]

/-- **A reader is read as the text of its bytes that is decoded the usual way.**  Its source decodes
another text, which has the same characters and differs in the lengths of the runs of U+FFFD between
them, but not in where these are. -/
theorem parseReader_lossy :
    (∀ reader : Reader, reader.NeverPauses → reader.failure? = none →
      parseReader reader = .ok (parse (Utf8.lossy reader.bytes)) ∧
        CharSource.events (ByteSource.ofReader reader) ((Utf8.singly reader.bytes).length + 1)
          = (Utf8.text (Utf8.singly reader.bytes)).map .char ++ [.stop]) ∧
      ∀ bytes : List UInt8,
        (Utf8.singly bytes).filterMap id = (Utf8.jointly bytes).filterMap id ∧
          Utf8.gaps (Utf8.singly bytes) = Utf8.gaps (Utf8.jointly bytes) := by
  constructor
  · intro reader hpause hfail
    constructor
    · rw [parseReader_of_failure?_eq_none hpause hfail, parse_characters]
    · exact ByteSource.events_ofReader hpause hfail
  · intro bytes
    have hexpands := Utf8.expands_pieces bytes
    exact ⟨hexpands.filterMap_eq.symm, hexpands.gaps_eq.symm⟩

/-- Two bytes of a character that takes three, in different pieces. -/
theorem parseReader_lossy_custard :
    let reader : Reader := [.data [0x63, 0x72, 0xE2], .data [0x82, 0x6D]]
    reader.NeverPauses ∧ reader.failure? = none ∧ Utf8.lossy reader.bytes = "cr\uFFFDm" ∧
      parseReader reader = .ok (parse "cr\uFFFDm") ∧
        CharSource.events (ByteSource.ofReader reader) 6
          = [.char 'c', .char 'r', .char '\uFFFD', .char '\uFFFD', .char 'm', .stop] := by
  intro reader
  have hpause : reader.NeverPauses := by
    simp [reader, Reader.NeverPauses]
  have hlossy : Utf8.lossy reader.bytes = "cr\uFFFDm" := by
    decide +kernel
  have hsingly : Utf8.singly reader.bytes = [some 'c', some 'r', none, none, some 'm'] := by
    decide +kernel
  obtain ⟨hparse, hevents⟩ := parseReader_lossy.1 reader hpause rfl
  rw [hlossy] at hparse
  rw [hsingly] at hevents
  exact ⟨hpause, rfl, hlossy, hparse, hevents⟩

end BooleanSearch
