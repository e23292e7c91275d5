import BooleanSearch.Source.Bytes
import Mathlib.Tactic.SplitIfs

/-!
# The characters of bytes

Decoding is the inverse of encoding: a lead byte and its continuation bytes are decoded to a
character exactly if they are its encoding.  So the bytes of a text fall apart into characters in
one way only, and where no encoding begins, one byte is passed over.

## Main definitions

* `Utf8.leading?` — the character whose encoding some bytes begin with.
* `Utf8.characters` — the characters of some bytes.

## Main results

* `Utf8.decode?_eq_some_iff` — decoding is the inverse of encoding.
* `Utf8.leading?_eq_some_iff` — the leading character is the one whose encoding comes first.
* `Utf8.characters_flatMap_encode` — the characters of the encoding of a text.
-/

namespace BooleanSearch

namespace Utf8

/-! ### Decoding and encoding -/

theorem scalar?_eq_some_iff {least n : Nat} {c : Char} :
    scalar? least n = some c ↔ least ≤ n ∧ n = c.toNat := by
  constructor
  · intro h
    unfold scalar? at h
    split at h
    · next hn =>
      cases h
      refine ⟨hn.1, ?_⟩
      rw [Char.ofNat, dif_pos hn.2]
      rfl
    · cases h
  · rintro ⟨hle, rfl⟩
    have hvalid : c.toNat.isValidChar := c.valid
    rw [scalar?, if_pos ⟨hle, hvalid⟩, Char.ofNat_toNat]

theorem continue?_eq_some_iff {bits n : Nat} {byte : UInt8} :
    continue? bits byte = some n ↔
      0x80 ≤ byte.toNat ∧ byte.toNat ≤ 0xBF ∧ n = bits * 64 + (byte.toNat - 0x80) := by
  unfold continue?
  split
  · next h => simp [h, eq_comm]
  · next h =>
    constructor
    · intro hn
      cases hn
    · rintro ⟨h₁, h₂, -⟩
      exact absurd ⟨h₁, h₂⟩ h

theorem tailLength?_eq_some_iff {lead : UInt8} {n : Nat} :
    tailLength? lead = some n ↔
      n = 0 ∧ lead.toNat ≤ 0x7F ∨ n = 1 ∧ 0xC2 ≤ lead.toNat ∧ lead.toNat ≤ 0xDF ∨
        n = 2 ∧ 0xE0 ≤ lead.toNat ∧ lead.toNat ≤ 0xEF ∨
          n = 3 ∧ 0xF0 ≤ lead.toNat ∧ lead.toNat ≤ 0xF4 := by
  unfold tailLength?
  split_ifs <;> simp only [Option.some.injEq, false_iff] <;> omega

/-- The bytes that make up a character, by the size of the character. -/
def IsEncoding (c : Char) : List UInt8 → Prop
  | [b₀] => c.toNat ≤ 0x7F ∧ b₀.toNat = c.toNat
  | [b₀, b₁] =>
    (0x80 ≤ c.toNat ∧ c.toNat ≤ 0x7FF) ∧
      b₀.toNat = c.toNat / 64 + 0xC0 ∧ b₁.toNat = c.toNat % 64 + 0x80
  | [b₀, b₁, b₂] =>
    (0x800 ≤ c.toNat ∧ c.toNat ≤ 0xFFFF) ∧ b₀.toNat = c.toNat / 4096 + 0xE0 ∧
      b₁.toNat = c.toNat / 64 % 64 + 0x80 ∧ b₂.toNat = c.toNat % 64 + 0x80
  | [b₀, b₁, b₂, b₃] =>
    0x10000 ≤ c.toNat ∧ b₀.toNat = c.toNat / 262144 + 0xF0 ∧
      b₁.toNat = c.toNat / 4096 % 64 + 0x80 ∧
        b₂.toNat = c.toNat / 64 % 64 + 0x80 ∧ b₃.toNat = c.toNat % 64 + 0x80
  | _ => False

theorem toNat_le (c : Char) : c.toNat ≤ 0x10FFFF := by
  have h := c.valid
  have hv : c.val.toNat = c.toNat := rfl
  simp only [UInt32.isValidChar, Nat.isValidChar, hv] at h
  omega

theorem encode_eq_iff {c : Char} {bytes : List UInt8} :
    String.utf8EncodeChar c = bytes ↔ IsEncoding c bytes := by
  have hle := toNat_le c
  have hv : c.val.toNat = c.toNat := rfl
  unfold String.utf8EncodeChar
  simp only [hv]
  -- each range of characters against each number of bytes
  rcases bytes with _ | ⟨b₀, _ | ⟨b₁, _ | ⟨b₂, _ | ⟨b₃, _ | ⟨b₄, bytes⟩⟩⟩⟩⟩
  all_goals
    simp only [IsEncoding]
    split_ifs <;>
      simp only [List.cons.injEq, and_true, reduceCtorEq, and_false, false_iff,
        ← UInt8.toNat_inj, UInt8.toNat_ofNat'] <;>
      omega

/-- A lead byte that calls for another number of bytes decodes to nothing. -/
theorem tailLength?_of_decode? {lead : UInt8} {tail : List UInt8} {c : Char}
    (h : decode? lead tail = some c) : tailLength? lead = some tail.length := by
  unfold decode? at h
  split at h
  · next hl => exact hl
  · next hl => exact hl
  · next hl => exact hl
  · next hl => exact hl
  · cases h

theorem tailLength?_of_isEncoding {lead : UInt8} {tail : List UInt8} {c : Char}
    (h : IsEncoding c (lead :: tail)) : tailLength? lead = some tail.length := by
  have hle := toNat_le c
  rw [tailLength?_eq_some_iff]
  rcases tail with _ | ⟨b₁, _ | ⟨b₂, _ | ⟨b₃, _ | ⟨b₄, tail⟩⟩⟩⟩
  · rw [IsEncoding] at h
    rw [List.length_nil]
    omega
  · rw [IsEncoding] at h
    rw [List.length_singleton]
    omega
  · rw [IsEncoding] at h
    rw [List.length_cons, List.length_singleton]
    omega
  · rw [IsEncoding] at h
    rw [List.length_cons, List.length_cons, List.length_singleton]
    omega
  · cases h

section

variable {lead b₁ b₂ b₃ : UInt8} {c : Char}

theorem decode?_one_iff (hl : tailLength? lead = some 0) :
    decode? lead [] = some c ↔ IsEncoding c [lead] := by
  have hlead := tailLength?_eq_some_iff.1 hl
  simp only [decode?, hl, IsEncoding, scalar?_eq_some_iff]
  omega

-- In the other cases the bits that were read after each byte are those of the character, shifted
-- to the right.

theorem decode?_two_iff (hl : tailLength? lead = some 1) :
    decode? lead [b₁] = some c ↔ IsEncoding c [lead, b₁] := by
  have hle := toNat_le c
  have hlead := tailLength?_eq_some_iff.1 hl
  simp only [decode?, hl, IsEncoding, Option.bind_eq_bind, Option.bind_eq_some_iff,
    continue?_eq_some_iff, scalar?_eq_some_iff]
  constructor
  · rintro ⟨n, hn⟩
    omega
  · intro hc
    refine ⟨c.toNat, ?_⟩
    omega

theorem decode?_three_iff (hl : tailLength? lead = some 2) :
    decode? lead [b₁, b₂] = some c ↔ IsEncoding c [lead, b₁, b₂] := by
  have hle := toNat_le c
  have hlead := tailLength?_eq_some_iff.1 hl
  simp only [decode?, hl, IsEncoding, Option.bind_eq_bind, Option.bind_eq_some_iff,
    continue?_eq_some_iff, scalar?_eq_some_iff]
  constructor
  · rintro ⟨n, hn, m, hm⟩
    omega
  · intro hc
    refine ⟨c.toNat / 64, ?_, c.toNat, ?_⟩ <;> omega

theorem decode?_four_iff (hl : tailLength? lead = some 3) :
    decode? lead [b₁, b₂, b₃] = some c ↔ IsEncoding c [lead, b₁, b₂, b₃] := by
  have hle := toNat_le c
  have hlead := tailLength?_eq_some_iff.1 hl
  simp only [decode?, hl, IsEncoding, Option.bind_eq_bind, Option.bind_eq_some_iff,
    continue?_eq_some_iff, scalar?_eq_some_iff]
  constructor
  · rintro ⟨n, hn, m, hm, k, hk⟩
    omega
  · intro hc
    refine ⟨c.toNat / 4096, ?_, c.toNat / 64, ?_, c.toNat, ?_⟩ <;> omega

end

theorem decode?_eq_some_iff_isEncoding {lead : UInt8} {tail : List UInt8} {c : Char} :
    decode? lead tail = some c ↔ IsEncoding c (lead :: tail) := by
  by_cases hl : tailLength? lead = some tail.length
  · rcases tail with _ | ⟨b₁, _ | ⟨b₂, _ | ⟨b₃, _ | ⟨b₄, tail⟩⟩⟩⟩
    · exact decode?_one_iff hl
    · exact decode?_two_iff hl
    · exact decode?_three_iff hl
    · exact decode?_four_iff hl
    · have h := tailLength?_le hl
      simp only [List.length_cons] at h
      omega
  · constructor
    · intro h
      exact absurd (tailLength?_of_decode? h) hl
    · intro h
      exact absurd (tailLength?_of_isEncoding h) hl

/-- Decoding is the inverse of encoding. -/
theorem decode?_eq_some_iff {lead : UInt8} {tail : List UInt8} {c : Char} :
    decode? lead tail = some c ↔ String.utf8EncodeChar c = lead :: tail := by
  rw [decode?_eq_some_iff_isEncoding, encode_eq_iff]

/-! ### The characters of bytes -/

/-- The character whose encoding some bytes begin with. -/
def leading? (bytes : List UInt8) : Option Char :=
  bytes.toByteArray.utf8DecodeChar? 0

theorem leading?_eq_some_iff {bytes : List UInt8} {c : Char} :
    leading? bytes = some c ↔ String.utf8EncodeChar c <+: bytes := by
  constructor
  · intro h
    obtain ⟨rest, hrest⟩ := ByteArray.exists_of_utf8DecodeChar?_eq_some h
    refine ⟨rest.data.toList, ?_⟩
    have hlist := congrArg (fun a => a.data.toList) hrest
    simpa using hlist.symm
  · rintro ⟨rest, rfl⟩
    rw [leading?, List.toByteArray_append, ByteArray.utf8DecodeChar?_utf8EncodeChar_append]

theorem length_encode_pos (c : Char) : 0 < (String.utf8EncodeChar c).length := by
  rw [String.length_utf8EncodeChar]
  exact c.utf8Size_pos

/-- The characters of some bytes.  A byte where no encoding begins stands for U+FFFD, and the next
character begins with the byte after it. -/
def characters : List UInt8 → List Char
  | [] => []
  | b :: bytes =>
    match leading? (b :: bytes) with
    | some c => c :: characters ((b :: bytes).drop (String.utf8EncodeChar c).length)
    | none => '\uFFFD' :: characters bytes
termination_by bytes => bytes.length
decreasing_by
  · have hpos := length_encode_pos c
    simp only [List.length_drop, List.length_cons]
    omega
  · exact Nat.lt_succ_self _

theorem characters_nil : characters [] = [] := by rw [characters]

theorem characters_encode_append (c : Char) (bytes : List UInt8) :
    characters (String.utf8EncodeChar c ++ bytes) = c :: characters bytes := by
  have hleading : leading? (String.utf8EncodeChar c ++ bytes) = some c :=
    leading?_eq_some_iff.2 (List.prefix_append _ _)
  have hdrop : (String.utf8EncodeChar c ++ bytes).drop (String.utf8EncodeChar c).length = bytes :=
    List.drop_left
  obtain ⟨b, rest, hcons⟩ : ∃ b rest, String.utf8EncodeChar c ++ bytes = b :: rest :=
    List.exists_cons_of_ne_nil (by simp)
  rw [hcons] at hleading hdrop ⊢
  rw [characters, hleading]
  simp only [hdrop]

/-- The characters of the encoding of a text are the text. -/
theorem characters_flatMap_encode (cs : List Char) :
    characters (cs.flatMap String.utf8EncodeChar) = cs := by
  induction cs with
  | nil => exact characters_nil
  | cons c cs ih => rw [List.flatMap_cons, characters_encode_append, ih]

end Utf8

end BooleanSearch
