/-!
# UTF-8

The encoding of one character as a lead byte and up to three continuation bytes.  The lead byte
alone settles how many continuation bytes belong to it.

## Main definitions

* `Utf8.tailLength?` — the number of continuation bytes that a lead byte calls for.
* `Utf8.decode?` — the character of a lead byte and the bytes that follow it.
-/

namespace BooleanSearch

namespace Utf8

/-- The number of continuation bytes that a lead byte calls for, or `none` if no character starts
with the byte. -/
def tailLength? (lead : UInt8) : Option Nat :=
  if lead.toNat ≤ 0x7F then some 0
  else if 0xC2 ≤ lead.toNat ∧ lead.toNat ≤ 0xDF then some 1
  else if 0xE0 ≤ lead.toNat ∧ lead.toNat ≤ 0xEF then some 2
  else if 0xF0 ≤ lead.toNat ∧ lead.toNat ≤ 0xF4 then some 3
  else none

theorem tailLength?_le {lead : UInt8} {n : Nat} (h : tailLength? lead = some n) : n ≤ 3 := by
  unfold tailLength? at h
  split at h
  · cases h; omega
  split at h
  · cases h; omega
  split at h
  · cases h; omega
  split at h
  · cases h; omega
  · cases h

/-- Appends the six bits of a continuation byte to the bits read so far. -/
def continue? (bits : Nat) (byte : UInt8) : Option Nat :=
  if 0x80 ≤ byte.toNat ∧ byte.toNat ≤ 0xBF then some (bits * 64 + (byte.toNat - 0x80))
  else none

/-- The character of a code point.  The code point has to be at least `least`, since a smaller one
has a shorter encoding, and it must not be a surrogate. -/
def scalar? (least n : Nat) : Option Char :=
  if least ≤ n ∧ n.isValidChar then some (Char.ofNat n) else none

/-- The character that a lead byte encodes together with exactly the given continuation bytes. -/
def decode? (lead : UInt8) (tail : List UInt8) : Option Char :=
  match tailLength? lead, tail with
  | some 0, [] => scalar? 0 lead.toNat
  | some 1, [b] => do
    let n ← continue? (lead.toNat - 0xC0) b
    scalar? 0x80 n
  | some 2, [b, c] => do
    let n ← continue? (lead.toNat - 0xE0) b
    let n ← continue? n c
    scalar? 0x800 n
  | some 3, [b, c, d] => do
    let n ← continue? (lead.toNat - 0xF0) b
    let n ← continue? n c
    let n ← continue? n d
    scalar? 0x10000 n
  | _, _ => none

end Utf8

end BooleanSearch
