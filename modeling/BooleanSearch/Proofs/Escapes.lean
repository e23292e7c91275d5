import BooleanSearch.Proofs.PrefixFree
import BooleanSearch.Text.Quoted
import Mathlib.Data.Nat.Digits.Defs

/-!
# Quoted text can be read back

Between double quotes every character is written as itself, as a backslash and one more character,
or as a backslash and its code point in braces.  Which of these it is shows by the first two
characters, so the characters can be read back one by one, and texts with the same quoted form are
the same.  A quoted text fits on one line, since a line break in it is written with a letter.

## Main definitions

* `Quoted.hexValue` — the value of hexadecimal digits.
* `Quoted.unescape` — reads a character back, and gives the text behind it.

## Main results

* `Quoted.unescape_escape` — what was written for a character is read as this character.
* `quoted_inj` — texts with the same quoted form are the same.
* `newline_not_mem_quoted` — a quoted text has no line break.
-/

namespace BooleanSearch

namespace Quoted

/-! ### Code points -/

/-- The value of a hexadecimal digit. -/
def hexDigitValue (d : Char) : Nat :=
  if d.isDigit then d.toNat - '0'.toNat else 10 + (d.toNat - 'a'.toNat)

/-- The value of hexadecimal digits, most significant first. -/
def hexValue (ds : List Char) : Nat :=
  ds.foldl (fun n d => 16 * n + hexDigitValue d) 0

theorem hexDigitValue_digitChar : ∀ n < 16, hexDigitValue n.digitChar = n := by
  decide

/-- The digits of a number, from those of its sixteenth part. -/
theorem hexDigits_of_le {n : Nat} (h : 16 ≤ n) :
    hexDigits n = hexDigits (n / 16) ++ [(n % 16).digitChar] :=
  Nat.toDigits_of_base_le (by decide) h

theorem hexDigits_of_lt {n : Nat} (h : n < 16) : hexDigits n = [n.digitChar] :=
  Nat.toDigits_of_lt_base h

/-- The digits of a number have its value. -/
theorem hexValue_hexDigits (n : Nat) : hexValue (hexDigits n) = n := by
  induction n using Nat.strong_induction_on with
  | _ n ih =>
    rcases Nat.lt_or_ge n 16 with hlt | hge
    · rw [hexDigits_of_lt hlt, hexValue, List.foldl_cons, List.foldl_nil,
        hexDigitValue_digitChar n hlt, Nat.mul_zero, Nat.zero_add]
    · have hhigh : hexValue (hexDigits (n / 16)) = n / 16 := ih (n / 16) (by omega)
      have hlow : hexDigitValue (n % 16).digitChar = n % 16 :=
        hexDigitValue_digitChar _ (Nat.mod_lt n (by decide))
      rw [hexValue] at hhigh
      rw [hexDigits_of_le hge, hexValue, List.foldl_append, hhigh, List.foldl_cons, List.foldl_nil,
        hlow, Nat.div_add_mod]

/-- Every digit is that of a number below sixteen. -/
theorem exists_of_mem_hexDigits (n : Nat) : ∀ d ∈ hexDigits n, ∃ k < 16, d = k.digitChar := by
  induction n using Nat.strong_induction_on with
  | _ n ih =>
    intro d hd
    rcases Nat.lt_or_ge n 16 with hlt | hge
    · rw [hexDigits_of_lt hlt, List.mem_singleton] at hd
      exact ⟨n, hlt, hd⟩
    · rw [hexDigits_of_le hge, List.mem_append, List.mem_singleton] at hd
      rcases hd with hd | hd
      · exact ih (n / 16) (by omega) d hd
      · exact ⟨n % 16, Nat.mod_lt n (by decide), hd⟩

theorem digitChar_ne : ∀ k < 16, k.digitChar ≠ '\x7d' ∧ k.digitChar ≠ '\n' := by
  decide

/-! ### Characters -/

/-- Reads a character back from what stands between double quotes, and gives what comes behind
it. -/
def unescape : List Char → Option (Char × List Char)
  | [] => none
  | '\\' :: 'n' :: rest => some ('\n', rest)
  | '\\' :: 'r' :: rest => some ('\r', rest)
  | '\\' :: 't' :: rest => some ('\t', rest)
  | '\\' :: '0' :: rest => some ('\x00', rest)
  | '\\' :: 'u' :: '\x7b' :: rest =>
    some (Char.ofNat (hexValue (rest.takeWhile (· != '\x7d'))),
      (rest.dropWhile (· != '\x7d')).tail)
  | '\\' :: c :: rest => some (c, rest)
  | c :: rest => some (c, rest)

/-- A code point in braces is read back. -/
theorem unescape_code (c : Char) (rest : List Char) :
    unescape (['\\', 'u', '\x7b'] ++ hexDigits c.toNat ++ ['\x7d'] ++ rest) = some (c, rest) := by
  have hdigits : ∀ d ∈ hexDigits c.toNat, (d != '\x7d') = true := by
    intro d hd
    obtain ⟨k, hk, rfl⟩ := exists_of_mem_hexDigits _ d hd
    exact bne_iff_ne.2 (digitChar_ne k hk).1
  have hstop : ∀ x : List Char, ('\x7d' :: x).takeWhile (· != '\x7d') = [] ∧
      ('\x7d' :: x).dropWhile (· != '\x7d') = '\x7d' :: x := by
    intro x
    simp
  have htext : ['\\', 'u', '\x7b'] ++ hexDigits c.toNat ++ ['\x7d'] ++ rest
      = '\\' :: 'u' :: '\x7b' :: (hexDigits c.toNat ++ '\x7d' :: rest) := by
    simp
  rw [htext, unescape, List.takeWhile_append_of_pos hdigits, List.dropWhile_append_of_pos hdigits,
    (hstop rest).1, (hstop rest).2, List.append_nil, hexValue_hexDigits, List.tail_cons,
    Char.ofNat_toNat]

/-- What was written for a character is read as this character. -/
theorem unescape_escape (c : Char) (rest : List Char) :
    unescape (escape '"' c ++ rest) = some (c, rest) := by
  unfold escape
  split
  · next h => rcases h with rfl | rfl <;> rfl
  split
  · next h => rw [h]; rfl
  split
  · next h => rw [h]; rfl
  split
  · next h => rw [h]; rfl
  split
  · next h => rw [h]; rfl
  split
  · exact unescape_code c rest
  · next hmark _ _ _ _ _ =>
    have hbackslash : c ≠ '\\' := fun h => hmark (Or.inr h)
    rw [List.singleton_append, unescape]
    -- every other way to read a character begins with a backslash
    all_goals
      intros
      contradiction

/-- What is written for characters can be told apart. -/
theorem escape_prefixFree (c d : Char) : PrefixFree (fun _ => True) (escape '"') c d := by
  intro r s _ _ h
  have hread : some (c, r) = some (d, s) := by
    rw [← unescape_escape, ← unescape_escape, h]
  exact Prod.mk.inj (Option.some.inj hread)

theorem escape_ne_nil (c : Char) : escape '"' c ≠ [] := by
  intro h
  have hread := unescape_escape c []
  rw [h] at hread
  cases hread

/-- A line break is written with a letter. -/
theorem newline_not_mem_escape (c : Char) : '\n' ∉ escape '"' c := by
  unfold escape
  split
  · next h => rcases h with rfl | rfl <;> decide
  split
  · decide
  split
  · decide
  split
  · decide
  split
  · decide
  split
  · intro hmem
    rcases List.mem_append.1 hmem with hmem | hmem
    · rcases List.mem_append.1 hmem with hmem | hmem
      · revert hmem
        decide
      · obtain ⟨k, hk, hd⟩ := exists_of_mem_hexDigits _ _ hmem
        exact (digitChar_ne k hk).2 hd.symm
    · revert hmem
      decide
  · next _ hnewline _ _ _ _ =>
    rw [List.mem_singleton]
    exact fun h => hnewline h.symm

end Quoted

open Quoted

theorem toList_quoted (s : String) :
    (quoted s).toList = '"' :: (s.toList.flatMap (escape '"') ++ ['"']) := by
  rw [quoted, String.toList_ofList, enclose, List.cons_append]

/-- **Texts with the same quoted form are the same.** -/
theorem quoted_inj {s t : String} (h : quoted s = quoted t) : s = t := by
  have htext := congrArg String.toList h
  rw [toList_quoted, toList_quoted] at htext
  have hescapes := List.append_cancel_right (List.cons.inj htext).2
  have hchars := flatMap_inj escape_ne_nil (fun c _ d _ => escape_prefixFree c d) hescapes
  exact String.toList_inj.1 hchars

/-- A quoted text has no line break. -/
theorem newline_not_mem_quoted (s : String) : '\n' ∉ (quoted s).toList := by
  rw [toList_quoted, List.mem_cons, List.mem_append, List.mem_singleton, List.mem_flatMap]
  rintro (h | ⟨c, -, h⟩ | h)
  · cases h
  · exact newline_not_mem_escape c h
  · cases h

end BooleanSearch
