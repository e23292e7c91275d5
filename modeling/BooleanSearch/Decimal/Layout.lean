import BooleanSearch.Decimal.Shortest

/-!
# The layout of decimals

A decimal is written either positionally, with a point and no exponent, or with the point behind
its first digit and the exponent of that digit.  A layout says which of the two it is.  No zero
stands last behind the point, unless it is the only digit there.

## Main definitions

* `Decimal.leading` — the exponent of the first digit.
* `Decimal.positional`, `Decimal.scientific` — the two ways to write a decimal.
* `Decimal.Layout` — the decimals that are written positionally.
* `Decimal.Layout.text` — the text of a decimal.
* `Decimal.Layout.floatText` — the text of a floating-point number.
-/

namespace BooleanSearch

namespace Decimal

/-- The digits of a decimal, most significant first. -/
def digitList (d : Decimal) : List Char :=
  Nat.toDigits 10 d.digits

/-- The exponent of the first digit. -/
def leading (d : Decimal) : Int :=
  d.exponent + d.digitList.length - 1

/-- Digits without the zeros at their end. -/
def trimZeros (digits : List Char) : List Char :=
  (digits.reverse.dropWhile (· == '0')).reverse

/-- Digits with a point in front of the last `places` of them.  At least one digit stands on
either side. -/
def withPoint (digits places : Nat) : String :=
  let whole := digits / Nat.pow 10 places
  -- the leading one keeps the zeros behind the point
  let part := trimZeros ((Nat.toDigits 10 (Nat.pow 10 places + digits % Nat.pow 10 places)).drop 1)
  toString whole ++ "." ++ if part.isEmpty then "0" else String.ofList part

/-- A decimal written with a point and without an exponent. -/
def positional (d : Decimal) : String :=
  withPoint (d.digits * Nat.pow 10 d.exponent.toNat) (-d.exponent).toNat

/-- A decimal written with the exponent of its first digit.  The exponent always has a sign, and a
point stands only in front of further digits. -/
def scientific (d : Decimal) : String :=
  let first := d.digitList.take 1
  let rest := trimZeros (d.digitList.drop 1)
  String.ofList (if rest.isEmpty then first else first ++ '.' :: rest) ++
    (if d.leading < 0 then "e-" else "e+") ++ toString d.leading.natAbs

/-- The decimals that are written positionally: those whose first digit has an exponent between
two bounds. -/
structure Layout where
  /-- The lowest exponent. -/
  least : Int
  /-- The highest exponent. -/
  greatest : Int
  deriving DecidableEq, Repr

namespace Layout

/-- The text of a decimal. -/
def text (l : Layout) (d : Decimal) : String :=
  if l.least ≤ d.leading ∧ d.leading ≤ l.greatest then d.positional else d.scientific

/-- The text of a floating-point number: its shortest decimal, with its sign. -/
def floatText (l : Layout) (x : Float) : String :=
  if x.isNaN then "NaN"
  else
    let sign := if Nat.pow 2 63 ≤ x.toBits.toNat then "-" else ""
    sign ++ if x.isInf then "inf" else l.text (shortestDecimal x)

end Layout

end Decimal

end BooleanSearch
