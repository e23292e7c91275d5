import BooleanSearch.Json.Basic

/-!
# Number literals

What number a literal stands for.  An integer that fits in 64 bits is taken as it is.  Any other
literal is a floating-point number, which is reckoned quickly and not always exactly: the digits
are read as a number of 64 bits for as long as they fit, that number is rounded, and then it is
multiplied or divided by a power of ten, which rounds again.

## Main definitions

* `Json.Numeral` — the parts of a literal.
* `Json.Numeral.significand` — the digits that count, and the power of ten that goes with them.
* `Json.scale?` — a floating-point number times a power of ten, unless that is too large.
* `Json.Numeral.number?` — the number of a literal.
-/

namespace BooleanSearch

namespace Json

/-- A number literal, in its parts. -/
structure Numeral where
  /-- Whether a minus sign stands in front. -/
  negative : Bool
  /-- The digits in front of the point. -/
  whole : List Nat
  /-- The digits behind the point, of which there are none only if there is no point. -/
  places : List Nat
  /-- The exponent, if there is one. -/
  exponent? : Option Int
  deriving DecidableEq, Repr

/-- Puts digits to the end of a number for as long as it stays below `2 ^ 64`.  The digits from
the first one on for which there is no room are left. -/
def absorb (n : Nat) : List Nat → Nat × List Nat
  | [] => (n, [])
  | d :: ds => if 10 * n + d < Nat.pow 2 64 then absorb (10 * n + d) ds else (n, d :: ds)

/-- The largest power of ten that is a floating-point number has this exponent. -/
def maxTenPower : Nat := 308

/-- A power of ten, rounded to a floating-point number. -/
def tenPower (n : Nat) : Float :=
  Float.ofScientific 1 false n

/-- A number divided by `10 ^ n`, in steps if that is too large a divisor. -/
def shiftRight (x : Float) (n : Nat) : Float :=
  if n ≤ maxTenPower then x / tenPower n
  else if x == 0 then x
  else shiftRight (x / tenPower maxTenPower) (n - maxTenPower)
termination_by n
decreasing_by simp only [maxTenPower] at *; omega

/-- A number multiplied by `10 ^ n`, unless that is too large. -/
def shiftLeft? (x : Float) (n : Nat) : Option Float :=
  if n ≤ maxTenPower then
    let y := x * tenPower n
    if y.isInf then none else some y
  else if x == 0 then some x
  else none

/-- A number times a power of ten, unless that is too large. -/
def scale? (x : Float) (exponent : Int) : Option Float :=
  if exponent < 0 then some (shiftRight x exponent.natAbs) else shiftLeft? x exponent.natAbs

namespace Numeral

/-- Whether a literal is written as an integer, with neither a point nor an exponent. -/
def IsInteger (l : Numeral) : Prop := l.places = [] ∧ l.exponent? = none

instance (l : Numeral) : Decidable l.IsInteger := inferInstanceAs (Decidable (_ ∧ _))

/-- The digits of a literal that count, as one number, and the power of ten that goes with them.
Digits in front of the point for which there is no room still raise the power; those behind the
point are lost. -/
def significand (l : Numeral) : Nat × Int :=
  let (n, dropped) := absorb 0 l.whole
  let (m, lost) := absorb n l.places
  (m, dropped.length - (l.places.length - lost.length) + l.exponent?.getD 0)

/-- The number of a literal, unless that is too large.  Minus zero is not an integer. -/
def number? (l : Numeral) : Option Number :=
  let (m, exponent) := l.significand
  let n : Int := if l.negative then -m else m
  if l.IsInteger ∧ exponent = 0 ∧ Number.Fits n ∧ ¬(l.negative ∧ m = 0) then
    some (.integer n)
  else do
    let x ← scale? (Float.ofNat m) exponent
    return .float (if l.negative then -x else x)

end Numeral

end Json

end BooleanSearch
