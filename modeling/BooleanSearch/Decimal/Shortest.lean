/-!
# Shortest decimals

Every finite binary floating-point number has decimals that are read back as that number.  The
shortest of them is the one on the coarsest decimal grid that has such a decimal at all; of two on
that grid it is the nearer one, and the even one if both are equally near.

All comparisons are made on natural numbers, so nothing is rounded on the way.

## Main definitions

* `Decimal` — a decimal without sign, `digits * 10 ^ exponent`.
* `RoundingInterval` — the numbers that are read back as a given one.
* `RoundingInterval.shortest` — the shortest decimal of an interval.
* `shortestDecimal` — the shortest decimal of a floating-point number.
-/

namespace BooleanSearch

/-- The number `digits * 10 ^ exponent`. -/
structure Decimal where
  /-- The number without its power of ten. -/
  digits : Nat
  /-- The power of ten. -/
  exponent : Int
  deriving DecidableEq, Repr

/-- The numbers between two bounds around a positive value, all of them as multiples of one power
of two. -/
structure RoundingInterval where
  /-- The value. -/
  value : Nat
  /-- The lower bound. -/
  low : Nat
  /-- The upper bound. -/
  high : Nat
  /-- Whether the bounds themselves belong to the interval. -/
  closed : Bool
  /-- The exponent of the power of two. -/
  scale : Int
  deriving DecidableEq, Repr

namespace RoundingInterval

/-- The numbers that round to `m * 2 ^ q`, where `m` has at most 53 bits.  The unit is a quarter of
`2 ^ q`, because the gap below a power of two may be half as wide as the gap above it; `lowest`
says that the gap below is as wide as the gap above all the same. -/
def around (m : Nat) (q : Int) (lowest : Bool) : RoundingInterval where
  value := 4 * m
  low := if m = Nat.pow 2 52 && !lowest then 4 * m - 1 else 4 * m - 2
  high := 4 * m + 2
  closed := m % 2 == 0
  scale := q - 2

/-- The factors that turn a multiple of the unit into a multiple of `10 ^ k`: the first multiplies
the count of units, the second divides it. -/
def factors (i : RoundingInterval) (k : Int) : Nat × Nat :=
  (Nat.pow 2 i.scale.toNat * Nat.pow 10 (-k).toNat,
    Nat.pow 2 (-i.scale).toNat * Nat.pow 10 k.toNat)

/-- The exponent of the leading decimal digit of the value. -/
def leading (i : RoundingInterval) : Int :=
  let (up, down) := i.factors 0
  let guess : Int := (toString (i.value * up)).length - (toString down).length
  let (up, down) := i.factors guess
  if down ≤ i.value * up then guess else guess - 1

/-- The decimal of the interval on the grid of the multiples of `10 ^ k` that lies nearest to the
value, if one of the two neighbours of the value on that grid belongs to the interval. -/
def onGrid? (i : RoundingInterval) (k : Int) : Option Decimal :=
  let (up, down) := i.factors k
  let mem (d : Nat) : Bool :=
    if i.closed then i.low * up ≤ d * down && d * down ≤ i.high * up
    else i.low * up < d * down && d * down < i.high * up
  let below := i.value * up / down
  let above := below + 1
  if mem below && mem above then
    match compare (2 * (i.value * up)) ((below + above) * down) with
    | .lt => some ⟨below, k⟩
    | .gt => some ⟨above, k⟩
    -- in the middle between the two, the even one
    | .eq => some ⟨if below % 2 = 0 then below else above, k⟩
  else if mem below then some ⟨below, k⟩
  else if mem above then some ⟨above, k⟩
  else none

/-- The shortest decimal of the interval.  Seventeen digits are always enough. -/
def shortest (i : RoundingInterval) : Decimal :=
  ((List.range 17).findSome? fun (n : Nat) => i.onGrid? (i.leading - n)).getD ⟨0, 0⟩

end RoundingInterval

/-- The significand and the exponent of the magnitude of a finite number, and whether no smaller
exponent exists. -/
def floatParts (x : Float) : Nat × Int × Bool :=
  let bits := x.toBits.toNat
  let biased : Nat := bits / Nat.pow 2 52 % Nat.pow 2 11
  let fraction := bits % Nat.pow 2 52
  if biased = 0 then (fraction, -1074, true)
  else (Nat.pow 2 52 + fraction, (biased : Int) - 1075, biased == 1)

/-- The shortest decimal of the magnitude of a finite number. -/
def shortestDecimal (x : Float) : Decimal :=
  let (m, q, lowest) := floatParts x
  if m = 0 then ⟨0, 0⟩ else (RoundingInterval.around m q lowest).shortest

end BooleanSearch
