import Componentry.Binary.Format

/-!
# Shortest decimal of a binary number

The reals that round to a finite binary number form an interval around it. The shortest decimal of
the number is the one on the coarsest decimal grid that meets the interval; if two points of that
grid lie in it, the nearer one, and the upper one if they are equally near.

## Main definitions

* `Decimal` is a decimal significand with a power of ten
* `Decimal.Interval` is a number between the two midpoints to its neighbours
* `Decimal.Interval.onGrid` is the best point of one decimal grid in the interval
* `Decimal.shortest` searches the grids from coarse to fine
* `Decimal.text` writes a decimal without an exponent
-/

namespace Componentry

/-- The number `significand * 10 ^ exponent`. -/
structure Decimal where
  significand : Nat
  exponent : Int
  deriving DecidableEq

namespace Decimal

/-- The power of ten with the given exponent. -/
def pow10 (k : Nat) : Nat := Nat.pow 10 k

/-- A number with the midpoints to its lower and upper neighbour. All three are given as whole
multiples of `2 ^ exponent`; `closed` tells whether the midpoints themselves round to the number. -/
structure Interval where
  low : Nat
  value : Nat
  high : Nat
  exponent : Int
  closed : Bool

namespace Interval

/-- The interval of reals that round to `significand * 2 ^ scale` units of the format. The gap below
a power of two is half the gap above it, but for the least powers, and ties go to even
significands. -/
def ofFinite (f : Binary.Format) (significand scale : Nat) : Interval where
  low := if significand = Binary.pow2 f.fractionBits ∧ 0 < scale then 4 * significand - 1
    else 4 * significand - 2
  value := 4 * significand
  high := 4 * significand + 2
  exponent := (scale : Int) - f.unitExponent - 2
  closed := significand % 2 = 0

/-- The multiple of `10 ^ k` in the interval that is nearest to the value, the upper one in a tie.
Only the two multiples around the value are tried: if any multiple lies in the interval, one of them
does. -/
def onGrid (i : Interval) (k : Int) : Option Nat :=
  let scale := Binary.pow2 i.exponent.toNat * pow10 (-k).toNat
  let step := Binary.pow2 (-i.exponent).toNat * pow10 k.toNat
  let below := i.value * scale / step
  let above := below + 1
  let lowFits := if i.closed then i.low * scale ≤ below * step else i.low * scale < below * step
  let highFits := if i.closed then above * step ≤ i.high * scale else above * step < i.high * scale
  if lowFits ∧ highFits then
    if i.value * scale - below * step < above * step - i.value * scale then some below
      else some above
  else if lowFits then some below
  else if highFits then some above
  else none

/-- A power of ten above the interval. -/
def topExponent (i : Interval) : Int :=
  ((i.high.log2 : Int) + 1 + i.exponent) * 30103 / 100000 + 1

end Interval

/-- The first hit on the grids `10 ^ k`, `10 ^ (k - 1)`, … -/
def search (i : Interval) : Nat → Int → Decimal
  | 0, k => ⟨0, k⟩
  | fuel + 1, k =>
    match i.onGrid k with
    | some significand => ⟨significand, k⟩
    | none => search i fuel (k - 1)

/-- The shortest decimal that rounds to `significand * 2 ^ scale` units of the format. As many grids
are tried as the format has significant bits, which is more than it ever needs digits. -/
def shortest (f : Binary.Format) (significand scale : Nat) : Decimal :=
  let i := Interval.ofFinite f significand scale
  search i (f.fractionBits + 3) i.topExponent

/-- The decimal written out in full: no exponent, and no point after a whole number. -/
def text (d : Decimal) : String :=
  let digits := Nat.toDigits 10 d.significand
  let places := (-d.exponent).toNat
  if places = 0 then String.ofList (digits ++ List.replicate d.exponent.toNat '0')
  else
    let padded := List.replicate (places + 1 - digits.length) '0' ++ digits
    let whole := padded.length - places
    String.ofList (padded.take whole ++ '.' :: padded.drop whole)

end Decimal

end Componentry
