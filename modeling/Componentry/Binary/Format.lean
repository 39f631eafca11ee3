/-!
# Binary floating-point formats

A binary interchange format with a fraction field and an exponent field. All arithmetic is exact and
on natural numbers: a finite magnitude is a whole number of *units*, the unit of a format being its
least positive number.

## Main definitions

* `Binary.Format` gives the widths of the two fields, with `single` and `double`
* `Binary.Datum` is what a bit pattern stands for, and `Format.decode` reads it
* `Binary.roundQuotient` divides by a power of two, to nearest, ties to even
* `Format.round` is the magnitude nearest to a given number of units, as a bit pattern
-/

namespace Componentry.Binary

/-- The power of two with the given exponent. -/
def pow2 (k : Nat) : Nat := Nat.pow 2 k

/-- The widths of the two fields of a binary interchange format. -/
structure Format where
  fractionBits : Nat
  exponentBits : Nat
  deriving DecidableEq

/-- The format with 24 significant bits. -/
def single : Format := ⟨23, 8⟩

/-- The format with 53 significant bits. -/
def double : Format := ⟨52, 11⟩

/-- What a bit pattern stands for. The magnitude of a finite datum is `significand * 2 ^ scale`
units. -/
inductive Datum where
  | nan
  | infinite (negative : Bool)
  | finite (negative : Bool) (significand scale : Nat)
  deriving DecidableEq

/-- `n / 2 ^ k` rounded to the nearest whole number, a half going to the even neighbour. -/
def roundQuotient (n k : Nat) : Nat :=
  let q := n / pow2 k
  let r := n % pow2 k
  if pow2 k < 2 * r ∨ (2 * r = pow2 k ∧ q % 2 = 1) then q + 1 else q

namespace Format

/-- The unit of the format is `2 ^ (-f.unitExponent)`. -/
def unitExponent (f : Format) : Nat := pow2 (f.exponentBits - 1) - 2 + f.fractionBits

/-- The bit pattern of positive infinity, above those of all finite magnitudes. -/
def infinity (f : Format) : Nat := (pow2 f.exponentBits - 1) * pow2 f.fractionBits

/-- The bit that carries the sign. -/
def signBit (f : Format) : Nat := pow2 (f.fractionBits + f.exponentBits)

/-- Reads a bit pattern. -/
def decode (f : Format) (bits : Nat) : Datum :=
  let negative := f.signBit ≤ bits
  let magnitude := bits % f.signBit
  let fraction := magnitude % pow2 f.fractionBits
  let exponent := magnitude / pow2 f.fractionBits
  if f.infinity < magnitude then .nan
  else if magnitude = f.infinity then .infinite negative
  else if exponent = 0 then .finite negative fraction 0
  else .finite negative (pow2 f.fractionBits + fraction) (exponent - 1)

/-- The bit pattern of the magnitude nearest to `n / 2 ^ k` units, ties to even; what is past the
largest finite magnitude becomes infinite. A significand that rounds up to the next power of two
carries into the exponent field by itself. -/
def round (f : Format) (n k : Nat) : Nat :=
  let drop := max (n.log2 - f.fractionBits) k
  min f.infinity ((drop - k) * pow2 f.fractionBits + roundQuotient n drop)

/-- A magnitude with its sign. -/
def withSign (f : Format) (negative : Bool) (magnitude : Nat) : Nat :=
  if negative then f.signBit + magnitude else magnitude

/-- The pattern used for a result that is not a number. -/
def quietNaN (f : Format) : Nat := f.infinity + pow2 (f.fractionBits - 1)

end Format

end Componentry.Binary
