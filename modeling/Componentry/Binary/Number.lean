import Componentry.Decimal.Shortest

/-!
# Single and double precision numbers

Floating-point values are held as bit patterns, so that a value is exactly what is stored and no
operation depends on a machine.

## Main definitions

* `Binary32`, `Binary64` hold the two formats
* `Binary32.widen` is exact, `Binary64.narrow` and `Binary64.ofInt` round to nearest, ties to even
* `Binary32.key`, `Binary64.key` are equal for two patterns exactly when the numbers are the same,
  all patterns that are not numbers counting as one and both zeros as one
* `Binary32.text`, `Binary64.text` write the shortest decimal
-/

namespace Componentry

/-- A number in single precision. -/
structure Binary32 where
  bits : UInt32
  deriving DecidableEq, Inhabited

/-- A number in double precision. -/
structure Binary64 where
  bits : UInt64
  deriving DecidableEq, Inhabited

namespace Binary

/-- A bit pattern that stands for the same number under the identification of all non-numbers and of
both zeros. -/
def Format.key (f : Format) (bits : Nat) : Nat :=
  match f.decode bits with
  | .nan => f.quietNaN
  | .infinite _ => bits
  | .finite _ significand _ => if significand = 0 then 0 else bits

/-- The number as text: the shortest decimal that reads back, with the sign also of a zero. -/
def Format.text (f : Format) (bits : Nat) : String :=
  match f.decode bits with
  | .nan => "NaN"
  | .infinite negative => (if negative then "-" else "") ++ "inf"
  | .finite negative significand scale =>
    let magnitude := if significand = 0 then "0" else (Decimal.shortest f significand scale).text
    (if negative then "-" else "") ++ magnitude

end Binary

namespace Binary32

/-- What the bit pattern stands for. -/
def datum (x : Binary32) : Binary.Datum := Binary.single.decode x.bits.toNat

/-- Not a number. -/
def isNaN (x : Binary32) : Bool := x.datum = .nan

/-- Equal for the same numbers. -/
def key (x : Binary32) : Nat := Binary.single.key x.bits.toNat

/-- The shortest decimal that reads back. -/
def text (x : Binary32) : String := Binary.single.text x.bits.toNat

end Binary32

namespace Binary64

/-- What the bit pattern stands for. -/
def datum (x : Binary64) : Binary.Datum := Binary.double.decode x.bits.toNat

/-- Not a number. -/
def isNaN (x : Binary64) : Bool := x.datum = .nan

/-- Equal for the same numbers. -/
def key (x : Binary64) : Nat := Binary.double.key x.bits.toNat

/-- The shortest decimal that reads back. -/
def text (x : Binary64) : String := Binary.double.text x.bits.toNat

/-- The double nearest to an integer. -/
def ofInt (n : Int) : Binary64 :=
  let magnitude := Binary.double.round (n.natAbs * Binary.pow2 Binary.double.unitExponent) 0
  ⟨UInt64.ofNat (Binary.double.withSign (n < 0) magnitude)⟩

/-- The single nearest to a double. -/
def narrow (x : Binary64) : Binary32 :=
  match x.datum with
  | .nan => ⟨UInt32.ofNat Binary.single.quietNaN⟩
  | .infinite negative => ⟨UInt32.ofNat (Binary.single.withSign negative Binary.single.infinity)⟩
  | .finite negative significand scale =>
    let magnitude := Binary.single.round (significand * Binary.pow2 scale)
      (Binary.double.unitExponent - Binary.single.unitExponent)
    ⟨UInt32.ofNat (Binary.single.withSign negative magnitude)⟩

end Binary64

/-- The double that equals a single. -/
def Binary32.widen (x : Binary32) : Binary64 :=
  match x.datum with
  | .nan => ⟨UInt64.ofNat Binary.double.quietNaN⟩
  | .infinite negative => ⟨UInt64.ofNat (Binary.double.withSign negative Binary.double.infinity)⟩
  | .finite negative significand scale =>
    let units :=
      significand * Binary.pow2 (scale + (Binary.double.unitExponent - Binary.single.unitExponent))
    ⟨UInt64.ofNat (Binary.double.withSign negative (Binary.double.round units 0))⟩

end Componentry
