import Componentry.Library.Hierarchy
import Componentry.StaticType

/-!
# Conversions of arguments

A value may be passed where another type is expected if it converts implicitly. Every conversion has
a cost, by which overloads are compared: an exact match is free, widening within integers or within
floating-point kinds is cheaper than going from an integer to a floating-point kind, that is cheaper
than going up the class hierarchy, and null is the last resort.

A cost is any natural number. It is a small constant, and for a class the distance besides, so that
it is the same one in 32 bits unless there are nearly `2 ^ 32` classes.

## Main definitions

* `Conversion` lists the implicit conversions, `Conversion.cost` prices them
* `Primitive.conversion` is widening between primitive kinds
* `Hierarchy.conversion` is the conversion between any two types
-/

namespace Componentry

/-- An implicit conversion of a value to a type. -/
inductive Conversion where
  | identity
  | widening (source target : Primitive)
  | intToFloat (source target : Primitive)
  | derivedToBase (base : ClassName) (distance : Nat)
  | nullToReference
  deriving DecidableEq

/-- The number of places between two kinds in the widening order. -/
def Primitive.rankDistance (source target : Primitive) : Nat :=
  target.rank.getD 0 - source.rank.getD 0

namespace Conversion

/-- The price of a conversion; lower is better. -/
def cost : Conversion → Nat
  | identity => 0
  | widening source target => 1 + source.rankDistance target
  | intToFloat source target => 10 + source.rankDistance target
  | derivedToBase _ distance => 20 + distance
  | nullToReference => 100

/-- Nothing is converted. -/
def isExact (c : Conversion) : Bool := c = identity

end Conversion

/-- Widening of primitive kinds. Nothing widens into a character, truth values convert to nothing,
and nothing narrows; of two kinds with one place in the order, only the character widens into the
other. -/
def Primitive.conversion (source target : Primitive) : Option Conversion :=
  if source = target then some .identity
  else if target = .char then none
  else
    match source.rank, target.rank with
    | some s, some t =>
      if t < s ∨ (t = s ∧ source ≠ .char) then none
      else if source.isIntegral && target.isFloating then some (.intToFloat source target)
      else some (.widening source target)
    | _, _ => none

namespace Hierarchy

/-- The implicit conversion of a value of one type to another, if there is one. -/
def conversion (h : Hierarchy) (source target : StaticType) : Option Conversion :=
  if source = target then some .identity
  else
    match source, target with
    | .primitive s, .primitive t => s.conversion t
    | .null, .object _ => some .nullToReference
    | .object sub, .object sup => (h.distance sub sup).map (.derivedToBase sup)
    | _, _ => none

/-- A value of the first type may be stored where the second is expected. -/
def converts (h : Hierarchy) (source target : StaticType) : Bool :=
  (h.conversion source target).isSome

end Hierarchy

end Componentry
