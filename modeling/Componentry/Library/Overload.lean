import Componentry.Failure
import Componentry.Library.Conversion
import Componentry.Member

/-!
# Overload resolution

Among the methods of one name that accept given argument types, one is selected: first by total cost
of the conversions, then by the number of exact matches, then by specificity. A method is more
specific than another when its parameters convert to those of the other.

The total cost is a sum of natural numbers and never overflows. A sum in 32 bits is the same one as
long as it stays below `2 ^ 32`.

## Main definitions

* `Applicable` is a method with the conversions of the arguments it accepts
* `Hierarchy.applicable?` tests one method
* `Hierarchy.select` narrows the applicable methods to one, if it can
* `Hierarchy.resolve` selects among candidates and names the failure
-/

namespace Componentry

/-- A method that accepts the arguments, with the conversion of each of them. -/
structure Applicable where
  method : Method
  conversions : List Conversion
  deriving DecidableEq

namespace Applicable

/-- The total cost of the conversions. -/
def cost (m : Applicable) : Nat := m.conversions.foldr (fun c total => c.cost + total) 0

/-- The number of arguments that match exactly. -/
def exactness (m : Applicable) : Nat := m.conversions.countP Conversion.isExact

/-- The methods of least total cost. -/
def cheapest (ms : List Applicable) : List Applicable := ms.filter fun m => ms.all (m.cost ≤ ·.cost)

/-- The methods with the most exact matches. -/
def mostExact (ms : List Applicable) : List Applicable :=
  ms.filter fun m => ms.all (·.exactness ≤ m.exactness)

end Applicable

/-- The outcome of a selection. -/
inductive Selection where
  /-- There was nothing to select from. -/
  | none
  | best (winner : Applicable)
  /-- The methods that cannot be told apart. -/
  | tied (rivals : List Applicable)
  deriving DecidableEq

/-- Every element of a list together with the elements at the other positions. -/
def picks {α : Type} : List α → List (α × List α)
  | [] => []
  | x :: xs => (x, xs) :: (picks xs).map fun (y, ys) => (y, x :: ys)

namespace Hierarchy

/-- The conversions of arguments to parameters, one for each; the lists must be equally long. -/
def convertAll (h : Hierarchy) : List StaticType → List StaticType → Option (List Conversion)
  | [], [] => some []
  | a :: args, p :: params =>
    match h.conversion a p, h.convertAll args params with
    | some c, some cs => some (c :: cs)
    | _, _ => none
  | _, _ => none

/-- The method with the conversions of the arguments, if it accepts them. -/
def applicable? (h : Hierarchy) (args : List StaticType) (m : Method) : Option Applicable :=
  (h.convertAll args m.params).map (⟨m, ·⟩)

/-- The parameters differ, and those of the first method convert to those of the second. -/
def moreSpecific (h : Hierarchy) (a b : Method) : Bool :=
  a.params ≠ b.params && (a.params.zip b.params).all fun (p, q) => h.converts p q

/-- The methods that are more specific than each of the others. -/
def mostSpecific (h : Hierarchy) (ms : List Applicable) : List Applicable :=
  ((picks ms).filter fun (m, others) =>
    others.all fun o => h.moreSpecific m.method o.method).map (·.1)

/-- Narrows applicable methods by cost, exact matches and specificity, in this order. -/
def select (h : Hierarchy) (viable : List Applicable) : Selection :=
  let rivals := Applicable.mostExact (Applicable.cheapest viable)
  match rivals, h.mostSpecific rivals with
  | [], _ => .none
  | _, [winner] => .best winner
  | _, _ => .tied rivals

/-- Selects the method that a call with the given argument types means. -/
def resolve (h : Hierarchy) (owner : StaticType) (name : String) (candidates : List Method)
    (args : List StaticType) : Except LookupError Method :=
  match h.select (candidates.filterMap (h.applicable? args)) with
  | .best winner => .ok winner.method
  | .none => .error (.notFound owner.text name (StaticType.listText args))
  | .tied rivals =>
    .error (.ambiguous owner.text name (" and ".intercalate (rivals.map (·.method.signatureText))))

end Hierarchy

end Componentry
