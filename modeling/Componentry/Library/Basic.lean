import Componentry.Failure
import Componentry.Member

/-!
# Component libraries

All that compilation wants to know about the classes of components is answered by a library. The
answers are pure: asking twice gives the same answer.

## Main definitions

* `Library` is the collection of lookups
-/

namespace Componentry

/-- Read access to the classes of a component library. -/
structure Library where
  /-- The type of the class with the given name. -/
  resolveType : ClassName → Option StaticType
  /-- The method of a type that a call with the given argument types means. -/
  resolveMethod : StaticType → String → List StaticType → Except LookupError Method
  /-- The constructor without parameters of a type that can be created with it. -/
  defaultConstructor : StaticType → Option Constructor
  /-- The static type of string literals. -/
  stringType : StaticType := .ofClass "String"
  /-- A value of the first type may be stored where the second is expected. -/
  isAssignable : StaticType → StaticType → Bool := fun source target => source = target

end Componentry
