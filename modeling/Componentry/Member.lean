import Componentry.StaticType

/-!
# Members of classes

What a lookup in the component library yields: a method or a constructor, with all that emission
needs to know about it.

## Main definitions

* `Method` is an instance method together with the class that declares it
* `Constructor` is a way to create an object of a class
-/

namespace Componentry

/-- An instance method. The declaring class may be an ancestor of the receiver's class. -/
structure Method where
  owner : ClassName
  name : String
  params : List StaticType
  result : StaticType
  deriving DecidableEq, Inhabited

namespace Method

/-- The number of arguments of a call. -/
def arity (m : Method) : Nat := m.params.length

/-- A call leaves a value behind. -/
def returnsValue (m : Method) : Bool := m.result ≠ .void

/-- The fingerprint of the method. -/
def fingerprint (m : Method) : Fingerprint :=
  .ofMethod m.owner.fingerprint m.name (m.params.map StaticType.fingerprint)

/-- The method with its parameters, without the declaring class and the result. -/
def signatureText (m : Method) : String := m.name ++ "(" ++ StaticType.listText m.params ++ ")"

/-- The method in full. -/
def text (m : Method) : String := m.owner.text ++ "." ++ m.signatureText ++ " -> " ++ m.result.text

end Method

/-- A constructor of a class. -/
structure Constructor where
  owner : ClassName
  params : List StaticType
  deriving DecidableEq, Inhabited

namespace Constructor

/-- The constructor without parameters. -/
def default (owner : ClassName) : Constructor := ⟨owner, []⟩

/-- The number of arguments of a call. -/
def arity (k : Constructor) : Nat := k.params.length

/-- The fingerprint of the constructor. -/
def fingerprint (k : Constructor) : Fingerprint :=
  .ofConstructor k.owner.fingerprint (k.params.map StaticType.fingerprint)

/-- The constructor as text. -/
def text (k : Constructor) : String := s!"{k.owner.text}.<init>({k.arity} params)"

end Constructor

end Componentry
