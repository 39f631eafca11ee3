import Componentry.ClassName

/-!
# Static types

The type of a value, a parameter or a storage slot: nothing, the null reference, a primitive kind or
a class.

## Main definitions

* `Primitive` lists the primitive kinds, with their place in the numeric widening order
* `StaticType` is the type of a value
-/

namespace Componentry

/-- The kinds of primitive values. -/
inductive Primitive where
  | boolean
  | char
  | byte
  | short
  | int
  | long
  | float
  | double
  deriving DecidableEq, Inhabited

namespace Primitive

/-- All kinds. -/
def all : List Primitive := [boolean, char, byte, short, int, long, float, double]

/-- The name of the kind. -/
def name : Primitive → String
  | boolean => "boolean"
  | char => "char"
  | byte => "byte"
  | short => "short"
  | int => "int"
  | long => "long"
  | float => "float"
  | double => "double"

/-- The kind with the given name. -/
def ofName? (name : String) : Option Primitive := all.find? (·.name = name)

/-- The place in the numeric widening order. A character enters the order at `int`; truth values
have no place. -/
def rank : Primitive → Option Nat
  | boolean => none
  | byte => some 0
  | short => some 1
  | char => some 2
  | int => some 2
  | long => some 3
  | float => some 4
  | double => some 5

/-- The values of the kind are whole numbers. -/
def isIntegral : Primitive → Bool
  | char | byte | short | int | long => true
  | boolean | float | double => false

/-- The values of the kind are floating-point numbers. -/
def isFloating : Primitive → Bool
  | float | double => true
  | boolean | char | byte | short | int | long => false

end Primitive

/-- The type of a value, a parameter or a storage slot. -/
inductive StaticType where
  /-- The result of a procedure that yields nothing. -/
  | void
  /-- The type of the null literal. -/
  | null
  | primitive (kind : Primitive)
  | object (name : ClassName)
  deriving DecidableEq, Inhabited

namespace StaticType

/-- The class type with the given dotted name. -/
def ofClass (text : String) : StaticType := .object (.parse text)

/-- Values of the type are references. -/
def isReference : StaticType → Bool
  | object _ | null => true
  | void | primitive _ => false

/-- The class of a class type. -/
def class? : StaticType → Option ClassName
  | object name => some name
  | void | null | primitive _ => none

/-- The name of the type. -/
def text : StaticType → String
  | void => "void"
  | null => "null"
  | primitive kind => kind.name
  | object name => name.text

/-- The fingerprint of the type, which depends on its name only. -/
def fingerprint (t : StaticType) : Fingerprint := .ofName t.text

/-- The names of the types, separated by commas. -/
def listText (types : List StaticType) : String := ", ".intercalate (types.map text)

end StaticType

end Componentry
