import Componentry.Bytecode.Instruction
import Componentry.Diagnostic

/-!
# Expressions

The values of properties. A tree does not look inside them: an expression has a place, a static type
and a text, it can be adapted to the type that is expected of it, and one instruction leaves its
value on the stack.

## Main definitions

* `Expression` is the interface of property values
-/

namespace Componentry

/-- What a tree wants to know about the values of properties. -/
class Expression (ε : Type) where
  /-- The place of the expression in its source. -/
  span : ε → Span
  /-- The static type of its value. -/
  type : ε → StaticType
  /-- The expression as written. -/
  text : ε → String
  /-- The expression when string literals have the given type. -/
  withStringType : StaticType → ε → ε
  /-- The expression where a value of the given type is expected. -/
  adapt : StaticType → ε → ε
  /-- The instruction that leaves the value on the stack. -/
  load : ε → Except CompileError Instruction

end Componentry
