/-!
# Failures

The ways in which registering a class, looking up a member, or compiling a source can fail outright.

## Main definitions

* `RegistrationError` is why a class is refused
* `LookupError` is why no single member is found
* `CompileError` is why compilation is given up
-/

namespace Componentry

/-- Why a class is refused. -/
inductive RegistrationError where
  | duplicateClass (name : String)
  | duplicateMember (className member : String)
  | selfInheritance (name : String)
  deriving DecidableEq

/-- The refusal in words. -/
def RegistrationError.message : RegistrationError → String
  | duplicateClass name => s!"duplicate class: {name}"
  | duplicateMember className member => s!"duplicate member '{member}' on class '{className}'"
  | selfInheritance name => s!"class '{name}' cannot extend itself"

/-- Why a lookup yields no single member. -/
inductive LookupError where
  | notFound (owner name arguments : String)
  | ambiguous (owner name candidates : String)
  deriving DecidableEq

namespace LookupError

/-- No member applies. -/
def isNotFound : LookupError → Bool
  | notFound _ _ _ => true
  | ambiguous _ _ _ => false

/-- The failed lookup in words. -/
def message : LookupError → String
  | notFound owner name arguments => s!"no member '{name}' on '{owner}' accepts ({arguments})"
  | ambiguous owner name candidates =>
    s!"ambiguous lookup of '{name}' on '{owner}': could be {candidates}"

end LookupError

/-- Why compilation is given up. -/
inductive CompileError where
  /-- A state that resolution never leaves behind. -/
  | internal (message : String)
  | lookup (error : LookupError)
  | unboundNode (name : String)
  | unboundProperty (name : String)
  | missingField (name : String)
  /-- A number does not fit in the operand it is written to. -/
  | operandOverflow (value bits : Nat)
  deriving DecidableEq

/-- The failure in words. -/
def CompileError.message : CompileError → String
  | internal message => s!"internal error: {message}"
  | lookup error => error.message
  | unboundNode name => s!"node '{name}' reached emission without a binding"
  | unboundProperty name => s!"property '{name}' reached emission without a binding"
  | missingField name => s!"no field slot named '{name}'"
  | operandOverflow value bits => s!"operand {value} does not fit in {bits} bits"

end Componentry
