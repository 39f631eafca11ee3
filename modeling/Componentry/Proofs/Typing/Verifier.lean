import Componentry.Library.Registry
import Componentry.Tree.Literal
import Componentry.Unit

/-!
# The verifier

Code can be checked before it runs, with static types in place of values. The verifier knows the
types of the local slots and of the fields, and the literals that are loaded, in order. It accepts
an instruction only if what it does is in keeping with these types.

## Main definitions

* `Instruction.represents` — how values of a type are put on the stack
* `Verifier.Env.accepts` — which values may be passed to a parameter
* `Verifier.step`, `Verifier.verify` — one instruction, and instructions in order

## Main results

* `Verifier.verify_append` — code is verified one part after the other
-/

namespace Componentry

/-- The instruction puts a value on the stack in the way in which values of the type are
represented. -/
def Instruction.represents (stringType type : StaticType) : Instruction → Bool
  | pushBool _ => type = .primitive .boolean
  | pushInt _ =>
    match type with
    | .primitive kind => kind.isIntegral
    | _ => false
  | load (.single _) => type = .primitive .float
  | load (.double _) => type = .primitive .double
  | load (.string _) => type = stringType
  | pushNull => type.isReference
  | _ => false

namespace Verifier

/-- What is known of a value before the code runs. -/
structure Known where
  type : StaticType
  /-- The value is the null literal. -/
  isNull : Bool := false
  deriving DecidableEq

/-- What the verifier relies on: the classes, the types of the local slots and the fields of the
unit. -/
structure Env where
  registry : Registry
  slots : List StaticType
  fields : List Field

/-- The verifier between two instructions. The top of the stack comes first. -/
structure State where
  stack : List Known := []
  /-- The literals that are still to be loaded. -/
  literals : List LiteralExpr := []
  deriving DecidableEq

/-- What is known of a literal. -/
def known (e : LiteralExpr) : Known := ⟨e.type, e.value = .null⟩

namespace Env

variable (env : Env)

/-- A value may be passed to a parameter: it converts to its type, and has this type if it is the
null literal or the type is primitive. -/
def accepts (value : Known) (param : StaticType) : Bool :=
  env.registry.hierarchy.converts value.type param &&
    match param with
    | .primitive _ => value.type = param
    | _ => !value.isNull || value.type = param

/-- Values may be passed to parameters, of which there are as many. -/
def acceptsAll : List Known → List StaticType → Bool
  | [], [] => true
  | v :: values, p :: params => env.accepts v p && acceptsAll values params
  | _, _ => false

/-- The value belongs to a class that has the method. -/
def isReceiver (value : Known) (m : Method) : Bool :=
  match value.type with
  | .object c => env.registry.hierarchy.isSubtype c m.owner
  | _ => false

/-- The field that is meant has the given type. -/
def storesIn (field : Fingerprint) (name : String) (type : StaticType) : Bool :=
  env.fields.any fun f =>
    f.fingerprint = field ∧ f.name ++ ": " ++ f.type.text = name ∧ f.type = type

end Env

/-- Loads the next literal, if the instruction is the one for it and represents its type. -/
def load (env : Env) (s : State) (i : Instruction) : Option State :=
  match s.literals with
  | e :: literals =>
    if e.load.toOption = some i ∧ i.represents env.registry.stringType e.type = true then
      some ⟨known e :: s.stack, literals⟩
    else none
  | [] => none

/-- Verifies one instruction, other than a return. -/
def step (env : Env) (s : State) : Instruction → Option State
  | .load c => load env s (.load c)
  | .pushInt n => load env s (.pushInt n)
  | .pushNull => load env s .pushNull
  | .pushBool b => load env s (.pushBool b)
  | .pop =>
    match s.stack with
    | _ :: stack => some { s with stack }
    | [] => none
  | .dup =>
    match s.stack with
    | v :: stack => some { s with stack := v :: v :: stack }
    | [] => none
  | .getLocal slot => (env.slots[slot]?).map fun type =>
    { s with stack := ⟨type, false⟩ :: s.stack }
  | .setLocal slot =>
    match s.stack, env.slots[slot]? with
    | v :: stack, some type =>
      if env.registry.hierarchy.converts v.type type then some { s with stack } else none
    | _, _ => none
  | .setStatic field name =>
    match s.stack with
    | v :: stack => if env.storesIn field name v.type then some { s with stack } else none
    | [] => none
  | .callMethod m =>
    match s.stack.drop m.arity with
    | receiver :: stack =>
      if env.isReceiver receiver m ∧ env.acceptsAll (s.stack.take m.arity).reverse m.params then
        some { s with stack := if m.returnsValue then ⟨m.result, false⟩ :: stack else stack }
      else none
    | [] => none
  | .new k =>
    if env.acceptsAll (s.stack.take k.arity).reverse k.params then
      some { s with stack := ⟨.object k.owner, false⟩ :: s.stack.drop k.arity }
    else none
  -- Procedures of a unit have no parameters and yield nothing.
  | .call _ _ args => if args = 0 then some s else none
  | .returnVoid => none

/-- Verifies instructions in order. -/
def verify (env : Env) (s : State) : List Instruction → Option State
  | [] => some s
  | i :: is => (step env s i).bind fun s => verify env s is

/-- Code is verified one part after the other. -/
theorem verify_append {env : Env} {s next : State} {first more : List Instruction}
    (verified : verify env s first = some next) :
    verify env s (first ++ more) = verify env next more := by
  induction first generalizing s with
  | nil =>
    cases verified
    rfl
  | cons i is ih =>
    obtain ⟨between, stepped, rest⟩ := Option.bind_eq_some_iff.mp verified
    rw [List.cons_append, verify, stepped]
    exact ih rest

end Verifier

end Componentry
