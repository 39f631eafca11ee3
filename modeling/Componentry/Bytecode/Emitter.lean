import Componentry.Bytecode.Instruction

/-!
# Emission

Instructions are written one after the other to the code of a procedure, for a current source line,
over the constant pool of the unit. An instruction that cannot be encoded writes nothing.

Slots and lines are any natural numbers. When a tree is compiled, a slot counter of 32 bits has the
same values: a slot beyond the first `2 ^ 16` is an operand that does not fit, so no counter gets
near its end.

## Main definitions

* `Emitter` is the code so far, the pool and the current line
* `Emitter.emit` writes an instruction
* `Directive` is an instruction or a remark on the code
* `Assembly.run` carries out directives up to the first failure
-/

namespace Componentry

/-- The code of a procedure while it is written. -/
structure Emitter where
  chunk : Chunk := .empty
  pool : Pool
  line : Nat := 1

namespace Emitter

/-- The beginning of a procedure over a given pool. -/
def start (pool : Pool) : Emitter := { pool }

/-- The offset of the next instruction. -/
def offset (e : Emitter) : Nat := e.chunk.size

/-- What follows is for the given source line. -/
def setLine (e : Emitter) (line : Nat) : Emitter := { e with line }

/-- Writes bytes for the current line. -/
def write (e : Emitter) (bytes : List UInt8) : Emitter :=
  { e with chunk := e.chunk.append e.line bytes }

/-- Writes an instruction for the current line. If an operand does not fit, no byte is written, and
the failure is given. -/
def emit (e : Emitter) (i : Instruction) : Emitter × Option CompileError :=
  match i.encode e.pool with
  | (pool, .ok bytes) => ({ e with pool }.write bytes, none)
  | (pool, .error failure) => ({ e with pool }, some failure)

end Emitter

/-- An instruction or a remark on the code around it. -/
inductive Directive where
  | line (n : Nat)
  | instruction (i : Instruction)
  /-- The next local slot comes into use, for a value of the given name and type. -/
  | enter (name : String) (type : StaticType)
  /-- A local slot goes out of use. -/
  | leave (slot : Nat)
  /-- There is no code for what follows. -/
  | abort (failure : CompileError)
  deriving DecidableEq

/-- The stretch of code in which a local slot is in use. -/
structure LocalRange where
  slot : Nat
  name : String
  type : StaticType
  /-- The offset of the first instruction. -/
  start : Nat
  /-- The offset just past the last instruction. -/
  stop : Nat
  deriving DecidableEq, Inhabited

/-- A procedure while its directives are carried out. The local slots are listed by number. -/
structure Assembly where
  emitter : Emitter
  locals : List LocalRange := []
  /-- How many slots have come into use, which is the number of the next one. -/
  slotCount : Nat := 0

namespace Assembly

/-- Carries out one directive. -/
def step (a : Assembly) : Directive → Except CompileError Assembly
  | .line n => .ok { a with emitter := a.emitter.setLine n }
  | .instruction i =>
    match a.emitter.emit i with
    | (emitter, none) => .ok { a with emitter }
    | (_, some failure) => .error failure
  | .enter name type =>
    let range := ⟨a.slotCount, name, type, a.emitter.offset, a.emitter.offset⟩
    .ok { a with locals := a.locals ++ [range], slotCount := a.slotCount + 1 }
  | .leave slot =>
    .ok { a with locals := a.locals.modify slot fun range =>
      { range with stop := a.emitter.offset } }
  | .abort failure => .error failure

/-- Carries out directives in order, up to the first failure. -/
def run (a : Assembly) : List Directive → Except CompileError Assembly
  | [] => .ok a
  | d :: rest =>
    match a.step d with
    | .ok a => a.run rest
    | .error failure => .error failure

/-- Directives are carried out one part after the other. -/
theorem run_append (a : Assembly) (ds es : List Directive) :
    a.run (ds ++ es) = (a.run ds).bind (·.run es) := by
  induction ds generalizing a with
  | nil => rfl
  | cons d ds ih =>
    simp only [List.cons_append, run]
    split
    · exact ih _
    · rfl

end Assembly

/-- Carries out the directives of a procedure over a given pool. -/
def assemble (pool : Pool) (directives : List Directive) : Except CompileError Assembly :=
  Assembly.run { emitter := .start pool } directives

end Componentry
