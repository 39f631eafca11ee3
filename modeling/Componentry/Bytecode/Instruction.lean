import Componentry.Bytecode.Chunk
import Componentry.Bytecode.Pool
import Componentry.Failure
import Componentry.Member

/-!
# Instructions

Instructions as compilation thinks of them: with constants, members and slots instead of indices and
bytes. To encode an instruction is to add what it refers to to the constant pool and to write the
positions found there behind the instruction's byte.

## Main definitions

* `Instruction` is an instruction with what it refers to
* `Instruction.encode` gives its bytes, and the pool they refer to
-/

namespace Componentry

/-- An instruction with what it refers to. -/
inductive Instruction where
  | load (value : Constant)
  | pushInt (value : Int64)
  | pushNull
  | pushBool (value : Bool)
  | pop
  | dup
  | getLocal (slot : Nat)
  | setLocal (slot : Nat)
  | setStatic (field : Fingerprint) (name : String)
  | call (procedure : Fingerprint) (name : String) (args : UInt8)
  | callMethod (method : Method)
  | new (constructor : Constructor)
  | returnVoid
  deriving DecidableEq, Inhabited

namespace Instruction

/-- A number as one operand byte. -/
def narrowOperand (n : Nat) : Except CompileError (List UInt8) :=
  if n < 256 then .ok [UInt8.ofNat n] else .error (.operandOverflow n 8)

/-- A number as two operand bytes. -/
def wideOperand (n : Nat) : Except CompileError (List UInt8) :=
  if n < 65536 then .ok (wordBytes n) else .error (.operandOverflow n 16)

/-- An instruction with one number, in the shorter of its two forms that can hold it. -/
def narrowOrWide (narrow wide : Opcode) (n : Nat) : Except CompileError (List UInt8) :=
  if n < 256 then .ok [narrow.toByte, UInt8.ofNat n] else (wideOperand n).map (wide.toByte :: ·)

/-- The bytes that load a constant. -/
def encodeLoad (pool : Pool) (c : Constant) : Pool × Except CompileError (List UInt8) :=
  let (pool, index) := pool.add c
  (pool, narrowOrWide .constant .constantWide index)

/-- The bytes of an instruction with a symbol and further operand bytes. -/
def encodeSymbol (pool : Pool) (op : Opcode) (h : Fingerprint) (name : String)
    (rest : Except CompileError (List UInt8)) : Pool × Except CompileError (List UInt8) :=
  let (pool, index) := pool.addSymbol h name
  (pool, do return op.toByte :: (← wideOperand index) ++ (← rest))

/-- The bytes that create an object. The constructor's symbol is added only if that of the type
fits. -/
def encodeNew (pool : Pool) (k : Constructor) : Pool × Except CompileError (List UInt8) :=
  let (pool, typeIndex) := pool.addSymbol k.owner.fingerprint k.owner.text
  match wideOperand typeIndex with
  | .error e => (pool, .error e)
  | .ok typeBytes =>
    let (pool, index) := pool.addSymbol k.fingerprint k.text
    (pool, do
      let bytes ← wideOperand index
      let count ← narrowOperand k.arity
      return Opcode.new.toByte :: typeBytes ++ bytes ++ count)

/-- The bytes of an instruction, and the pool that they refer to. The pool grows even if an operand
does not fit. -/
def encode (pool : Pool) : Instruction → Pool × Except CompileError (List UInt8)
  | load c => encodeLoad pool c
  | pushInt n =>
    if n = 0 then (pool, .ok [Opcode.pushZero.toByte])
    else if n = 1 then (pool, .ok [Opcode.pushOne.toByte])
    else encodeLoad pool (.int n)
  | pushNull => (pool, .ok [Opcode.pushNull.toByte])
  | pushBool b => (pool, .ok [(if b then Opcode.pushTrue else Opcode.pushFalse).toByte])
  | pop => (pool, .ok [Opcode.pop.toByte])
  | dup => (pool, .ok [Opcode.dup.toByte])
  | getLocal slot => (pool, narrowOrWide .getLocal .getLocalWide slot)
  | setLocal slot => (pool, narrowOrWide .setLocal .setLocalWide slot)
  | setStatic field name => encodeSymbol pool .setStatic field name (.ok [])
  | call procedure name args => encodeSymbol pool .call procedure name (.ok [args])
  | callMethod m => encodeSymbol pool .callMethod m.fingerprint m.text (narrowOperand m.arity)
  | new k => encodeNew pool k
  | returnVoid => (pool, .ok [Opcode.returnVoid.toByte])

end Instruction

end Componentry
