/-!
# Instruction codes

The instructions of the stack machine that runs emitted procedures. An instruction is one byte,
followed by a number of operand bytes that depends on it alone; numbers of two bytes have the high
byte first.

## Main definitions

* `Opcode` lists the instructions
* `Opcode.toByte`, `Opcode.ofByte?` are their bytes
* `Opcode.operandSize` is the number of operand bytes
-/

namespace Componentry

/-- The instructions of the stack machine. -/
inductive Opcode where
  /-- Push the constant at a one-byte index. -/
  | constant
  /-- Push the constant at a two-byte index. -/
  | constantWide
  | pushNull
  | pushTrue
  | pushFalse
  | pushZero
  | pushOne
  /-- Drop the top of the stack. -/
  | pop
  /-- Push the top of the stack once more. -/
  | dup
  /-- Push the local at a one-byte slot. -/
  | getLocal
  /-- Pop into the local at a one-byte slot. -/
  | setLocal
  /-- Push the local at a two-byte slot. -/
  | getLocalWide
  /-- Pop into the local at a two-byte slot. -/
  | setLocalWide
  /-- Pop into the field named by a symbol. -/
  | setStatic
  /-- Call the procedure named by a symbol, with a count of arguments. -/
  | call
  /-- Call the method named by a symbol, with a count of arguments besides the receiver. -/
  | callMethod
  /-- Push a new object of the type named by a symbol, made by the constructor named by a second
  one, with a count of arguments. -/
  | new
  /-- Return the top of the stack. -/
  | return
  /-- Return nothing. -/
  | returnVoid
  deriving DecidableEq, Inhabited

namespace Opcode

/-- All instructions, in the order of their bytes. -/
def all : List Opcode :=
  [constant, constantWide, pushNull, pushTrue, pushFalse, pushZero, pushOne, pop, dup,
    getLocal, setLocal, getLocalWide, setLocalWide, setStatic, call, callMethod, new,
    .return, returnVoid]

/-- The byte of an instruction. -/
def toByte : Opcode → UInt8
  | constant => 0
  | constantWide => 1
  | pushNull => 2
  | pushTrue => 3
  | pushFalse => 4
  | pushZero => 5
  | pushOne => 6
  | pop => 7
  | dup => 8
  | getLocal => 9
  | setLocal => 10
  | getLocalWide => 11
  | setLocalWide => 12
  | setStatic => 13
  | call => 14
  | callMethod => 15
  | new => 16
  | .return => 17
  | returnVoid => 18

/-- The instruction of a byte. -/
def ofByte? (b : UInt8) : Option Opcode := all[b.toNat]?

@[simp] theorem ofByte?_toByte (op : Opcode) : ofByte? op.toByte = some op := by
  cases op <;> rfl

/-- The number of operand bytes. -/
def operandSize : Opcode → Nat
  | constant | getLocal | setLocal => 1
  | constantWide | getLocalWide | setLocalWide | setStatic => 2
  | call | callMethod => 3
  | new => 5
  | pushNull | pushTrue | pushFalse | pushZero | pushOne | pop | dup | .return | returnVoid => 0

/-- The name of an instruction in listings. -/
def name : Opcode → String
  | constant => "CONSTANT"
  | constantWide => "CONSTANT_WIDE"
  | pushNull => "PUSH_NULL"
  | pushTrue => "PUSH_TRUE"
  | pushFalse => "PUSH_FALSE"
  | pushZero => "PUSH_ZERO"
  | pushOne => "PUSH_ONE"
  | pop => "POP"
  | dup => "DUP"
  | getLocal => "GET_LOCAL"
  | setLocal => "SET_LOCAL"
  | getLocalWide => "GET_LOCAL_WIDE"
  | setLocalWide => "SET_LOCAL_WIDE"
  | setStatic => "SET_STATIC"
  | call => "CALL"
  | callMethod => "CALL_METHOD"
  | new => "NEW"
  | .return => "RETURN"
  | returnVoid => "RETURN_VOID"

/-- The words of a name, which are separated by underscores, each with one capital and run
together. -/
def titleCase (start : Bool) : List Char → List Char
  | [] => []
  | '_' :: rest => titleCase true rest
  | c :: rest => (if start then c else c.toLower) :: titleCase false rest

/-- The name of an instruction as one word. -/
def title (op : Opcode) : String := String.ofList (titleCase true op.name.toList)

/-- The instruction with the given name. -/
def ofName? (name : String) : Option Opcode := all.find? (·.name = name)

end Opcode

end Componentry
