import Componentry.Bytecode.Opcode
import Componentry.Text.Quoted

/-!
# Code of a procedure

The bytes of one procedure, each with the source line it was emitted for. Any sequence of bytes can
be decoded: a byte that is no instruction is passed over, and the operands of an instruction are
never read as instructions.

## Main definitions

* `Chunk` is a sequence of bytes with lines
* `Chunk.append` writes bytes at the end
* `Chunk.instructions` decodes the bytes
* `Chunk.missing` is the part of an expected sequence that the decoded instructions do not contain
-/

namespace Componentry

/-- A byte of code with the source line it was emitted for. -/
structure CodeByte where
  value : UInt8
  line : Nat
  deriving DecidableEq, Inhabited

/-- The code of one procedure. -/
structure Chunk where
  bytes : Array CodeByte := #[]
  deriving DecidableEq, Inhabited

/-- The two bytes of a number below `2 ^ 16`, the high byte first. -/
def wordBytes (n : Nat) : List UInt8 := [UInt8.ofNat (n / 256), UInt8.ofNat (n % 256)]

namespace Chunk

/-- No code. -/
def empty : Chunk := {}

/-- The number of bytes, which is the offset of the next instruction. -/
def size (c : Chunk) : Nat := c.bytes.size

/-- The code followed by bytes for the given line. -/
def append (c : Chunk) (line : Nat) (bytes : List UInt8) : Chunk :=
  ⟨c.bytes ++ (bytes.map (⟨·, line⟩)).toArray⟩

@[simp] theorem size_empty : empty.size = 0 := rfl

@[simp] theorem size_append (c : Chunk) (line : Nat) (bytes : List UInt8) :
    (c.append line bytes).size = c.size + bytes.length := by
  simp [size, append]

/-- What is appended comes behind what is there, all for one line. -/
theorem toList_bytes_append (c : Chunk) (line : Nat) (bytes : List UInt8) :
    (c.append line bytes).bytes.toList = c.bytes.toList ++ bytes.map (⟨·, line⟩) := by
  simp [append]

/-- The byte at an offset. -/
def byte? (c : Chunk) (offset : Nat) : Option UInt8 := (c.bytes[offset]?).map (·.value)

/-- The number in the two bytes at an offset. -/
def word? (c : Chunk) (offset : Nat) : Option Nat :=
  match c.byte? offset, c.byte? (offset + 1) with
  | some high, some low => some (high.toNat * 256 + low.toNat)
  | _, _ => none

/-- The instruction at an offset, if its byte is one. -/
def opcode? (c : Chunk) (offset : Nat) : Option Opcode := (c.byte? offset).bind Opcode.ofByte?

/-- The source line of the byte at an offset. -/
def line? (c : Chunk) (offset : Nat) : Option Nat := (c.bytes[offset]?).map (·.line)

/-- Equal neighbours taken together, with their number. -/
def runs : List Nat → List (Nat × Nat)
  | [] => []
  | x :: rest =>
    match runs rest with
    | (y, n) :: more => if x = y then (y, n + 1) :: more else (x, 1) :: (y, n) :: more
    | [] => [(x, 1)]

/-- The source lines of the code, each with the number of bytes that it stands for. -/
def lineRuns (c : Chunk) : List (Nat × Nat) := runs (c.bytes.toList.map (·.line))

/-- Decodes bytes into instructions with their offsets, the first byte having the given offset;
`skip` is the number of operand bytes to come. -/
def decodeFrom (skip offset : Nat) : List UInt8 → List (Nat × Opcode)
  | [] => []
  | b :: rest =>
    match skip with
    | n + 1 => decodeFrom n (offset + 1) rest
    | 0 =>
      match Opcode.ofByte? b with
      | some op => (offset, op) :: decodeFrom op.operandSize (offset + 1) rest
      | none => decodeFrom 0 (offset + 1) rest

/-- The instructions with their offsets. -/
def instructions (c : Chunk) : List (Nat × Opcode) := decodeFrom 0 0 (c.bytes.toList.map (·.value))

/-- The instructions without operands. -/
def opcodes (c : Chunk) : List Opcode := c.instructions.map (·.2)

/-- What is left of an expected sequence after one pass over the actual one that strikes out the
next expected element whenever it is met. -/
def unmatched {α : Type} [DecidableEq α] : List α → List α → List α
  | [], expected => expected
  | _ :: _, [] => []
  | a :: actual, e :: expected =>
    if a = e then unmatched actual expected else unmatched actual (e :: expected)

/-- The expected instructions that are not found in order, not necessarily one after the other. -/
def missing (c : Chunk) (expected : List Opcode) : List Opcode := unmatched c.opcodes expected

/-- Says which expected instructions are missing. -/
def missingText (c : Chunk) (expected : List Opcode) : String :=
  "Missing opcodes in sequence.\nExpected to find: "
    ++ Text.quoteList ((c.missing expected).map Opcode.name)
    ++ "\nActual bytecode:  " ++ Text.quoteList (c.opcodes.map Opcode.name)

end Chunk

end Componentry
