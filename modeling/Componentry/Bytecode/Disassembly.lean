import Componentry.Bytecode.Chunk
import Componentry.Bytecode.Pool

/-!
# Listings of code

The code of a procedure as text: a heading, then for every instruction its offset, source line, name
and operands, symbols being shown by name.

## Main definitions

* `Disassembly.operandText` shows the operands of an instruction
* `Disassembly.text` is the listing
-/

namespace Componentry.Disassembly

/-- The operands of an instruction at an offset. Bytes beyond the end of the code count as zero. -/
def operandText (pool : Pool) (code : Chunk) (offset : Nat) (op : Opcode) : String :=
  let byte (ahead : Nat) : Nat := ((code.byte? (offset + ahead)).map UInt8.toNat).getD 0
  let word (ahead : Nat) : Nat := (code.word? (offset + ahead)).getD 0
  match op with
  | .constant => pool.describe (byte 1)
  | .constantWide | .setStatic | .new => pool.describe (word 1)
  | .getLocal | .setLocal => toString (byte 1)
  | .getLocalWide | .setLocalWide => toString (word 1)
  | .call | .callMethod => pool.describe (word 1) ++ s!" ({byte 3} args)"
  | .pushNull | .pushTrue | .pushFalse | .pushZero | .pushOne | .pop | .dup | .return
  | .returnVoid => ""

/-- The line of an instruction in a listing. -/
def lineText (pool : Pool) (code : Chunk) (offset : Nat) (op : Opcode) : String :=
  let line := (code.line? offset).getD 0
  String.ofList
    (Text.padLeft '0' 4 (Nat.toDigits 10 offset) ++ ' ' :: Text.padLeft ' ' 4 (Nat.toDigits 10 line)
      ++ ' ' :: Text.padRight 14 op.name.toList ++ ' ' :: (operandText pool code offset op).toList)

/-- The listing of a procedure of a unit, without blanks at its end. -/
def text (unit procedure : String) (pool : Pool) (code : Chunk) : String :=
  let heading := "== " ++ unit ++ "." ++ procedure ++ " =="
  let lines := code.instructions.map fun (offset, op) => lineText pool code offset op
  Text.trimEnd ("\n".intercalate (heading :: lines))

end Componentry.Disassembly
