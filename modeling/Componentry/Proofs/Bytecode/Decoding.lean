import Componentry.Proofs.Bytecode.Encoding
import Mathlib.Data.List.Forall2

/-!
# Reading code back

The bytes of a procedure, together with the constant pool, give back the instructions that were
written: each at the offset where it was written, with its operands, and in order.

## Main definitions

* `Operation` — an instruction as it is read from bytes, with what its operands refer to
* `Chunk.operations?` — all instructions of a procedure in this form, with their offsets

## Main results

* `Instruction.StandsAt.operation?_eq` — an instruction is read back from where it stands
* `Assembly.encoded_run` — carrying out directives writes the bytes of their instructions in order
* `assemble_operations` — the code of a procedure is read back as the instructions of its directives
-/

namespace Componentry

/-- An instruction as it is read from bytes, with what its operands refer to. -/
inductive Operation where
  | push (value : Constant)
  | pushNull
  | pushBool (value : Bool)
  | pop
  | dup
  | getLocal (slot : Nat)
  | setLocal (slot : Nat)
  | setStatic (field : Fingerprint)
  | call (procedure : Fingerprint) (args : Nat)
  | callMethod (method : Fingerprint) (args : Nat)
  | new (type constructor : Fingerprint) (args : Nat)
  | return
  | returnVoid
  deriving DecidableEq, Inhabited

/-- The instruction as it is read from its bytes, when constants are held as `hold` tells. -/
def Instruction.operation (hold : Constant → Constant) : Instruction → Operation
  | load c => .push (hold c)
  | pushInt n => .push (.int n)
  | pushNull => .pushNull
  | pushBool b => .pushBool b
  | pop => .pop
  | dup => .dup
  | getLocal slot => .getLocal slot
  | setLocal slot => .setLocal slot
  | setStatic field _ => .setStatic field
  | call procedure _ args => .call procedure args.toNat
  | callMethod m => .callMethod m.fingerprint m.arity
  | new k => .new k.owner.fingerprint k.fingerprint k.arity
  | returnVoid => .returnVoid

namespace Chunk

/-- The instruction at an offset with its operands, which are looked up in the pool. -/
def operation? (pool : Pool) (c : Chunk) (offset : Nat) : Opcode → Option Operation
  | .constant => do return .push (← pool.get? (← c.byte? (offset + 1)).toNat)
  | .constantWide => do return .push (← pool.get? (← c.word? (offset + 1)))
  | .pushNull => some .pushNull
  | .pushTrue => some (.pushBool true)
  | .pushFalse => some (.pushBool false)
  | .pushZero => some (.push (.int 0))
  | .pushOne => some (.push (.int 1))
  | .pop => some .pop
  | .dup => some .dup
  | .getLocal => do return .getLocal (← c.byte? (offset + 1)).toNat
  | .setLocal => do return .setLocal (← c.byte? (offset + 1)).toNat
  | .getLocalWide => do return .getLocal (← c.word? (offset + 1))
  | .setLocalWide => do return .setLocal (← c.word? (offset + 1))
  | .setStatic => do return .setStatic (← pool.symbol? (← c.word? (offset + 1)))
  | .call =>
    do return .call (← pool.symbol? (← c.word? (offset + 1))) (← c.byte? (offset + 3)).toNat
  | .callMethod => do
    return .callMethod (← pool.symbol? (← c.word? (offset + 1))) (← c.byte? (offset + 3)).toNat
  | .new => do
    return .new (← pool.symbol? (← c.word? (offset + 1))) (← pool.symbol? (← c.word? (offset + 3)))
      (← c.byte? (offset + 5)).toNat
  | .return => some .return
  | .returnVoid => some .returnVoid

/-- The instructions of the code with their offsets and operands, if all operands can be read. -/
def operations? (pool : Pool) (c : Chunk) : Option (List (Nat × Operation)) :=
  c.instructions.mapM fun (offset, op) => (c.operation? pool offset op).map (offset, ·)

/-- A constant that is loaded is read back as the pool holds it. -/
theorem HasConstant.operation?_eq {pool : Pool} {c : Chunk} {offset : Nat} {op : Opcode}
    {value : Constant} (h : c.HasConstant pool offset op value) :
    c.operation? pool offset op = some (.push (pool.held value)) := by
  obtain ⟨index, number, held⟩ := h
  obtain ⟨other, found, same⟩ := Option.map_eq_some_iff.mp held
  rw [Pool.held_eq found same]
  rcases number with ⟨-, rfl, read⟩ | ⟨-, rfl, read⟩
  · obtain ⟨b, byte, rfl⟩ := Option.map_eq_some_iff.mp read
    simp [operation?, byte, found]
  · simp [operation?, read, found]

end Chunk

/-- An instruction that stands in the code is read back from there. -/
theorem Instruction.StandsAt.operation?_eq {pool : Pool} {c : Chunk} {offset : Nat} {op : Opcode}
    {i : Instruction} (h : i.StandsAt pool c offset op) :
    c.operation? pool offset op = some (i.operation pool.held) := by
  cases i with
  | load value => exact Chunk.HasConstant.operation?_eq h
  | pushInt n =>
    by_cases zero : n = 0
    · simp only [StandsAt, if_pos zero] at h
      rw [h, zero]
      rfl
    · by_cases one : n = 1
      · simp only [StandsAt, if_neg zero, if_pos one] at h
        rw [h, one]
        rfl
      · simp only [StandsAt, if_neg zero, if_neg one] at h
        rw [h.operation?_eq, Constant.eq_int_of_key (pool.key_held _)]
        rfl
  | pushBool b =>
    cases b <;> cases h <;> rfl
  | pushNull | pop | dup | returnVoid =>
    cases h
    rfl
  | getLocal slot | setLocal slot =>
    rcases h with ⟨-, rfl, read⟩ | ⟨-, rfl, read⟩
    · obtain ⟨b, byte, rfl⟩ := Option.map_eq_some_iff.mp read
      simp [Chunk.operation?, byte, operation]
    · simp [Chunk.operation?, read, operation]
  | setStatic field name =>
    obtain ⟨rfl, index, read, found⟩ := h
    simp [Chunk.operation?, read, Pool.symbol?, found, operation]
  | call procedure name args =>
    obtain ⟨rfl, ⟨index, read, found⟩, count⟩ := h
    obtain ⟨b, byte, same⟩ := Option.map_eq_some_iff.mp count
    simp [Chunk.operation?, read, Pool.symbol?, found, byte, same, operation]
  | callMethod m =>
    obtain ⟨rfl, ⟨index, read, found⟩, count⟩ := h
    obtain ⟨b, byte, same⟩ := Option.map_eq_some_iff.mp count
    simp [Chunk.operation?, read, Pool.symbol?, found, byte, same, operation]
  | new k =>
    obtain ⟨rfl, ⟨typeIndex, typeRead, typeFound⟩, ⟨index, read, found⟩, count⟩ := h
    obtain ⟨b, byte, same⟩ := Option.map_eq_some_iff.mp count
    simp [Chunk.operation?, typeRead, read, Pool.symbol?, typeFound, found, byte, same, operation]

/-! ### Directives -/

namespace Directive

/-- The instruction that a directive writes, if it does. -/
def instruction? : Directive → Option Instruction
  | instruction i => some i
  | line _ | enter _ _ | leave _ | abort _ => none

/-- The instructions among directives, in order. -/
def instructions (ds : List Directive) : List Instruction := ds.filterMap instruction?

@[simp] theorem instructions_nil : instructions [] = [] := rfl

@[simp] theorem instructions_instruction (i : Instruction) (ds : List Directive) :
    instructions (instruction i :: ds) = i :: instructions ds := rfl

@[simp] theorem instructions_line (n : Nat) (ds : List Directive) :
    instructions (line n :: ds) = instructions ds := rfl

@[simp] theorem instructions_enter (name : String) (type : StaticType) (ds : List Directive) :
    instructions (enter name type :: ds) = instructions ds := rfl

@[simp] theorem instructions_leave (slot : Nat) (ds : List Directive) :
    instructions (leave slot :: ds) = instructions ds := rfl

@[simp] theorem instructions_append (ds es : List Directive) :
    instructions (ds ++ es) = instructions ds ++ instructions es :=
  List.filterMap_append

end Directive

namespace Assembly

/-- What one directive writes. -/
theorem encoded_step {a b : Assembly} {d : Directive} (h : a.step d = .ok b) :
    ∃ parts, b.emitter.chunk.values = a.emitter.chunk.values ++ parts.flatten ∧
      List.Forall₂ (Instruction.Encoded b.emitter.pool) (Directive.instructions [d]) parts ∧
      a.emitter.pool.Extends b.emitter.pool := by
  cases d with
  | line n | enter name type | leave slot =>
    cases h
    exact ⟨[], (List.append_nil _).symm, .nil, .refl _⟩
  | abort failure => cases h
  | instruction i =>
    simp only [step, Emitter.emit] at h
    cases encoded : i.encode a.emitter.pool with
    | mk pool result =>
      rw [encoded] at h
      cases result with
      | error failure => cases h
      | ok bytes =>
        cases h
        refine ⟨[bytes], ?_, .cons (Instruction.encoded_encode encoded) .nil, ?_⟩
        · simp [Emitter.write]
        · have extended := Instruction.extends_encode a.emitter.pool i
          rw [encoded] at extended
          exact extended

/-- Directives write the bytes of their instructions in order, and the pool only grows. -/
theorem encoded_run {ds : List Directive} {a b : Assembly} (h : a.run ds = .ok b) :
    ∃ parts, b.emitter.chunk.values = a.emitter.chunk.values ++ parts.flatten ∧
      List.Forall₂ (Instruction.Encoded b.emitter.pool) (Directive.instructions ds) parts ∧
      a.emitter.pool.Extends b.emitter.pool := by
  induction ds generalizing a with
  | nil =>
    cases h
    exact ⟨[], (List.append_nil _).symm, .nil, .refl _⟩
  | cons d ds ih =>
    rw [run] at h
    split at h
    · rename_i next stepped
      obtain ⟨parts₁, values₁, encoded₁, extended₁⟩ := encoded_step stepped
      obtain ⟨parts₂, values₂, encoded₂, extended₂⟩ := ih h
      refine ⟨parts₁ ++ parts₂, ?_, ?_, extended₁.trans extended₂⟩
      · rw [values₂, values₁, List.flatten_append, List.append_assoc]
      · -- What the first directive wrote is read over the pool as it is in the end.
        rw [← List.singleton_append, Directive.instructions_append]
        exact List.rel_append (encoded₁.imp fun _ _ encoded => encoded.mono extended₂) encoded₂
    · cases h

end Assembly

/-! ### Reading procedures -/

/-- The offsets of consecutive stretches of bytes. -/
def offsets (start : Nat) : List (List UInt8) → List Nat
  | [] => []
  | part :: parts => start :: offsets (start + part.length) parts

theorem offsets_append (start : Nat) (xs ys : List (List UInt8)) :
    offsets start (xs ++ ys) = offsets start xs ++ offsets (start + xs.flatten.length) ys := by
  induction xs generalizing start with
  | nil => rfl
  | cons x xs ih => simp [offsets, ih, Nat.add_assoc]

@[simp] theorem length_offsets (start : Nat) (parts : List (List UInt8)) :
    (offsets start parts).length = parts.length := by
  induction parts generalizing start with
  | nil => rfl
  | cons part parts ih => simp [offsets, ih]

namespace Chunk

/-- Operand bytes are passed over, as far as there are any. -/
theorem decodeFrom_drop (skip offset : Nat) (bytes : List UInt8) :
    decodeFrom skip offset bytes = decodeFrom 0 (offset + skip) (bytes.drop skip) := by
  induction bytes generalizing skip offset with
  | nil => simp [decodeFrom]
  | cons b rest ih =>
    cases skip with
    | zero => rfl
    | succ k =>
      rw [decodeFrom, ih, List.drop_succ_cons]
      congr 1
      omega

/-- Operand bytes are passed over. -/
theorem decodeFrom_append {operands : List UInt8} {skip : Nat} (size : operands.length = skip)
    (offset : Nat) (rest : List UInt8) :
    decodeFrom skip offset (operands ++ rest) = decodeFrom 0 (offset + skip) rest := by
  rw [decodeFrom_drop, ← size, List.drop_left]

/-- An opcode with its operands is decoded as one instruction. -/
theorem decodeFrom_instruction {op : Opcode} {operands : List UInt8}
    (size : operands.length = op.operandSize) (offset : Nat) (rest : List UInt8) :
    decodeFrom 0 offset ((op.toByte :: operands) ++ rest) =
      (offset, op) :: decodeFrom 0 (offset + (op.toByte :: operands).length) rest := by
  simp only [List.cons_append, decodeFrom, Opcode.ofByte?_toByte, decodeFrom_append size,
    List.length_cons, size]
  congr 2
  omega

/-- Encoded instructions are read back one after the other. -/
theorem mapM_operation?_decodeFrom {pool : Pool} (c : Chunk) {is : List Instruction}
    {parts : List (List UInt8)} (encoded : List.Forall₂ (Instruction.Encoded pool) is parts)
    (before : List UInt8) (values_eq : c.values = before ++ parts.flatten) :
    (decodeFrom 0 before.length parts.flatten).mapM
        (fun (offset, op) => (c.operation? pool offset op).map (offset, ·)) =
      some ((offsets before.length parts).zip (is.map (·.operation pool.held))) := by
  -- Along the instructions; `before` holds the bytes of those that were read already.
  induction encoded generalizing before with
  | nil => rfl
  | @cons i part is parts head tail ih =>
    obtain ⟨op, operands, rfl, size, stands⟩ := head
    have read : c.operation? pool before.length op = some (i.operation pool.held) :=
      (stands c before.length ⟨before, parts.flatten, values_eq, rfl⟩).operation?_eq
    have rest := ih (before ++ op.toByte :: operands) (by simp [values_eq])
    rw [List.length_append] at rest
    rw [List.flatten_cons, decodeFrom_instruction size, List.mapM_cons, rest]
    simp [read, offsets]

end Chunk

/-- The code of a procedure is read back as the instructions of its directives, over the pool that
it was written with and all later ones. -/
theorem assemble_operations {pool later : Pool} {ds : List Directive} {a : Assembly}
    (assembled : assemble pool ds = .ok a) (extended : a.emitter.pool.Extends later) :
    ∃ parts, a.emitter.chunk.values = parts.flatten ∧
      List.Forall₂ (Instruction.Encoded a.emitter.pool) (Directive.instructions ds) parts ∧
      a.emitter.chunk.operations? later =
        some ((offsets 0 parts).zip
          ((Directive.instructions ds).map (·.operation later.held))) := by
  obtain ⟨parts, values_eq, encoded, -⟩ := Assembly.encoded_run assembled
  have written : a.emitter.chunk.values = parts.flatten := values_eq
  refine ⟨parts, written, encoded, ?_⟩
  have lasting := encoded.imp fun _ _ h => h.mono extended
  have read := Chunk.mapM_operation?_decodeFrom a.emitter.chunk lasting [] written
  rw [← written] at read
  exact read

theorem assemble_operations_snd {pool later : Pool} {ds : List Directive} {a : Assembly}
    (assembled : assemble pool ds = .ok a) (extended : a.emitter.pool.Extends later) :
    (a.emitter.chunk.operations? later).map (List.map Prod.snd) =
      some ((Directive.instructions ds).map (·.operation later.held)) := by
  obtain ⟨parts, -, encoded, read⟩ := assemble_operations assembled extended
  rw [read, Option.map_some, List.map_snd_zip]
  rw [List.length_map, length_offsets]
  exact Nat.le_of_eq encoded.length_eq

end Componentry
