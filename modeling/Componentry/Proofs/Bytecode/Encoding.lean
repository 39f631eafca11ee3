import Componentry.Bytecode.Emitter
import Componentry.Proofs.Bytecode.PoolContents

/-!
# Bytes of instructions

An instruction is an opcode with operands. Where its bytes stand in the code of a procedure, the
operands can be read: the slot, the count of arguments, and the positions in the pool of what it
refers to. A number takes one byte up to `255` and two bytes beyond, with an opcode of its own for
each form.

## Main definitions

* `Chunk.HasAt` — bytes stand in the code from an offset on
* `Instruction.StandsAt` — an instruction stands at an offset, with its opcode and operands
* `Instruction.Encoded` — bytes at which an instruction stands wherever they are

## Main results

* `Instruction.StandsAt.mono` — an instruction still stands where it was when code or pool grow
* `Instruction.encoded_encode` — the bytes of an instruction are such bytes
* `Instruction.extends_encode` — the pool only grows when an instruction is encoded
-/

namespace Componentry

/-! ### Reading bytes -/

namespace Chunk

/-- The bytes without their lines. -/
def values (c : Chunk) : List UInt8 := c.bytes.toList.map (·.value)

theorem byte?_eq (c : Chunk) (offset : Nat) : c.byte? offset = c.values[offset]? := by
  simp [byte?, values]

@[simp] theorem length_values (c : Chunk) : c.values.length = c.size := by simp [values, size]

@[simp] theorem values_append (c : Chunk) (line : Nat) (bytes : List UInt8) :
    (c.append line bytes).values = c.values ++ bytes := by
  rw [values, toList_bytes_append, List.map_append, List.map_map]
  exact congrArg _ (List.map_id bytes)

/-- The bytes stand in the code from the offset on. -/
def HasAt (c : Chunk) (offset : Nat) (bytes : List UInt8) : Prop :=
  ∃ before after, c.values = before ++ (bytes ++ after) ∧ before.length = offset

namespace HasAt

variable {c : Chunk} {offset : Nat} {b : UInt8} {rest : List UInt8}

theorem append_right {bytes : List UInt8} (h : c.HasAt offset (bytes ++ rest)) :
    c.HasAt (offset + bytes.length) rest := by
  obtain ⟨before, after, values_eq, rfl⟩ := h
  exact ⟨before ++ bytes, after, by simp [values_eq], by simp⟩

theorem tail (h : c.HasAt offset (b :: rest)) : c.HasAt (offset + 1) rest := by
  rw [← List.singleton_append] at h
  exact h.append_right

theorem byte? (h : c.HasAt offset (b :: rest)) : c.byte? offset = some b := by
  obtain ⟨before, after, values_eq, rfl⟩ := h
  simp [byte?_eq, values_eq]

/-- A number below `2 ^ 16` is read back from its two bytes. -/
theorem word? {n : Nat} (small : n < 65536) (h : c.HasAt offset (wordBytes n ++ rest)) :
    c.word? offset = some n := by
  have low : UInt8.toNat (UInt8.ofNat (n % 256)) = n % 256 := by
    simp
  have high : UInt8.toNat (UInt8.ofNat (n / 256)) = n / 256 := by
    rw [UInt8.toNat_ofNat']
    omega
  rw [wordBytes, List.cons_append] at h
  simp only [Chunk.word?, h.byte?, h.tail.byte?, high, low]
  exact congrArg some (by omega)

end HasAt

/-- The second code has all bytes of the first, at the same offsets and for the same lines. -/
def Extends (c d : Chunk) : Prop :=
  ∀ (offset : Nat) (b : CodeByte), c.bytes[offset]? = some b → d.bytes[offset]? = some b

theorem extends_append (c : Chunk) (line : Nat) (bytes : List UInt8) :
    c.Extends (c.append line bytes) := by
  intro offset b found
  have inside : offset < c.bytes.size := (Array.getElem?_eq_some_iff.mp found).1
  rw [append, Array.getElem?_append_left inside, found]

/-- All bytes that are appended are for one line. -/
theorem line?_append {c : Chunk} {line j : Nat} {bytes : List UInt8} (inside : j < bytes.length) :
    (c.append line bytes).line? (c.size + j) = some line := by
  simp [line?, append, size, inside]

namespace Extends

variable {c d : Chunk} {offset : Nat}

theorem byte? (h : c.Extends d) {b : UInt8} (read : c.byte? offset = some b) :
    d.byte? offset = some b := by
  obtain ⟨code, found, rfl⟩ := Option.map_eq_some_iff.mp read
  rw [Chunk.byte?, h offset code found]
  rfl

theorem word? (h : c.Extends d) {n : Nat} (read : c.word? offset = some n) :
    d.word? offset = some n := by
  unfold Chunk.word? at read
  split at read
  · rename_i high low first second
    rw [Chunk.word?, h.byte? first, h.byte? second]
    exact read
  · cases read

theorem line? (h : c.Extends d) {n : Nat} (read : c.line? offset = some n) :
    d.line? offset = some n := by
  obtain ⟨code, found, rfl⟩ := Option.map_eq_some_iff.mp read
  rw [Chunk.line?, h offset code found]
  rfl

end Extends

/-! ### Operands -/

/-- The byte at the offset is the given number. -/
def HasCount (c : Chunk) (offset n : Nat) : Prop := (c.byte? offset).map UInt8.toNat = some n

/-- An instruction at the offset has one number as its operand: up to `255` it takes the narrow form
with one byte, and beyond the wide form with two. -/
def HasNumber (c : Chunk) (offset : Nat) (op narrow wide : Opcode) (n : Nat) : Prop :=
  (n ≤ 255 ∧ op = narrow ∧ c.HasCount (offset + 1) n) ∨
    (255 < n ∧ op = wide ∧ c.word? (offset + 1) = some n)

/-- An instruction at the offset loads a constant: its operand is a position in the pool at which
the same constant is held. -/
def HasConstant (pool : Pool) (c : Chunk) (offset : Nat) (op : Opcode) (value : Constant) : Prop :=
  ∃ index, c.HasNumber offset op .constant .constantWide index ∧
    (pool.get? index).map Constant.key = some value.key

/-- The two bytes at the offset are the position of a symbol in the pool. -/
def HasSymbol (pool : Pool) (c : Chunk) (offset : Nat) (h : Fingerprint) : Prop :=
  ∃ index, c.word? offset = some index ∧ pool.get? index = some (.symbol h)

variable {c d : Chunk} {pool later : Pool} {offset n : Nat}

theorem HasCount.mono (h : c.HasCount offset n) (code : c.Extends d) : d.HasCount offset n := by
  obtain ⟨b, read, same⟩ := Option.map_eq_some_iff.mp h
  rw [HasCount, code.byte? read]
  exact congrArg some same

theorem HasNumber.mono {op narrow wide : Opcode} (h : c.HasNumber offset op narrow wide n)
    (code : c.Extends d) : d.HasNumber offset op narrow wide n := by
  rcases h with ⟨small, form, read⟩ | ⟨large, form, read⟩
  · exact Or.inl ⟨small, form, read.mono code⟩
  · exact Or.inr ⟨large, form, code.word? read⟩

theorem HasConstant.mono {op : Opcode} {value : Constant} (h : c.HasConstant pool offset op value)
    (code : c.Extends d) (grown : pool.Extends later) : d.HasConstant later offset op value := by
  obtain ⟨index, number, held⟩ := h
  obtain ⟨other, found, same⟩ := Option.map_eq_some_iff.mp held
  refine ⟨index, number.mono code, ?_⟩
  rw [grown index other found]
  exact congrArg some same

theorem HasSymbol.mono {symbol : Fingerprint} (h : c.HasSymbol pool offset symbol)
    (code : c.Extends d) (grown : pool.Extends later) : d.HasSymbol later offset symbol := by
  obtain ⟨index, read, found⟩ := h
  exact ⟨index, code.word? read, grown index _ found⟩

end Chunk

/-! ### Instructions -/

namespace Instruction

/-- The instruction stands in the code at the offset, with the given opcode; its operands follow,
and what it refers to is found in the pool at the positions that they give. -/
def StandsAt (pool : Pool) (c : Chunk) (offset : Nat) (op : Opcode) : Instruction → Prop
  | load value => c.HasConstant pool offset op value
  | pushInt n =>
    if n = 0 then op = .pushZero
    else if n = 1 then op = .pushOne
    else c.HasConstant pool offset op (.int n)
  | pushNull => op = .pushNull
  | pushBool b => op = if b then .pushTrue else .pushFalse
  | pop => op = .pop
  | dup => op = .dup
  | getLocal slot => c.HasNumber offset op .getLocal .getLocalWide slot
  | setLocal slot => c.HasNumber offset op .setLocal .setLocalWide slot
  | setStatic field _ => op = .setStatic ∧ c.HasSymbol pool (offset + 1) field
  | call procedure _ args =>
    op = .call ∧ c.HasSymbol pool (offset + 1) procedure ∧ c.HasCount (offset + 3) args.toNat
  | callMethod m =>
    op = .callMethod ∧ c.HasSymbol pool (offset + 1) m.fingerprint ∧ c.HasCount (offset + 3) m.arity
  | new k =>
    op = .new ∧ c.HasSymbol pool (offset + 1) k.owner.fingerprint ∧
      c.HasSymbol pool (offset + 3) k.fingerprint ∧ c.HasCount (offset + 5) k.arity
  | returnVoid => op = .returnVoid

/-- An instruction still stands where it was when the code or the pool grow. -/
theorem StandsAt.mono {pool later : Pool} {c d : Chunk} {offset : Nat} {op : Opcode}
    {i : Instruction} (h : i.StandsAt pool c offset op) (code : c.Extends d)
    (grown : pool.Extends later) : i.StandsAt later d offset op := by
  cases i with
  | load value => exact Chunk.HasConstant.mono h code grown
  | pushInt n =>
    by_cases zero : n = 0
    · simpa only [StandsAt, if_pos zero] using h
    · by_cases one : n = 1
      · simpa only [StandsAt, if_neg zero, if_pos one] using h
      · simp only [StandsAt, if_neg zero, if_neg one] at h ⊢
        exact h.mono code grown
  | pushNull | pushBool _ | pop | dup | returnVoid => exact h
  | getLocal slot | setLocal slot => exact Chunk.HasNumber.mono h code
  | setStatic field name =>
    obtain ⟨form, symbol⟩ := h
    exact ⟨form, symbol.mono code grown⟩
  | call procedure name args =>
    obtain ⟨form, symbol, count⟩ := h
    exact ⟨form, symbol.mono code grown, count.mono code⟩
  | callMethod m =>
    obtain ⟨form, symbol, count⟩ := h
    exact ⟨form, symbol.mono code grown, count.mono code⟩
  | new k =>
    obtain ⟨form, type, symbol, count⟩ := h
    exact ⟨form, type.mono code grown, symbol.mono code grown, count.mono code⟩

/-- The bytes are an opcode with its operands, and wherever they are, the instruction stands
there. -/
def Encoded (pool : Pool) (i : Instruction) (bytes : List UInt8) : Prop :=
  ∃ op operands, bytes = Opcode.toByte op :: operands ∧ operands.length = op.operandSize ∧
    ∀ (c : Chunk) (offset : Nat), c.HasAt offset bytes → i.StandsAt pool c offset op

theorem Encoded.mono {pool later : Pool} {i : Instruction} {bytes : List UInt8}
    (h : i.Encoded pool bytes) (grown : pool.Extends later) : i.Encoded later bytes := by
  obtain ⟨op, operands, bytes_eq, length_eq, stands⟩ := h
  refine ⟨op, operands, bytes_eq, length_eq, fun c offset present => ?_⟩
  exact (stands c offset present).mono (fun _ _ found => found) grown

theorem toNat_ofNat_of_lt {n : Nat} (small : n < 256) : (UInt8.ofNat n).toNat = n := by
  rw [UInt8.toNat_ofNat', Nat.mod_eq_of_lt small]

theorem hasCount_of_hasAt {c : Chunk} {offset n : Nat} {rest : List UInt8} (small : n < 256)
    (present : c.HasAt offset (UInt8.ofNat n :: rest)) : c.HasCount offset n := by
  rw [Chunk.HasCount, present.byte?, Option.map_some, toNat_ofNat_of_lt small]

/-! ### Inversions of the encoding -/

/-- A number is written in one byte if it fits, and in two otherwise. -/
theorem narrowOrWide_eq_ok {narrow wide : Opcode} {n : Nat} {bytes : List UInt8}
    (h : narrowOrWide narrow wide n = .ok bytes) :
    (n < 256 ∧ bytes = [narrow.toByte, UInt8.ofNat n]) ∨
      (255 < n ∧ n < 65536 ∧ bytes = wide.toByte :: wordBytes n) := by
  unfold narrowOrWide wideOperand at h
  split at h
  · rename_i small
    exact Or.inl ⟨small, (Except.ok.inj h).symm⟩
  · rename_i large
    split at h
    · rename_i small
      exact Or.inr ⟨Nat.not_lt.mp large, small, (Except.ok.inj h).symm⟩
    · cases h

theorem wideOperand_eq_ok {n : Nat} {bytes : List UInt8} (h : wideOperand n = .ok bytes) :
    n < 65536 ∧ bytes = wordBytes n := by
  unfold wideOperand at h
  split at h
  · rename_i small
    exact ⟨small, (Except.ok.inj h).symm⟩
  · cases h

theorem narrowOperand_eq_ok {n : Nat} {bytes : List UInt8} (h : narrowOperand n = .ok bytes) :
    n < 256 ∧ bytes = [UInt8.ofNat n] := by
  unfold narrowOperand at h
  split at h
  · rename_i small
    exact ⟨small, (Except.ok.inj h).symm⟩
  · cases h

/-- The operands of an instruction with a symbol are its position and the further operands. -/
theorem encodeSymbol_eq_ok {pool pool' : Pool} {op : Opcode} {h : Fingerprint} {name : String}
    {rest : Except CompileError (List UInt8)} {bytes : List UInt8}
    (encoded : encodeSymbol pool op h name rest = (pool', .ok bytes)) :
    pool' = (pool.addSymbol h name).1 ∧ (pool.addSymbol h name).2 < 65536 ∧
      ∃ more, rest = .ok more ∧
        bytes = op.toByte :: (wordBytes (pool.addSymbol h name).2 ++ more) := by
  simp only [encodeSymbol, Prod.mk.injEq] at encoded
  obtain ⟨rfl, encoded⟩ := encoded
  cases index : wideOperand (pool.addSymbol h name).2 with
  | error failure =>
    rw [index] at encoded
    cases encoded
  | ok word =>
    obtain ⟨small, rfl⟩ := wideOperand_eq_ok index
    cases operands : rest with
    | error failure =>
      rw [index, operands] at encoded
      cases encoded
    | ok more =>
      rw [index, operands] at encoded
      exact ⟨rfl, small, more, rfl, (Except.ok.inj encoded).symm⟩

/-- The operands of a creation are the positions of two symbols and the count of arguments. -/
theorem encodeNew_eq_ok {pool pool' : Pool} {k : Constructor} {bytes : List UInt8}
    (encoded : encodeNew pool k = (pool', .ok bytes)) :
    let first := pool.addSymbol k.owner.fingerprint k.owner.text
    let second := first.1.addSymbol k.fingerprint k.text
    pool' = second.1 ∧ first.2 < 65536 ∧ second.2 < 65536 ∧ k.arity < 256 ∧
      bytes = Opcode.new.toByte ::
      (wordBytes first.2 ++ (wordBytes second.2 ++ [UInt8.ofNat k.arity])) := by
  intro first second
  simp only [encodeNew] at encoded
  cases typeIndex : wideOperand first.2 with
  | error failure =>
    rw [typeIndex] at encoded
    cases encoded
  | ok typeBytes =>
    obtain ⟨typeSmall, rfl⟩ := wideOperand_eq_ok typeIndex
    rw [typeIndex] at encoded
    simp only [Prod.mk.injEq] at encoded
    obtain ⟨rfl, encoded⟩ := encoded
    cases index : wideOperand second.2 with
    | error failure =>
      rw [index] at encoded
      cases encoded
    | ok word =>
      obtain ⟨small, rfl⟩ := wideOperand_eq_ok index
      cases count : narrowOperand k.arity with
      | error failure =>
        rw [index, count] at encoded
        cases encoded
      | ok byte =>
        obtain ⟨few, rfl⟩ := narrowOperand_eq_ok count
        rw [index, count] at encoded
        refine ⟨rfl, typeSmall, small, few, ?_⟩
        rw [← Except.ok.inj encoded]
        simp

/-! ### The encoding of each instruction -/

theorem encoded_opcode {pool : Pool} {i : Instruction} (op : Opcode) (size : op.operandSize = 0)
    (stands : ∀ (c : Chunk) (offset : Nat), i.StandsAt pool c offset op) :
    i.Encoded pool [op.toByte] :=
  ⟨op, [], rfl, size.symm, fun c offset _ => stands c offset⟩

/-- An instruction with one number is written in the form that the number calls for. -/
theorem encoded_narrowOrWide {pool : Pool} {i : Instruction} {narrow wide : Opcode} {n : Nat}
    {bytes : List UInt8} (encoded : narrowOrWide narrow wide n = .ok bytes)
    (narrow_size : narrow.operandSize = 1) (wide_size : wide.operandSize = 2)
    (stands : ∀ (c : Chunk) (offset : Nat) (op : Opcode), c.HasNumber offset op narrow wide n →
      i.StandsAt pool c offset op) :
    i.Encoded pool bytes := by
  rcases narrowOrWide_eq_ok encoded with ⟨small, rfl⟩ | ⟨large, small, rfl⟩
  · refine ⟨narrow, _, rfl, narrow_size.symm, fun c offset present => stands c offset narrow ?_⟩
    exact Or.inl ⟨Nat.le_of_lt_succ small, rfl, hasCount_of_hasAt small present.tail⟩
  · refine ⟨wide, _, rfl, wide_size.symm, fun c offset present => stands c offset wide ?_⟩
    have operands := present.tail
    rw [← List.append_nil (wordBytes n)] at operands
    exact Or.inr ⟨large, rfl, operands.word? small⟩

theorem encoded_encodeLoad {pool pool' : Pool} {i : Instruction} {constant : Constant}
    {bytes : List UInt8} (encoded : encodeLoad pool constant = (pool', .ok bytes))
    (stands : ∀ (c : Chunk) (offset : Nat) (op : Opcode), c.HasConstant pool' offset op constant →
      i.StandsAt pool' c offset op) :
    i.Encoded pool' bytes := by
  simp only [encodeLoad, Prod.mk.injEq] at encoded
  obtain ⟨rfl, encoded⟩ := encoded
  refine encoded_narrowOrWide encoded rfl rfl fun c offset op number => stands c offset op ?_
  exact ⟨_, number, pool.key_get?_add constant⟩

/-- An instruction with a symbol and a count of arguments. -/
theorem encoded_encodeSymbol {pool pool' : Pool} {i : Instruction} {op : Opcode} {h : Fingerprint}
    {name : String} {rest : Except CompileError (List UInt8)} {bytes : List UInt8} {count : UInt8}
    (encoded : encodeSymbol pool op h name rest = (pool', .ok bytes))
    (counted : ∀ more, rest = .ok more → more = [count]) (size : op.operandSize = 3)
    (stands : ∀ (c : Chunk) (offset : Nat), c.HasSymbol pool' (offset + 1) h →
      c.HasCount (offset + 3) count.toNat → i.StandsAt pool' c offset op) :
    i.Encoded pool' bytes := by
  obtain ⟨rfl, small, more, operands, rfl⟩ := encodeSymbol_eq_ok encoded
  obtain rfl := counted more operands
  refine ⟨op, _, rfl, size.symm, fun c offset present => stands c offset ?_ ?_⟩
  · exact ⟨_, present.tail.word? small, pool.get?_addSymbol h name⟩
  · exact congrArg (Option.map UInt8.toNat) present.tail.append_right.byte?

theorem encoded_setStatic {pool pool' : Pool} {field : Fingerprint} {name : String}
    {bytes : List UInt8} (encoded : (setStatic field name).encode pool = (pool', .ok bytes)) :
    (setStatic field name).Encoded pool' bytes := by
  obtain ⟨rfl, small, more, operands, rfl⟩ := encodeSymbol_eq_ok encoded
  cases operands
  refine ⟨.setStatic, _, rfl, rfl, fun c offset present => ⟨rfl, ?_⟩⟩
  exact ⟨_, present.tail.word? small, pool.get?_addSymbol field name⟩

theorem encoded_new {pool pool' : Pool} {k : Constructor} {bytes : List UInt8}
    (encoded : (new k).encode pool = (pool', .ok bytes)) : (new k).Encoded pool' bytes := by
  obtain ⟨rfl, typeSmall, small, few, rfl⟩ := encodeNew_eq_ok encoded
  refine ⟨.new, _, rfl, rfl, fun c offset present => ?_⟩
  have operands := present.tail
  -- The symbol of the class was added first, and stays when that of the constructor is added.
  have typeFound := pool.get?_addSymbol k.owner.fingerprint k.owner.text
  have kept := Pool.extends_addSymbol _ k.fingerprint k.text _ _ typeFound
  exact ⟨rfl, ⟨_, operands.word? typeSmall, kept⟩,
    ⟨_, operands.append_right.word? small, Pool.get?_addSymbol _ _ _⟩,
    hasCount_of_hasAt few operands.append_right.append_right⟩

/-- The bytes of an instruction are an opcode with operands that give what the instruction refers
to. -/
theorem encoded_encode {pool pool' : Pool} {i : Instruction} {bytes : List UInt8}
    (encoded : i.encode pool = (pool', .ok bytes)) : i.Encoded pool' bytes := by
  cases i with
  | load value => exact encoded_encodeLoad encoded fun _ _ _ held => held
  | pushInt n =>
    -- Zero and one have instructions of their own; any other number is a constant like others.
    simp only [encode] at encoded
    split at encoded
    · rename_i zero
      cases encoded
      exact encoded_opcode .pushZero rfl fun _ _ => by rw [StandsAt, if_pos zero]
    · rename_i nonzero
      split at encoded
      · rename_i one
        cases encoded
        exact encoded_opcode .pushOne rfl fun _ _ => by rw [StandsAt, if_neg nonzero, if_pos one]
      · rename_i other
        refine encoded_encodeLoad encoded fun _ _ _ held => ?_
        rwa [StandsAt, if_neg nonzero, if_neg other]
  | pushNull =>
    cases encoded
    exact encoded_opcode .pushNull rfl fun _ _ => rfl
  | pushBool b =>
    cases encoded
    refine encoded_opcode _ ?_ fun _ _ => rfl
    cases b <;> rfl
  | pop =>
    cases encoded
    exact encoded_opcode .pop rfl fun _ _ => rfl
  | dup =>
    cases encoded
    exact encoded_opcode .dup rfl fun _ _ => rfl
  | returnVoid =>
    cases encoded
    exact encoded_opcode .returnVoid rfl fun _ _ => rfl
  | getLocal slot =>
    have written : narrowOrWide .getLocal .getLocalWide slot = .ok bytes :=
      congrArg Prod.snd encoded
    exact encoded_narrowOrWide written rfl rfl fun _ _ _ number => number
  | setLocal slot =>
    have written : narrowOrWide .setLocal .setLocalWide slot = .ok bytes :=
      congrArg Prod.snd encoded
    exact encoded_narrowOrWide written rfl rfl fun _ _ _ number => number
  | setStatic field name => exact encoded_setStatic encoded
  | call procedure name args =>
    refine encoded_encodeSymbol encoded (fun more h => (Except.ok.inj h).symm) rfl ?_
    exact fun c offset symbol count => ⟨rfl, symbol, count⟩
  | callMethod m =>
    -- The count stands in one byte, so it is below `256` if there are bytes at all.
    have few : m.arity < 256 := by
      obtain ⟨-, -, more, operands, -⟩ := encodeSymbol_eq_ok encoded
      exact (narrowOperand_eq_ok operands).1
    refine encoded_encodeSymbol encoded (fun more h => (narrowOperand_eq_ok h).2) rfl ?_
    intro c offset symbol count
    rw [toNat_ofNat_of_lt few] at count
    exact ⟨rfl, symbol, count⟩
  | new k => exact encoded_new encoded

/-- The pool only grows when an instruction is encoded. -/
theorem extends_encode (pool : Pool) (i : Instruction) : pool.Extends (i.encode pool).1 := by
  cases i with
  | load c => exact pool.extends_add c
  | pushInt n =>
    simp only [encode]
    split
    · exact .refl pool
    · split
      · exact .refl pool
      · exact pool.extends_add (.int n)
  | pushNull | pushBool _ | pop | dup | returnVoid | getLocal _ | setLocal _ => exact .refl pool
  | setStatic field name => exact pool.extends_addSymbol field name
  | call procedure name args => exact pool.extends_addSymbol procedure name
  | callMethod m => exact pool.extends_addSymbol m.fingerprint m.text
  | new k =>
    have first := pool.extends_addSymbol k.owner.fingerprint k.owner.text
    simp only [encode, encodeNew]
    split
    · exact first
    · exact first.trans (Pool.extends_addSymbol _ _ _)

end Instruction

end Componentry
