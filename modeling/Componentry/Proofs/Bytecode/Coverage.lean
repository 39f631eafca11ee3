import Componentry.Proofs.Bytecode.Decoding
import Mathlib.Data.List.Basic
import Mathlib.Order.WellFounded

/-!
# Decoding any bytes

Code that was not emitted can be decoded too. A pass goes over the bytes from the first to the last:
where the next byte is an opcode, the instruction is put out and its operands are left out, whatever
they look like; any other byte is left out by itself. The pass ends after as many turns as there are
bytes, at the latest. It accounts for every byte exactly once. What it finds from an instruction on
depends on nothing before it, so that the pass can be taken up there.

## Main definitions

* `Chunk.Sweep`, `Chunk.turn`, `Chunk.sweep` — the pass over the bytes, one turn and a number of
  turns
* `Chunk.Role`, `Chunk.HasRole` — what a byte is in the decoded code
* `Chunk.instructionsFrom` — the instructions from an offset on

## Main results

* `Chunk.instructionsFrom_of_opcode`, `Chunk.instructionsFrom_of_none` — the decoder goes on like
  the pass
* `Chunk.strictMono_offset` — the pass goes forward in every turn
* `Chunk.mem_instructions_iff` — the instructions are the opcodes that the pass reads
* `Chunk.exists_role`, `Chunk.HasRole.unique` — every byte has one role
* `Chunk.decoding_accounts` — every byte has exactly one role, and decoding can be taken up at any
  instruction
-/

namespace Componentry

namespace Chunk

/-- The state of a pass over the code: the offset of the next byte to be read, and the instructions
found so far. -/
structure Sweep where
  offset : Nat
  found : List (Nat × Opcode)

/-- One turn of the pass. An opcode is put out, and its operands are left out; any other byte is
left out. -/
def turn (c : Chunk) (s : Sweep) : Sweep :=
  match c.opcode? s.offset with
  | some op => ⟨s.offset + 1 + op.operandSize, s.found ++ [(s.offset, op)]⟩
  | none => ⟨s.offset + 1, s.found⟩

/-- The pass after a number of turns. -/
def sweep (c : Chunk) (n : Nat) : Sweep := c.turn^[n] ⟨0, []⟩

/-- The pass reads the byte at an offset. -/
def IsRead (c : Chunk) (i : Nat) : Prop := ∃ n, (c.sweep n).offset = i

/-- What a byte is in the decoded code: an opcode, an operand of the instruction at the given
offset, or neither. -/
inductive Role where
  | opcode (op : Opcode)
  | operand (start : Nat) (op : Opcode)
  | skipped
  deriving DecidableEq

/-- The byte at an offset has the given role. An operand is one of as many bytes as the instruction
has operands, behind the last instruction before the offset; a byte is skipped if the pass reads it
and it is no opcode. -/
def HasRole (c : Chunk) (i : Nat) : Role → Prop
  | .opcode op => (i, op) ∈ c.instructions
  | .operand start op =>
    (start, op) ∈ c.instructions ∧ (∀ e ∈ c.instructions, e.1 < i → e.1 ≤ start) ∧
      start < i ∧ i ≤ start + op.operandSize
  | .skipped => c.opcode? i = none ∧ c.IsRead i

variable {c : Chunk} {i n start : Nat} {op : Opcode}

/-! ### The decoder from an offset on -/

/-- The instructions from an offset on, where an opcode is expected. -/
def instructionsFrom (c : Chunk) (offset : Nat) : List (Nat × Opcode) :=
  decodeFrom 0 offset (c.values.drop offset)

/-- The offsets that are put out are counted from the one that decoding started with. -/
theorem decodeFrom_add (skip offset shift : Nat) (bytes : List UInt8) :
    decodeFrom skip (shift + offset) bytes =
      (decodeFrom skip offset bytes).map fun e => (shift + e.1, e.2) := by
  induction bytes generalizing skip offset with
  | nil => simp [decodeFrom]
  | cons b rest ih =>
    cases skip with
    | succ k => exact ih k (offset + 1)
    | zero =>
      cases read : Opcode.ofByte? b with
      | none => simpa [decodeFrom, read, Nat.add_assoc] using ih 0 (offset + 1)
      | some op => simpa [decodeFrom, read, Nat.add_assoc] using ih op.operandSize (offset + 1)

theorem opcode?_eq (c : Chunk) (offset : Nat) :
    c.opcode? offset = (c.values[offset]?).bind Opcode.ofByte? := by
  rw [opcode?, byte?_eq]

theorem opcode?_of_size_le (outside : c.size ≤ i) : c.opcode? i = none := by
  rw [opcode?_eq, List.getElem?_eq_none (by simpa using outside)]
  rfl

theorem instructionsFrom_of_size_le (outside : c.size ≤ i) : c.instructionsFrom i = [] := by
  rw [instructionsFrom, List.drop_eq_nil_of_le (by simpa using outside), decodeFrom]

/-- An opcode is put out, and decoding goes on behind its operands. -/
theorem instructionsFrom_of_opcode (read : c.opcode? i = some op) :
    c.instructionsFrom i = (i, op) :: c.instructionsFrom (i + 1 + op.operandSize) := by
  rw [opcode?_eq] at read
  obtain ⟨b, byte, decoded⟩ := Option.bind_eq_some_iff.mp read
  obtain ⟨inside, rfl⟩ := List.getElem?_eq_some_iff.mp byte
  rw [instructionsFrom, List.drop_eq_getElem_cons inside]
  simp only [decodeFrom, decoded]
  rw [decodeFrom_drop, List.drop_drop, instructionsFrom]

/-- A byte that is no opcode is left out. -/
theorem instructionsFrom_of_none (read : c.opcode? i = none) :
    c.instructionsFrom i = c.instructionsFrom (i + 1) := by
  by_cases inside : i < c.size
  · have bound : i < c.values.length := by simpa using inside
    rw [opcode?_eq, List.getElem?_eq_getElem bound] at read
    rw [instructionsFrom, List.drop_eq_getElem_cons bound]
    simp only [decodeFrom, (show Opcode.ofByte? c.values[i] = none from read)]
    rfl
  · rw [instructionsFrom_of_size_le (by omega), instructionsFrom_of_size_le (by omega)]

/-! ### The pass -/

/-- What one turn can do. -/
theorem turn_cases (c : Chunk) (s : Sweep) :
    (∃ op, c.opcode? s.offset = some op ∧
      c.turn s = ⟨s.offset + 1 + op.operandSize, s.found ++ [(s.offset, op)]⟩) ∨
    (c.opcode? s.offset = none ∧ c.turn s = ⟨s.offset + 1, s.found⟩) := by
  unfold turn
  cases read : c.opcode? s.offset with
  | some op => exact Or.inl ⟨op, rfl, rfl⟩
  | none => exact Or.inr ⟨rfl, rfl⟩

theorem sweep_succ (c : Chunk) (n : Nat) : c.sweep (n + 1) = c.turn (c.sweep n) :=
  Function.iterate_succ_apply' c.turn n _

/-- The pass goes forward in every turn. -/
theorem strictMono_offset (c : Chunk) : StrictMono fun n => (c.sweep n).offset := by
  refine strictMono_nat_of_lt_succ fun n => ?_
  rw [sweep_succ]
  rcases c.turn_cases (c.sweep n) with ⟨op, -, turned⟩ | ⟨-, turned⟩
  · rw [turned]
    exact Nat.lt_add_right op.operandSize (Nat.lt_succ_self _)
  · rw [turned]
    exact Nat.lt_succ_self _

/-- What was found and what is still to be decoded make up the instructions. -/
theorem found_append_instructionsFrom (c : Chunk) (n : Nat) :
    (c.sweep n).found ++ c.instructionsFrom (c.sweep n).offset = c.instructions := by
  -- A turn moves one instruction from what is to be decoded to what was found, or passes over a
  -- byte.
  induction n with
  | zero => rfl
  | succ n ih =>
    rw [sweep_succ, ← ih]
    rcases c.turn_cases (c.sweep n) with ⟨op, read, turned⟩ | ⟨read, turned⟩
    · rw [turned, instructionsFrom_of_opcode read, List.append_assoc, List.singleton_append]
    · rw [turned, instructionsFrom_of_none read]

/-- At the end of the code, all instructions were found. -/
theorem found_eq (ended : c.size ≤ (c.sweep n).offset) : (c.sweep n).found = c.instructions := by
  rw [← found_append_instructionsFrom c n, instructionsFrom_of_size_le ended, List.append_nil]

/-- The pass finds the opcodes among the bytes that it reads. -/
theorem mem_found_iff (c : Chunk) (n : Nat) :
    (i, op) ∈ (c.sweep n).found ↔ ∃ m < n, (c.sweep m).offset = i ∧ c.opcode? i = some op := by
  induction n with
  | zero => simp [sweep]
  | succ n ih =>
    -- The induction hypothesis tells what the earlier turns found; the last turn adds at most one
    -- instruction.
    rw [sweep_succ, Nat.exists_lt_succ_right, ← ih]
    rcases c.turn_cases (c.sweep n) with ⟨op', read, turned⟩ | ⟨read, turned⟩
    · rw [turned, List.mem_append, List.mem_singleton, Prod.mk.injEq]
      refine or_congr_right ⟨?_, ?_⟩
      · rintro ⟨rfl, rfl⟩
        exact ⟨rfl, read⟩
      · rintro ⟨rfl, read'⟩
        exact ⟨rfl, Option.some.inj (read'.symm.trans read)⟩
    · rw [turned]
      refine (or_iff_left ?_).symm
      rintro ⟨rfl, read'⟩
      rw [read] at read'
      cases read'

theorem lt_size_of_opcode? (read : c.opcode? i = some op) : i < c.size := by
  by_contra outside
  rw [opcode?_of_size_le (by omega)] at read
  cases read

theorem size_le_offset (c : Chunk) : c.size ≤ (c.sweep c.size).offset :=
  c.strictMono_offset.le_apply

/-- The instructions are the opcodes that the pass reads. -/
theorem mem_instructions_iff : (i, op) ∈ c.instructions ↔ c.IsRead i ∧ c.opcode? i = some op := by
  rw [← found_eq c.size_le_offset, mem_found_iff]
  constructor
  · rintro ⟨m, -, met, read⟩
    exact ⟨⟨m, met⟩, read⟩
  · rintro ⟨⟨m, met⟩, read⟩
    -- An opcode lies within the code, so it is read before the pass ends.
    have early : m ≤ (c.sweep m).offset := c.strictMono_offset.le_apply
    have inside := lt_size_of_opcode? read
    exact ⟨m, by omega, met, read⟩

/-- The instructions are found in the order of their offsets. -/
theorem pairwise_found (c : Chunk) (n : Nat) : (c.sweep n).found.Pairwise fun d e => d.1 < e.1 := by
  induction n with
  | zero => exact .nil
  | succ n ih =>
    rw [sweep_succ]
    rcases c.turn_cases (c.sweep n) with ⟨op, -, turned⟩ | ⟨-, turned⟩
    · rw [turned, List.pairwise_append]
      refine ⟨ih, List.pairwise_singleton _ _, ?_⟩
      rintro ⟨i, op'⟩ member e last
      obtain ⟨m, before, rfl, -⟩ := (c.mem_found_iff n).mp member
      rw [List.mem_singleton.mp last]
      exact c.strictMono_offset before
    · rw [turned]
      exact ih

theorem pairwise_instructions (c : Chunk) : c.instructions.Pairwise fun d e => d.1 < e.1 := by
  rw [← found_eq c.size_le_offset]
  exact c.pairwise_found c.size

/-- Every offset lies between two that the pass comes to one after the other. -/
theorem exists_sweep (c : Chunk) (i : Nat) :
    ∃ n, (c.sweep n).offset ≤ i ∧ i < (c.sweep (n + 1)).offset := by
  induction i with
  | zero => exact ⟨0, Nat.le_refl 0, c.strictMono_offset (Nat.lt_succ_self 0)⟩
  | succ i ih =>
    obtain ⟨n, low, high⟩ := ih
    by_cases last : i + 1 < (c.sweep (n + 1)).offset
    · exact ⟨n, by omega, last⟩
    · -- The next turn starts right here.
      have forward : (c.sweep (n + 1)).offset < (c.sweep (n + 1 + 1)).offset :=
        c.strictMono_offset (Nat.lt_succ_self _)
      exact ⟨n + 1, by omega, by omega⟩

/-- The pass comes to the end of the code after as many turns as there are bytes, at the latest. -/
theorem exists_end (c : Chunk) :
    ∃ n ≤ c.size, (∀ m < n, (c.sweep m).offset < c.size) ∧ c.size ≤ (c.sweep n).offset := by
  cases bytes : c.size with
  | zero => exact ⟨0, Nat.le_refl 0, fun m early => absurd early (Nat.not_lt_zero m), Nat.zero_le _⟩
  | succ last =>
    -- The last turn is the one that starts at or before the last byte and leads beyond it.
    obtain ⟨n, low, high⟩ := c.exists_sweep last
    have slow : n ≤ (c.sweep n).offset := c.strictMono_offset.le_apply
    refine ⟨n + 1, by omega, fun m early => ?_, by omega⟩
    have earlier : (c.sweep m).offset ≤ (c.sweep n).offset :=
      c.strictMono_offset.monotone (Nat.le_of_lt_succ early)
    omega

/-! ### Roles -/

theorem offset_succ_of_opcode (read : c.opcode? (c.sweep n).offset = some op) :
    (c.sweep (n + 1)).offset = (c.sweep n).offset + 1 + op.operandSize := by
  rw [sweep_succ, turn, read]

/-- Operands are not read by the pass. -/
theorem not_isRead_of_operand (h : c.HasRole i (.operand start op)) : ¬ c.IsRead i := by
  obtain ⟨member, -, low, high⟩ := h
  obtain ⟨⟨n, rfl⟩, read⟩ := mem_instructions_iff.mp member
  rintro ⟨m, rfl⟩
  -- The turn in which the byte is read would come after that of its instruction and before the next
  -- one.
  have next := offset_succ_of_opcode read
  have after : n < m := c.strictMono_offset.lt_iff_lt.mp low
  have before : m < n + 1 := c.strictMono_offset.lt_iff_lt.mp (by omega)
  omega

/-- Every byte has a role. -/
theorem exists_role (c : Chunk) (i : Nat) : ∃ r, c.HasRole i r := by
  obtain ⟨n, low, high⟩ := c.exists_sweep i
  rcases Nat.eq_or_lt_of_le low with met | past
  · -- The byte is read.
    cases read : c.opcode? i with
    | some op => exact ⟨.opcode op, mem_instructions_iff.mpr ⟨⟨n, met⟩, read⟩⟩
    | none => exact ⟨.skipped, read, n, met⟩
  · -- The pass goes on behind the byte, so there was an opcode before it.
    rcases c.turn_cases (c.sweep n) with ⟨op, read, -⟩ | ⟨-, turned⟩
    · have next := offset_succ_of_opcode read
      refine ⟨.operand (c.sweep n).offset op, mem_instructions_iff.mpr ⟨⟨n, rfl⟩, read⟩, ?_,
        past, by omega⟩
      rintro ⟨j, op'⟩ member before
      obtain ⟨⟨m, rfl⟩, -⟩ := mem_instructions_iff.mp member
      have earlier : m < n + 1 := c.strictMono_offset.lt_iff_lt.mp (Nat.lt_trans before high)
      exact c.strictMono_offset.monotone (Nat.le_of_lt_succ earlier)
    · rw [sweep_succ, turned] at high
      exact absurd past (Nat.not_lt.mpr (Nat.le_of_lt_succ high))

variable {r r' : Role}

/-- A byte that is read is an opcode or is skipped, as its value tells. -/
theorem HasRole.eq_of_isRead (h : c.HasRole i r) (read : c.IsRead i) :
    r = (c.opcode? i).elim .skipped .opcode := by
  cases r with
  | opcode op =>
    rw [(mem_instructions_iff.mp h).2]
    rfl
  | operand start op => exact absurd read (not_isRead_of_operand h)
  | skipped =>
    rw [h.1]
    rfl

theorem HasRole.exists_of_not_isRead (h : c.HasRole i r) (unread : ¬ c.IsRead i) :
    ∃ start op, r = .operand start op := by
  cases r with
  | opcode op => exact absurd (mem_instructions_iff.mp h).1 unread
  | operand start op => exact ⟨start, op, rfl⟩
  | skipped => exact absurd h.2 unread

/-- No byte has two roles. -/
theorem HasRole.unique (h : c.HasRole i r) (h' : c.HasRole i r') : r = r' := by
  by_cases read : c.IsRead i
  · rw [h.eq_of_isRead read, h'.eq_of_isRead read]
  · obtain ⟨start, op, rfl⟩ := h.exists_of_not_isRead read
    obtain ⟨start', op', rfl⟩ := h'.exists_of_not_isRead read
    obtain ⟨member, latest, before, -⟩ := h
    obtain ⟨member', latest', before', -⟩ := h'
    -- Each of the two instructions is the last one before the byte.
    obtain rfl : start = start' :=
      Nat.le_antisymm (latest' _ member before) (latest _ member' before')
    have read := (mem_instructions_iff.mp member).2
    rw [(mem_instructions_iff.mp member').2] at read
    rw [Option.some.inj read]

/-! ### Taking up the pass -/

/-- The code from an offset on. -/
def drop (c : Chunk) (offset : Nat) : Chunk := ⟨(c.bytes.toList.drop offset).toArray⟩

theorem values_drop (c : Chunk) (offset : Nat) : (c.drop offset).values = c.values.drop offset := by
  simp [values, drop]

/-- The code from an offset on is decoded by itself to what comes from there on, but for the count
of offsets. -/
theorem instructions_drop (c : Chunk) (offset : Nat) :
    (c.drop offset).instructions.map (fun e => (offset + e.1, e.2)) =
      c.instructionsFrom offset := by
  rw [instructionsFrom, ← values_drop]
  exact (decodeFrom_add 0 0 offset _).symm

/-- From the offset of an instruction on, there are this instruction and the later ones. -/
theorem instructionsFrom_eq {before after : List (Nat × Opcode)}
    (split : c.instructions = before ++ (start, op) :: after) :
    c.instructionsFrom start = (start, op) :: after := by
  have sorted := c.pairwise_instructions
  obtain ⟨⟨n, rfl⟩, read⟩ :=
    mem_instructions_iff.mp (split ▸ List.mem_append_right before List.mem_cons_self)
  have whole := c.found_append_instructionsFrom n
  rw [instructionsFrom_of_opcode read] at whole ⊢
  rw [← whole] at sorted split
  -- An offset occurs only once among the instructions, so the list is split at the same place.
  have notFound : ((c.sweep n).offset, op) ∉ (c.sweep n).found := by
    intro member
    exact Nat.lt_irrefl _ ((List.pairwise_append.mp sorted).2.2 _ member _ List.mem_cons_self)
  have notLater :
      ((c.sweep n).offset, op) ∉ c.instructionsFrom ((c.sweep n).offset + 1 + op.operandSize) := by
    intro member
    exact Nat.lt_irrefl _ ((List.pairwise_cons.mp (List.pairwise_append.mp sorted).2.1).1 _ member)
  rw [((List.append_cons_inj_of_notMem notFound notLater).mp split).2.2]

/-- **Decoding accounts for every byte.** Whatever the bytes are, the pass over them ends after at
most as many turns as there are bytes, and what it has found then are the instructions. Their
offsets increase and lie within the code, and there the opcodes are. Every byte has exactly one
role: it is the opcode of an instruction, or one of the operand bytes behind the last instruction
before it, or it is read and skipped, and no opcode. Decoding the code from an instruction on gives
this instruction and the later ones, at offsets that are counted from there. -/
theorem decoding_accounts (c : Chunk) :
    (∃ n ≤ c.size, (∀ m < n, (c.sweep m).offset < c.size) ∧ c.size ≤ (c.sweep n).offset ∧
      (c.sweep n).found = c.instructions) ∧
    c.instructions.Pairwise (fun d e => d.1 < e.1) ∧
    (∀ e ∈ c.instructions, e.1 < c.size ∧ c.opcode? e.1 = some e.2) ∧
    (∀ i < c.size, ∃! r, c.HasRole i r) ∧
    ∀ before start op after, c.instructions = before ++ (start, op) :: after →
      (c.drop start).instructions.map (fun e => (start + e.1, e.2)) = (start, op) :: after := by
  refine ⟨?_, c.pairwise_instructions, ?_, ?_, ?_⟩
  · obtain ⟨n, bound, running, ended⟩ := c.exists_end
    exact ⟨n, bound, running, ended, found_eq ended⟩
  · rintro ⟨i, op⟩ member
    have read := (mem_instructions_iff.mp member).2
    exact ⟨lt_size_of_opcode? read, read⟩
  · intro i _
    obtain ⟨r, role⟩ := c.exists_role i
    exact ⟨r, role, fun _ other => other.unique role⟩
  · intro before start op after split
    rw [instructions_drop, instructionsFrom_eq split]

end Chunk

namespace Sample

/-- Eleven bytes that were not emitted. Two of them are skipped, most operands look like opcodes,
and the last instruction lacks two of its operand bytes. -/
def scrap : Chunk := Chunk.empty.append 1 [255, 16, 8, 0, 1, 255, 7, 8, 200, 14, 0]

theorem scrap_accounted :
    scrap.instructions = [(1, .new), (7, .dup), (9, .call)] ∧
    (∀ r, scrap.HasRole 2 r ↔ r = .operand 1 .new) ∧ (∀ r, scrap.HasRole 8 r ↔ r = .skipped) ∧
    (∀ r, scrap.HasRole 10 r ↔ r = .operand 9 .call) ∧
    (scrap.drop 7).instructions.map (fun e => (7 + e.1, e.2)) = [(7, .dup), (9, .call)] := by
  have decoded : scrap.instructions = [(1, .new), (7, .dup), (9, .call)] := by decide +kernel
  obtain ⟨-, -, -, roles, resumed⟩ := scrap.decoding_accounts
  have only {i : Nat} {r : Chunk.Role} (inside : i < scrap.size) (role : scrap.HasRole i r)
      (r' : Chunk.Role) :
      scrap.HasRole i r' ↔ r' = r :=
    ⟨fun other => (roles i inside).unique other role, fun same => same ▸ role⟩
  refine ⟨decoded, only (by decide +kernel) ?_, only (by decide +kernel) ?_,
    only (by decide +kernel) ?_, ?_⟩
  · exact ⟨by decide +kernel, by decide +kernel, by decide, by decide⟩
  · exact ⟨by decide +kernel, 3, by decide +kernel⟩
  · exact ⟨by decide +kernel, by decide +kernel, by decide, by decide⟩
  · exact resumed [(1, .new)] 7 .dup [(9, .call)] decoded

end Sample

end Componentry
