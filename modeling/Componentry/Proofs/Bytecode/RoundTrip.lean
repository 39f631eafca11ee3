import Componentry.Proofs.Bytecode.Decoding
import Mathlib.Data.List.Induction

/-!
# Calls to an emitter

An emitter is called any number of times, with any arguments; a call may fail, and further calls may
follow. The code keeps account of the calls: it is decoded as one instruction for each call that
went through, in order, at the offset that was next before the call, with operands that give back
the arguments, and for the line that was set last. A call that fails leaves no trace in the code.

## Main definitions

* `Emitter.Call` — a change of the line or an instruction to be written
* `Emitter.run` — the emitter after a sequence of calls, failures included
* `Emitter.entries` — what the calls that went through wrote
* `Emitter.lastLine` — the line that was set last
* `Emitter.Accounts` — the code is decoded as the given entries

## Main results

* `Emitter.chunk_emit_of_failure` — a call that fails leaves the code alone
* `Emitter.line_run` — the current line is the one that was set last
* `Emitter.Accounts.after` — a call keeps the account
* `Emitter.reads_back` — the code keeps account of any sequence of calls
-/

namespace Componentry

namespace Emitter

/-- A call to an emitter. -/
inductive Call where
  /-- What follows is for the given source line. -/
  | setLine (line : Nat)
  | emit (i : Instruction)
  deriving DecidableEq

/-- An instruction that was written: at which offset, and for which line. -/
structure Entry where
  offset : Nat
  line : Nat
  instruction : Instruction
  deriving DecidableEq

/-- The emitter after a call, whether or not it went through. -/
def after (e : Emitter) : Call → Emitter
  | .setLine line => e.setLine line
  | .emit i => (e.emit i).1

/-- What a call writes, if it goes through: the instruction, at the next offset and for the current
line. -/
def writes? (e : Emitter) : Call → Option Entry
  | .setLine _ => none
  | .emit i =>
    match (e.emit i).2 with
    | none => some ⟨e.offset, e.line, i⟩
    | some _ => none

/-- The emitter after calls in order. -/
def run (e : Emitter) (calls : List Call) : Emitter := calls.foldl after e

/-- What calls write, in order. -/
def entries (e : Emitter) : List Call → List Entry
  | [] => []
  | call :: rest => (e.writes? call).toList ++ (e.after call).entries rest

@[simp] theorem run_nil (e : Emitter) : e.run [] = e := rfl

theorem run_append_singleton (e : Emitter) (calls : List Call) (call : Call) :
    e.run (calls ++ [call]) = (e.run calls).after call :=
  List.foldl_append

/-- What later calls write comes behind what earlier ones did. -/
theorem entries_append (e : Emitter) (calls more : List Call) :
    e.entries (calls ++ more) = e.entries calls ++ (e.run calls).entries more := by
  induction calls generalizing e with
  | nil => rfl
  | cons call rest ih =>
    rw [List.cons_append, entries, ih, entries, List.append_assoc]
    rfl

/-! ### One call -/

/-- The two outcomes of writing an instruction. -/
theorem emit_cases (e : Emitter) (i : Instruction) :
    (∃ pool bytes, e.pool.Extends pool ∧ i.Encoded pool bytes ∧
      e.emit i = ({ e with pool, chunk := e.chunk.append e.line bytes }, none)) ∨
    ∃ pool failure, e.pool.Extends pool ∧ e.emit i = ({ e with pool }, some failure) := by
  have grown := Instruction.extends_encode e.pool i
  cases encoded : i.encode e.pool with
  | mk pool result =>
    rw [encoded] at grown
    cases result with
    | ok bytes =>
      refine Or.inl ⟨pool, bytes, grown, Instruction.encoded_encode encoded, ?_⟩
      rw [emit, encoded]
      rfl
    | error failure =>
      refine Or.inr ⟨pool, failure, grown, ?_⟩
      rw [emit, encoded]

/-! ### The current line -/

/-- The line that a call sets. -/
def Call.line? : Call → Option Nat
  | .setLine line => some line
  | .emit _ => none

/-- The line that the last of the calls that set one has set. Before any of them it is line one. -/
def lastLine (calls : List Call) : Nat := (calls.filterMap Call.line?).getLast?.getD 1

theorem line_emit (e : Emitter) (i : Instruction) : (e.emit i).1.line = e.line := by
  rcases e.emit_cases i with ⟨pool, bytes, -, -, emitted⟩ | ⟨pool, failure, -, emitted⟩
  all_goals rw [emitted]

/-- After any calls, the current line is the one that was set last. -/
theorem line_run (pool : Pool) (calls : List Call) :
    ((start pool).run calls).line = lastLine calls := by
  induction calls using List.reverseRecOn with
  | nil => rfl
  | append_singleton calls call ih =>
    rw [run_append_singleton]
    cases call with
    | setLine line => simp [after, setLine, lastLine, Call.line?]
    | emit i =>
      rw [after, line_emit, ih]
      simp [lastLine, Call.line?]

/-- What a call that goes through writes: its instruction, at the next offset and for the line that
was set last. -/
theorem entries_of_emit {pool : Pool} {before : List Call} {i : Instruction}
    (written : (((start pool).run before).emit i).2 = none) (rest : List Call) :
    (start pool).entries (before ++ .emit i :: rest) = (start pool).entries before ++
      ⟨((start pool).run before).offset, lastLine before, i⟩ ::
        ((start pool).run (before ++ [.emit i])).entries rest := by
  have entry : ((start pool).run before).writes? (.emit i) =
      some ⟨((start pool).run before).offset, lastLine before, i⟩ := by
    rw [writes?, written, line_run]
  rw [entries_append, entries, entry, run_append_singleton]
  rfl

/-! ### Keeping account -/

/-- A call that fails leaves the code alone. -/
theorem chunk_emit_of_failure {e : Emitter} {i : Instruction} {failure : CompileError}
    (failed : (e.emit i).2 = some failure) : (e.emit i).1.chunk = e.chunk := by
  rcases e.emit_cases i with ⟨pool, bytes, -, -, emitted⟩ | ⟨pool, other, -, emitted⟩
  · rw [emitted] at failed
    cases failed
  · rw [emitted]

/-- The entry is read from the emitter's code with the given opcode: the instruction stands at its
offset, and all its bytes are for its line. -/
structure Entry.IsReadAs (entry : Entry) (op : Opcode) (e : Emitter) : Prop where
  stands : entry.instruction.StandsAt e.pool e.chunk entry.offset op
  lines : ∀ j ≤ op.operandSize, e.chunk.line? (entry.offset + j) = some entry.line

theorem Entry.IsReadAs.mono {entry : Entry} {op : Opcode} {e next : Emitter}
    (h : entry.IsReadAs op e) (code : e.chunk.Extends next.chunk)
    (grown : e.pool.Extends next.pool) : entry.IsReadAs op next :=
  ⟨h.stands.mono code grown, fun j inside => code.line? (h.lines j inside)⟩

/-- The code is decoded as the given entries, one instruction for each of them. -/
structure Accounts (e : Emitter) (written : List Entry) : Prop where
  decoded : List.Forall₂ (fun read entry => read.1 = entry.offset ∧ entry.IsReadAs read.2 e)
    e.chunk.instructions written
  /-- After the last byte an opcode is expected: what follows is decoded by itself. -/
  whole : ∀ bytes, Chunk.decodeFrom 0 0 (e.chunk.values ++ bytes) =
    e.chunk.instructions ++ Chunk.decodeFrom 0 e.offset bytes

namespace Accounts

variable {e : Emitter} {written : List Entry}

theorem start (pool : Pool) : (start pool).Accounts [] :=
  ⟨.nil, fun _ => rfl⟩

/-- The account is kept as long as the code is not changed. -/
theorem of_chunk_eq {next : Emitter} (h : e.Accounts written) (same : next.chunk = e.chunk)
    (grown : e.pool.Extends next.pool) : next.Accounts written := by
  have code : e.chunk.Extends next.chunk := by
    rw [same]
    exact fun _ _ found => found
  constructor
  · rw [same]
    exact h.decoded.imp fun _ _ ⟨offset, read⟩ => ⟨offset, read.mono code grown⟩
  · rw [offset, same]
    exact h.whole

/-- An instruction that is written enters the account. -/
theorem write (h : e.Accounts written) {pool : Pool} {i : Instruction} {bytes : List UInt8}
    (grown : e.pool.Extends pool) (encoded : i.Encoded pool bytes) :
    Accounts { e with pool, chunk := e.chunk.append e.line bytes }
      (written ++ [⟨e.offset, e.line, i⟩]) := by
  obtain ⟨op, operands, rfl, size, stands⟩ := encoded
  have code := e.chunk.extends_append e.line (op.toByte :: operands)
  have decoded : (e.chunk.append e.line (op.toByte :: operands)).instructions =
      e.chunk.instructions ++ [(e.offset, op)] := by
    -- The decoder is at an opcode where the new bytes start, so they are read as one instruction.
    have all := h.whole (op.toByte :: operands)
    rw [← List.append_nil (op.toByte :: operands), Chunk.decodeFrom_instruction size,
      List.append_nil, ← Chunk.values_append e.chunk e.line] at all
    exact all
  constructor
  · rw [decoded]
    refine List.rel_append (h.decoded.imp fun _ _ ⟨offset, read⟩ =>
      ⟨offset, read.mono code grown⟩) ?_
    refine .cons ⟨rfl, ?_, fun j inside => ?_⟩ .nil
    · refine stands _ _ ⟨e.chunk.values, [], ?_, e.chunk.length_values⟩
      rw [Chunk.values_append, List.append_nil]
    · refine Chunk.line?_append ?_
      rw [List.length_cons, size]
      exact Nat.lt_succ_of_le inside
  · intro more
    have size' : (e.chunk.append e.line (op.toByte :: operands)).size =
        e.chunk.size + (op.toByte :: operands).length := Chunk.size_append ..
    rw [decoded, Chunk.values_append, List.append_assoc, h.whole, Chunk.decodeFrom_instruction size,
      List.append_assoc, offset, offset, size']
    rfl

/-- A call keeps the account, with what it writes. -/
theorem after (h : e.Accounts written) (call : Call) :
    (e.after call).Accounts (written ++ (e.writes? call).toList) := by
  cases call with
  | setLine line =>
    rw [writes?, Option.toList_none, List.append_nil]
    exact h.of_chunk_eq rfl (.refl _)
  | emit i =>
    rcases e.emit_cases i with ⟨pool, bytes, grown, encoded, emitted⟩ |
        ⟨pool, failure, grown, emitted⟩
    · simp only [Emitter.after, writes?, emitted, Option.toList_some]
      exact h.write grown encoded
    · simp only [Emitter.after, writes?, emitted, Option.toList_none, List.append_nil]
      exact h.of_chunk_eq rfl grown

/-- Calls in order keep the account, with what they write. -/
theorem run (h : e.Accounts written) (calls : List Call) :
    (e.run calls).Accounts (written ++ e.entries calls) := by
  -- Along the calls: what is written so far grows while the emitter moves on.
  induction calls generalizing e written with
  | nil =>
    rw [entries, List.append_nil]
    exact h
  | cons call rest ih =>
    rw [entries, ← List.append_assoc]
    exact ih (h.after call)

end Accounts

/-- **Round trip.** After any calls to an emitter over any pool, the code is decoded as one
instruction for each call that went through, in order: at the offset that was next before the call,
with operands that give back its arguments, by way of the pool where they are positions in it, and
with all its bytes for the line that was set last before the call. A call that fails leaves the
code, with its lines, as it was. -/
theorem reads_back (pool : Pool) (calls : List Call) :
    List.Forall₂
      (fun read entry => read.1 = entry.offset ∧
        entry.IsReadAs read.2 ((Emitter.start pool).run calls))
      ((Emitter.start pool).run calls).chunk.instructions ((Emitter.start pool).entries calls) ∧
    (∀ before i rest, calls = before ++ Call.emit i :: rest →
      (((Emitter.start pool).run before).emit i).2 = none →
      (Emitter.start pool).entries calls = (Emitter.start pool).entries before ++
        ⟨((Emitter.start pool).run before).offset, lastLine before, i⟩ ::
          ((Emitter.start pool).run (before ++ [.emit i])).entries rest) ∧
    ∀ before i rest failure, calls = before ++ Call.emit i :: rest →
      (((Emitter.start pool).run before).emit i).2 = some failure →
      ((Emitter.start pool).run (before ++ [.emit i])).chunk =
        ((Emitter.start pool).run before).chunk := by
  refine ⟨((Accounts.start pool).run calls).decoded, ?_, ?_⟩
  · rintro before i rest rfl written
    exact entries_of_emit written rest
  · intro before i rest failure _ failed
    rw [run_append_singleton]
    exact chunk_emit_of_failure failed

end Emitter

namespace Sample

/-- Calls before one that fails. -/
def firstCalls : List Emitter.Call :=
  [.setLine 7, .emit (.getLocal 300), .emit (.load (.string "title")), .setLine 9]

/-- The calls that follow. -/
def lastCalls : List Emitter.Call := [.emit (.getLocal 255), .emit .returnVoid]

/-- The slot `70000` has no room in the code; what is written around it is read back. -/
theorem reads_back_calls :
    (Emitter.start .empty).entries (firstCalls ++ .emit (.setLocal 70000) :: lastCalls) =
      [⟨0, 7, .getLocal 300⟩, ⟨3, 7, .load (.string "title")⟩, ⟨5, 9, .getLocal 255⟩,
        ⟨7, 9, .returnVoid⟩] ∧
    List.Forall₂
      (fun read entry => read.1 = entry.offset ∧ entry.IsReadAs read.2
        ((Emitter.start .empty).run (firstCalls ++ .emit (.setLocal 70000) :: lastCalls)))
      ((Emitter.start .empty).run
        (firstCalls ++ .emit (.setLocal 70000) :: lastCalls)).chunk.instructions
      ((Emitter.start .empty).entries (firstCalls ++ .emit (.setLocal 70000) :: lastCalls)) ∧
    (Emitter.start .empty).entries (firstCalls ++ .emit (.setLocal 70000) :: lastCalls) =
      (Emitter.start .empty).entries (firstCalls ++ [.emit (.setLocal 70000)]) ++
        ⟨5, 9, .getLocal 255⟩ :: [⟨7, 9, .returnVoid⟩] ∧
    ((Emitter.start .empty).run (firstCalls ++ [.emit (.setLocal 70000)])).chunk =
      ((Emitter.start .empty).run firstCalls).chunk := by
  obtain ⟨read, written, failing⟩ :=
    Emitter.reads_back .empty (firstCalls ++ .emit (.setLocal 70000) :: lastCalls)
  refine ⟨by decide +kernel, read, ?_, failing firstCalls (.setLocal 70000) lastCalls _ rfl rfl⟩
  exact written (firstCalls ++ [.emit (.setLocal 70000)]) (.getLocal 255)
    [.emit .returnVoid] rfl rfl

end Sample

end Componentry
