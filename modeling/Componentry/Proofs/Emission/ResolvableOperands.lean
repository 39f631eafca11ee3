import Componentry.Proofs.Bytecode.Descriptions
import Componentry.Proofs.Emission.FloatingLiterals

/-!
# Operands that can be resolved

The operands of an instruction are written while the pool still grows, some of them by the
initializer and some by the entry point. They are positions in the pool for good: over the pool of
the finished unit, each of them leads to a constant of the kind that the instruction calls for. What
is loaded is a value, and everything else is a symbol with a name, so a listing never has to do
without a name or a constant.

## Main definitions

* `Chunk.Resolvable` — the operands of an instruction lead to constants of the right kind, which are
  shown as such

## Main results

* `Chunk.resolvable_of_operation?` — operands that can be read can be resolved
* `resolvable_of_assemble` — so can all operands of a procedure that loads nothing but values
* `Context.operands_resolvable` — so can all operands of a unit
-/

namespace Componentry

open Directive

namespace Chunk

/-- The operands of the instruction at the offset that refer to the pool can be read, and lead to a
value, or to symbols with names, as the instruction calls for. -/
def Resolvable (pool : Pool) (c : Chunk) (offset : Nat) : Opcode → Prop
  | .constant => ∃ b, c.byte? (offset + 1) = some b ∧ pool.ShowsValue b.toNat
  | .constantWide => ∃ n, c.word? (offset + 1) = some n ∧ pool.ShowsValue n
  | .setStatic | .call | .callMethod => ∃ n, c.word? (offset + 1) = some n ∧ pool.ShowsSymbol n
  | .new =>
    (∃ n, c.word? (offset + 1) = some n ∧ pool.ShowsSymbol n) ∧
      ∃ n, c.word? (offset + 3) = some n ∧ pool.ShowsSymbol n
  | .pushNull | .pushTrue | .pushFalse | .pushZero | .pushOne | .pop | .dup | .getLocal | .setLocal
  | .getLocalWide | .setLocalWide | .return | .returnVoid => True

/-- Operands that can be read can be resolved, if symbols have names and no symbol is pushed. -/
theorem resolvable_of_operation? {pool : Pool} {c : Chunk} {offset : Nat} {op : Opcode}
    {o : Operation} (named : pool.Named) (read : c.operation? pool offset op = some o)
    (value : ∀ d, o = .push d → d.isSymbol = false) : c.Resolvable pool offset op := by
  cases op with
  | constant =>
    simp only [operation?, Option.bind_eq_bind, Option.bind_eq_some_iff, Option.pure_def,
      Option.some.injEq] at read
    obtain ⟨b, byte, d, found, rfl⟩ := read
    exact ⟨b, byte, Pool.showsValue found (value d rfl)⟩
  | constantWide =>
    simp only [operation?, Option.bind_eq_bind, Option.bind_eq_some_iff, Option.pure_def,
      Option.some.injEq] at read
    obtain ⟨n, word, d, found, rfl⟩ := read
    exact ⟨n, word, Pool.showsValue found (value d rfl)⟩
  | setStatic | call | callMethod =>
    simp only [operation?, Option.bind_eq_bind, Option.bind_eq_some_iff] at read
    obtain ⟨n, word, h, found, -⟩ := read
    exact ⟨n, word, named.showsSymbol found⟩
  | new =>
    simp only [operation?, Option.bind_eq_bind, Option.bind_eq_some_iff] at read
    obtain ⟨m, first, g, type, n, second, h, found, -⟩ := read
    exact ⟨⟨m, first, named.showsSymbol type⟩, n, second, named.showsSymbol found⟩
  | pushNull | pushTrue | pushFalse | pushZero | pushOne | pop | dup | getLocal | setLocal
  | getLocalWide | setLocalWide | «return» | returnVoid => trivial

/-- Every instruction of a code that can be read is read as one of its operations. -/
theorem exists_operation? {pool : Pool} {c : Chunk} {ops : List (Nat × Operation)}
    (read : c.operations? pool = some ops) {offset : Nat} {op : Opcode}
    (decoded : (offset, op) ∈ c.instructions) :
    ∃ o, c.operation? pool offset op = some o ∧ (offset, o) ∈ ops := by
  unfold operations? at read
  generalize c.instructions = entries at read decoded
  induction entries generalizing ops with
  | nil => cases decoded
  | cons entry rest ih =>
    simp only [List.mapM_cons, Option.bind_eq_bind, Option.bind_eq_some_iff, Option.pure_def,
      Option.some.injEq] at read
    obtain ⟨first, here, others, later, rfl⟩ := read
    rcases List.mem_cons.mp decoded with rfl | inside
    · obtain ⟨o, operation, rfl⟩ := Option.map_eq_some_iff.mp here
      exact ⟨o, operation, List.mem_cons_self⟩
    · obtain ⟨o, operation, listed⟩ := ih later inside
      exact ⟨o, operation, List.mem_cons_of_mem _ listed⟩

end Chunk

/-- The instructions load values only. -/
def LoadsValues (is : List Instruction) : Prop := ∀ i ∈ is, ∀ c, i = .load c → c.isSymbol = false

/-- What instructions push is a value, if they load values only. -/
theorem LoadsValues.of_push {is : List Instruction} (values : LoadsValues is) (pool : Pool)
    {c : Constant} (pushed : .push c ∈ is.map (·.operation pool.held)) : c.isSymbol = false := by
  obtain ⟨i, written, meaning⟩ := List.mem_map.mp pushed
  cases i with
  | load d =>
    cases meaning
    rw [Constant.isSymbol_congr (pool.key_held d)]
    exact values _ written d rfl
  | pushInt n =>
    cases meaning
    rfl
  | pushNull | pushBool _ | pop | dup | getLocal _ | setLocal _ | setStatic _ _ | call _ _ _
  | callMethod _ | new _ | returnVoid => cases meaning

/-- All operands of a procedure that loads values only can be resolved, over its own pool and all
later ones in which symbols have names. -/
theorem resolvable_of_assemble {pool later : Pool} {ds : List Directive} {a : Assembly}
    (assembled : assemble pool ds = .ok a) (extended : a.emitter.pool.Extends later)
    (named : later.Named) (values : LoadsValues (instructions ds)) {offset : Nat} {op : Opcode}
    (decoded : (offset, op) ∈ a.emitter.chunk.instructions) :
    a.emitter.chunk.Resolvable later offset op := by
  obtain ⟨ops, read, meaning⟩ :=
    Option.map_eq_some_iff.mp (assemble_operations_snd assembled extended)
  obtain ⟨o, operation, listed⟩ := Chunk.exists_operation? read decoded
  refine Chunk.resolvable_of_operation? named operation ?_
  rintro d rfl
  apply values.of_push later
  rw [← meaning]
  exact List.mem_map_of_mem listed

/-! ### Literals -/

/-- The constant that a literal is loaded from is a value. -/
theorem LiteralExpr.isSymbol_of_load {e : LiteralExpr} {c : Constant}
    (loaded : e.load = .ok (.load c)) : c.isSymbol = false := by
  unfold load at loaded
  split at loaded
  · cases loaded
  · cases loaded
    rfl
  · cases loaded
  -- The other literals are numbers, and have an instruction if they have a value of their type.
  · split at loaded
    · cases loaded
      rfl
    · cases loaded
  · split at loaded
    · cases loaded
      rfl
    · cases loaded
  · split at loaded
    · cases loaded
    · cases loaded

/-- An instruction that pushes a value loads one of the given ones. -/
theorem Loads.exists_load {passed : List (Method × LiteralExpr)} {is : List Instruction}
    (loads : Loads passed is) {i : Instruction} (member : i ∈ is.filter Instruction.isPush) :
    ∃ e : LiteralExpr, e.load = .ok i := by
  unfold Loads at loads
  generalize is.filter Instruction.isPush = pushes at loads member
  induction loads with
  | nil => cases member
  | cons head _ ih =>
    rcases List.mem_cons.mp member with rfl | later
    · exact ⟨_, head⟩
    · exact ih later

/-- The initializer of a tree of literals loads values only. -/
theorem Tree.loadsValues_initializer {t : Tree LiteralExpr} {cx : CodeContext}
    (unfailing : Unfailing (t.initializer cx)) : LoadsValues (instructions (t.initializer cx)) := by
  rintro i written c rfl
  have pushes : .load c ∈ (instructions (t.initializer cx)).filter Instruction.isPush :=
    List.mem_filter.mpr ⟨written, rfl⟩
  obtain ⟨e, loaded⟩ := (loads_initializer unfailing).exists_load pushes
  exact LiteralExpr.isSymbol_of_load loaded

theorem loadsValues_entryPoint (unit : Fingerprint) (initializer : String) :
    LoadsValues (instructions (entryPoint unit initializer)) := by
  intro i written c same
  rw [same] at written
  simp [entryPoint] at written

/-! ### Units -/

/-- **Every operand of a unit can be resolved.** Let a tree of literals be compiled to a unit, for
any library. The unit has two procedures. For each instruction that is read from their bytes, the
operands that are positions in the pool lie within the pool of the unit. A constant that is pushed
is a value, which is shown as it is written; the field of a store, the procedure or method of a
call, and the type and the constructor of a creation are symbols, which have names and are shown by
them. -/
theorem Context.operands_resolvable (ctx : Context) (source : Source LiteralExpr)
    (unit : CompiledUnit) (reports : List Diagnostic)
    (compiled : ctx.compile source = .ok ⟨some unit, reports⟩) :
    unit.procedures.map (·.name) = [ctx.options.initializerName, ctx.options.entryPointName] ∧
    ∀ p ∈ unit.procedures, ∀ offset op, (offset, op) ∈ p.code.instructions →
      p.code.Resolvable unit.constants offset op := by
  obtain ⟨-, emitted⟩ := Context.of_compile compiled
  obtain ⟨init, entry, assembled, entered, procedures, constants, -⟩ := Tree.parts_of_emit emitted
  have initValues := Tree.loadsValues_initializer (Assembly.unfailing_of_run assembled)
  have entryValues := loadsValues_entryPoint unit.fingerprint ctx.options.initializerName
  -- The pool of the unit is that of the entry point, which goes on with the pool of the
  -- initializer.
  have initNamed : init.emitter.pool.Named :=
    Assembly.named_run assembled Pool.named_empty initValues
  have named : entry.emitter.pool.Named := Assembly.named_run entered initNamed entryValues
  obtain ⟨_, -, -, extended⟩ := Assembly.encoded_run entered
  refine ⟨by rw [procedures]; rfl, ?_⟩
  intro p member offset op decoded
  rw [procedures, List.mem_cons, List.mem_singleton] at member
  rw [constants]
  rcases member with rfl | rfl
  · exact resolvable_of_assemble assembled extended named initValues decoded
  · exact resolvable_of_assemble entered (.refl _) named entryValues decoded

namespace Sample

/-- The operands of all instructions of a unit as a listing shows them. -/
def shownOperands (unit : CompiledUnit) : List (List String) :=
  unit.procedures.map fun p =>
    p.code.instructions.map fun e => Disassembly.operandText unit.constants p.code e.1 e.2

/-- What is shown of the slider's operands: the two zeros are one value, and all symbols have
names. -/
def sliderOperands : List (List String) :=
  [["JSlider", "0", "0", "slider: JSlider", "0", "0f", "", "slider$low: float",
      "JSlider.setLow(float) -> void (1 args)", "0", "0f", "", "slider$high: float",
      "JSlider.setHigh(float) -> void (1 args)", "0", "0.5", "", "slider$step: double",
      "JSlider.setStep(double) -> void (1 args)", ""],
    ["init (0 args)", ""]]

/-- All operands of the slider's unit can be resolved. -/
theorem slider_operands :
    ∃ unit, Context.compile ⟨sliderRegistry.library, {}⟩ sliderSource = .ok ⟨some unit, []⟩ ∧
      (∀ p ∈ unit.procedures, ∀ offset op, (offset, op) ∈ p.code.instructions →
        p.code.Resolvable unit.constants offset op) ∧
      shownOperands unit = sliderOperands := by
  obtain ⟨unit, compiled⟩ := exists_compile_slider
  obtain ⟨-, resolvable⟩ :=
    Context.operands_resolvable ⟨sliderRegistry.library, {}⟩ sliderSource unit [] compiled
  have shown :
      ((Context.compile ⟨sliderRegistry.library, {}⟩ sliderSource).toOption.bind (·.unit)).map
      shownOperands = some sliderOperands := by
    decide +kernel
  rw [compiled] at shown
  exact ⟨unit, compiled, resolvable, Option.some.inj shown⟩

end Sample

end Componentry
