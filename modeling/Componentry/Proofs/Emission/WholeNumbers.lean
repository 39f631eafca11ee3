import Componentry.Proofs.Binary.Rounding
import Componentry.Proofs.Emission.FloatingLiterals

/-!
# Whole numbers that are passed

A character, an int or a long is passed as it is where an integral type is expected, and as the
nearest number of the format where a floating-point type is.

Widening keeps whole numbers in the range of the wider type, and nothing else is admitted, so the
number that is pushed is one of the type of the parameter. Characters are the exception: they hold
all code points and the type holds 16 bits. A number that becomes a single is first made a double,
so it is rounded twice; a long next to the middle of two singles ends up on the wrong side.

## Main definitions

* `Primitive.InRange` — the values of the integral types
* `CompiledUnit.pushes?` — what a procedure pushes
* `Expression.pooled` — what an expression adds to an empty pool

## Main results

* `Literal.inRange_iff` — the whole numbers that are out of range after widening
* `Context.pushes_of_compile` — the values of a tree are what the initializer pushes
* `Registry.integral_literals` — what is pushed for integral parameters
* `LiteralExpr.pooled_nearest` — the constants of whole numbers at floating-point types
-/

namespace Componentry

open Binary Directive

/-! ### Ranges -/

namespace Primitive

/-- The whole number is a value of an integral type. -/
def InRange : Primitive → Int → Prop
  | char, n => 0 ≤ n ∧ n < 2 ^ 16
  | byte, n => -2 ^ 7 ≤ n ∧ n < 2 ^ 7
  | short, n => -2 ^ 15 ≤ n ∧ n < 2 ^ 15
  | int, n => -2 ^ 31 ≤ n ∧ n < 2 ^ 31
  | long, n => -2 ^ 63 ≤ n ∧ n < 2 ^ 63
  | boolean, _ | float, _ | double, _ => False

instance : (kind : Primitive) → (n : Int) → Decidable (kind.InRange n)
  | char, n => inferInstanceAs (Decidable (0 ≤ n ∧ n < 2 ^ 16))
  | byte, n => inferInstanceAs (Decidable (-2 ^ 7 ≤ n ∧ n < 2 ^ 7))
  | short, n => inferInstanceAs (Decidable (-2 ^ 15 ≤ n ∧ n < 2 ^ 15))
  | int, n => inferInstanceAs (Decidable (-2 ^ 31 ≤ n ∧ n < 2 ^ 31))
  | long, n => inferInstanceAs (Decidable (-2 ^ 63 ≤ n ∧ n < 2 ^ 63))
  | boolean, _ | float, _ | double, _ => inferInstanceAs (Decidable False)

/-- What widens to an integral type is integral. -/
theorem isIntegral_of_conversion {source kind : Primitive}
    (widens : (source.conversion kind).isSome) (integral : kind.isIntegral = true) :
    source.isIntegral = true := by
  revert widens integral
  cases source <;> cases kind <;> decide

/-- Widening keeps a whole number in range. -/
theorem InRange.widen {source kind : Primitive} {n : Int} (h : source.InRange n)
    (widens : (source.conversion kind).isSome) (integral : kind.isIntegral = true) :
    kind.InRange n := by
  have wider : kind = source ∨ kind = .long ∨ kind = .int ∧ source ≠ .long ∨
      source = .byte ∧ kind = .short := by
    revert widens integral
    cases source <;> cases kind <;> decide
  rcases wider with rfl | rfl | ⟨rfl, shorter⟩ | ⟨rfl, rfl⟩
  · exact h
  · cases source <;> simp only [InRange] at h ⊢ <;> omega
  · cases source <;> simp only [InRange, ne_eq, not_true_eq_false] at h shorter ⊢ <;> omega
  · simp only [InRange] at h ⊢
    omega

/-- Nothing else becomes a character. -/
theorem eq_char_of_conversion {source : Primitive} (widens : (source.conversion char).isSome) :
    source = char := by
  revert widens
  cases source <;> decide

end Primitive

namespace Literal

theorem toInt_char (c : Char) : (Int64.ofNat c.toNat).toInt = c.toNat ∧ c.toNat < 0x110000 := by
  have bound : c.toNat < 0x110000 := by
    have valid := c.valid
    simp only [UInt32.isValidChar, Nat.isValidChar] at valid
    change c.val.toNat < 0x110000
    omega
  exact ⟨Int64.toInt_ofNat_of_lt (by omega), bound⟩

/-- A whole number that takes a wider integral type is in its range, unless it is a character that
does not fit in 16 bits and stays one. -/
theorem inRange_iff {l : Literal} {n : Int64} {source kind : Primitive} (whole : l.toInt? = some n)
    (typed : l.naturalType = .primitive source) (widens : (source.conversion kind).isSome)
    (integral : kind.isIntegral = true) :
    kind.InRange n.toInt ↔ ¬ (kind = .char ∧ 2 ^ 16 ≤ n.toInt) := by
  by_cases char : kind = .char
  · -- Only characters become characters, and none is negative.
    subst char
    obtain rfl := Primitive.eq_char_of_conversion widens
    obtain ⟨c, rfl⟩ : ∃ c, l = .char c := by
      cases l with
      | char c => exact ⟨c, rfl⟩
      | bool _ | int _ | long _ | float _ | double _ | string _ | null => cases typed
    cases whole
    rw [(toInt_char c).1]
    simp only [Primitive.InRange, true_and]
    omega
  · refine iff_of_true ?_ fun astray => char astray.1
    cases l with
    | char c =>
      cases whole
      cases typed
      obtain ⟨value, bound⟩ := toInt_char c
      -- The wider types are at least ints, which hold all code points.
      have held : Primitive.int.InRange c.toNat := ⟨by omega, by omega⟩
      rw [value]
      refine held.widen ?_ integral
      revert widens integral char
      cases kind <;> decide
    | int v =>
      cases whole
      cases typed
      have held : Primitive.int.InRange v.toInt := ⟨v.le_toInt, v.toInt_lt⟩
      rw [Int32.toInt_toInt64]
      exact held.widen widens integral
    | long v =>
      cases whole
      cases typed
      have held : Primitive.long.InRange n.toInt := ⟨n.le_toInt, n.toInt_lt⟩
      exact held.widen widens integral
    | bool _ | float _ | double _ | string _ | null => cases whole

end Literal

/-! ### Integral parameters -/

/-- What the procedure with the given name pushes, read from its bytes with the constants of the
unit. -/
def CompiledUnit.pushes? (name : String) (unit : CompiledUnit) : Option (List Operation) := do
  let procedure ← unit.procedure? name
  let ops ← procedure.code.operations? unit.constants
  return (ops.map Prod.snd).filter (·.pushed?.isSome)

/-- The values of a tree that was compiled to a unit are what the initializer of the unit pushes. -/
theorem Context.pushes_of_compile {ctx : Context} {source : Source LiteralExpr}
    (fresh : source.tree.IsFresh) {unit : CompiledUnit} {reports : List Diagnostic}
    (compiled : ctx.compile source = .ok ⟨some unit, reports⟩) :
    let tree := (ctx.resolve source.tree).1
    tree.passed.map (·.2.value) = source.tree.values.map (·.value) ∧
    ∃ pushes, unit.pushes? ctx.options.initializerName = some pushes ∧
      List.Forall₂
        (fun (a : Method × LiteralExpr) op =>
          (∃ owner name,
            ctx.library.Passes (LiteralExpr.IsWritten ctx.library.stringType) owner name a.1 a.2) ∧
          ∃ i, a.2.load = .ok i ∧ op = i.operation unit.constants.held)
        tree.passed pushes := by
  intro tree
  obtain ⟨silent, emitted⟩ := Context.of_compile compiled
  obtain ⟨values, passes⟩ := Tree.passed_of_resolve fresh silent
  obtain ⟨init, assembled, found, extended, -⟩ := Tree.of_emit emitted
  obtain ⟨ops, read, instructions_eq⟩ :=
    Option.map_eq_some_iff.mp (assemble_operations_snd assembled extended)
  have pushed : unit.pushes? ctx.options.initializerName =
      some ((ops.map Prod.snd).filter (·.pushed?.isSome)) := by
    simp only [CompiledUnit.pushes?, found, Option.bind_eq_bind, Option.bind_some,
      Procedure.ofAssembly, read]
    rfl
  refine ⟨values, _, pushed, ?_⟩
  -- Reading the bytes gives one operation for each instruction, and it pushes if the instruction
  -- does.
  rw [instructions_eq, List.filter_map, List.forall₂_map_right_iff]
  simp only [Function.comp_def, Instruction.isSome_pushed?_operation]
  have loads := Tree.loads_initializer (Assembly.unfailing_of_run assembled)
  refine ((List.forall₂_and_left _ _).mpr ⟨passes, loads⟩).imp ?_
  rintro a i ⟨passed, loaded⟩
  exact ⟨passed, i, loaded, rfl⟩

namespace LiteralExpr

/-- What is passed for an integral parameter of a registry: a whole number, or a string where
strings were given a primitive type. -/
theorem integral_cases {r : Registry} {owner : StaticType} {name : String} {m : Method}
    {e : LiteralExpr} {kind : Primitive}
    (passed : r.library.Passes (IsWritten r.stringType) owner name m e)
    (integral : kind.isIntegral = true) (param : .primitive kind ∈ m.params) :
    (∃ n, e.value.toInt? = some n ∧ e.load = .ok (.pushInt n) ∧
      (kind.InRange n.toInt ↔ ¬ (kind = .char ∧ 2 ^ 16 ≤ n.toInt))) ∨
    ∃ text named, e.value = .string text ∧ r.stringType = .primitive named ∧
      e.load = .ok (.load (.string text)) := by
  obtain ⟨w, target, written, params_eq, converts, rfl⟩ := exists_written passed
  rw [params_eq, List.mem_singleton] at param
  obtain rfl := param
  obtain ⟨source, typed, widens⟩ := Hierarchy.exists_of_converts_to_primitive converts
  rw [written] at typed
  rw [value_adapt]
  -- The cases differ in the type that the literal was written with, which has to widen to the
  -- parameter.
  cases value : w.value with
  | bool _ | float _ | double _ =>
    rw [value] at typed
    cases typed
    cases Primitive.isIntegral_of_conversion widens integral
  | null =>
    rw [value] at typed
    cases typed
  | string text =>
    -- A string is loaded as one whatever its type is.
    rw [value] at typed
    refine Or.inr ⟨text, source, rfl, typed, ?_⟩
    rw [load, value_adapt, value]
  | char _ | int _ | long _ =>
    left
    have natural : w.value.naturalType = .primitive source := by rw [value] at typed ⊢; exact typed
    have taken : (w.adapt (.primitive kind)).type = .primitive kind := by
      rw [adapt_of_primitive (written.trans typed) widens]
    rw [← value]
    obtain ⟨n, whole⟩ : ∃ n, w.value.toInt? = some n := by rw [value]; exact ⟨_, rfl⟩
    refine ⟨n, whole, load_of_isIntegral (by rw [value_adapt, whole]) taken integral, ?_⟩
    exact Literal.inRange_iff whole natural widens integral

end LiteralExpr

/-- **What is pushed for integral parameters.** Let a tree of literals be compiled to a unit, for a
library of registered classes. The values of the tree are those that the initializer pushes, read
from its bytes with the constants of the unit, in order. Where a method takes an integral type, the
number that is pushed is the one of the literal, a character having the number of its code point. It
is in the range of the type, with one exception: a character beyond 16 bits is pushed for the type
of characters all the same. The one value that is no number is a string, if the library has given
strings a primitive type. -/
theorem Registry.integral_literals (r : Registry) (options : Options) (source : Source LiteralExpr)
    (fresh : source.tree.IsFresh) (unit : CompiledUnit) (reports : List Diagnostic)
    (compiled : Context.compile ⟨r.library, options⟩ source = .ok ⟨some unit, reports⟩) :
    let tree := (Context.resolve ⟨r.library, options⟩ source.tree).1
    tree.passed.map (·.2.value) = source.tree.values.map (·.value) ∧
    ∃ pushes, unit.pushes? options.initializerName = some pushes ∧
      List.Forall₂
        (fun (a : Method × LiteralExpr) op => ∀ kind : Primitive, kind.isIntegral = true →
          .primitive kind ∈ a.1.params →
          (∃ n, a.2.value.toInt? = some n ∧ op = .push (.int n) ∧
            (kind.InRange n.toInt ↔ ¬ (kind = .char ∧ 2 ^ 16 ≤ n.toInt))) ∨
          ∃ text named, a.2.value = .string text ∧ r.stringType = .primitive named ∧
            op = .push (.string text))
        tree.passed pushes := by
  intro tree
  obtain ⟨values, pushes, read, each⟩ := Context.pushes_of_compile fresh compiled
  refine ⟨values, pushes, read, each.imp ?_⟩
  rintro a op ⟨⟨owner, name, passed⟩, i, loaded, rfl⟩ kind integral param
  rcases LiteralExpr.integral_cases passed integral param with
    ⟨n, whole, pushed, range⟩ | ⟨text, named, value, strings, pushed⟩
  · cases loaded.symm.trans pushed
    exact Or.inl ⟨n, whole, rfl, range⟩
  · cases loaded.symm.trans pushed
    refine Or.inr ⟨text, named, value, strings, ?_⟩
    rw [Instruction.operation, Constant.eq_string_of_key (unit.constants.key_held _)]

namespace Sample

/-- A class with a symbol, a number of digits and marks. -/
def keypad : ClassEntry where
  name := .topLevel "JKeypad"
  constructors := [[]]
  methods :=
    [⟨"setSymbol", [.primitive .char], .void⟩, ⟨"setDigits", [.primitive .long], .void⟩,
      ⟨"addMark", [.primitive .int], .void⟩]

/-- The library of the keypad. -/
def keypadRegistry : Registry := Registry.empty.add keypad

/-- A keypad whose symbol is beyond 16 bits. -/
def keypadSource : Source LiteralExpr where
  name := "Main"
  tree := .ofLiterals "keypad" (line 1)
    [⟨0, "symbol", line 2, .scalar (.char '😀', line 2)⟩,
      ⟨0, "digits", line 3, .scalar (.int (-7), line 3)⟩,
      ⟨0, "mark", line 4, .list [(.char '😀', line 4), (.int 5, line 4)]⟩]

theorem exists_compile_keypad :
    ∃ unit, Context.compile ⟨keypadRegistry.library, {}⟩ keypadSource = .ok ⟨some unit, []⟩ :=
  Context.exists_compile (by decide +kernel)

/-- The symbol of the keypad is pushed with a number that is out of range. -/
theorem keypad_symbol_astray :
    ∃ unit, Context.compile ⟨keypadRegistry.library, {}⟩ keypadSource = .ok ⟨some unit, []⟩ ∧
      (Context.resolve ⟨keypadRegistry.library, {}⟩ keypadSource.tree).1.passed.map (·.1.params) =
        [[.primitive .char], [.primitive .long], [.primitive .int], [.primitive .int]] ∧
      unit.pushes? "init" =
        some [.push (.int 128512), .push (.int (-7)), .push (.int 128512), .push (.int 5)] ∧
      ¬ Primitive.char.InRange (128512 : Int64).toInt := by
  obtain ⟨unit, compiled⟩ := exists_compile_keypad
  have pushes : ((Context.compile ⟨keypadRegistry.library, {}⟩ keypadSource).toOption.bind
      (·.unit)).bind (·.pushes? "init") =
        some [.push (.int 128512), .push (.int (-7)), .push (.int 128512), .push (.int 5)] := by
    decide +kernel
  rw [compiled] at pushes
  exact ⟨unit, compiled, by decide +kernel, pushes, by decide⟩

/-- What is pushed for the keypad. -/
theorem keypad_literals :
    keypadSource.tree.IsFresh ∧
    ∃ unit pushes, Context.compile ⟨keypadRegistry.library, {}⟩ keypadSource = .ok ⟨some unit, []⟩ ∧
      unit.pushes? "init" = some pushes ∧
      List.Forall₂
        (fun (a : Method × LiteralExpr) op => ∀ kind : Primitive, kind.isIntegral = true →
          .primitive kind ∈ a.1.params → ∃ n, a.2.value.toInt? = some n ∧ op = .push (.int n) ∧
            (kind.InRange n.toInt ↔ ¬ (kind = .char ∧ 2 ^ 16 ≤ n.toInt)))
        (Context.resolve ⟨keypadRegistry.library, {}⟩ keypadSource.tree).1.passed pushes := by
  have fresh : keypadSource.tree.IsFresh := ⟨_, _, _, rfl⟩
  obtain ⟨unit, compiled⟩ := exists_compile_keypad
  obtain ⟨-, pushes, read, each⟩ :=
    keypadRegistry.integral_literals {} keypadSource fresh unit [] compiled
  refine ⟨fresh, unit, pushes, compiled, read, each.imp ?_⟩
  intro a op literal kind integral param
  rcases literal kind integral param with number | ⟨text, named, -, strings, -⟩
  · exact number
  · cases strings

end Sample

/-! ### Floating-point parameters -/

/-- The constants that the code of an expression adds to an empty pool. -/
def Expression.pooled {ε : Type} [Expression ε] (e : ε) : Except CompileError (List Constant) :=
  (assemble .empty (Expression.code e)).map (·.emitter.pool.constants)

theorem Pool.snd_add_empty (c : Constant) : (empty.add c).2 = 0 := by
  unfold add
  split
  · rename_i i found
    simp [empty] at found
  · rfl

theorem Expression.pooled_of_load {ε : Type} [Expression ε] {e : ε} {c : Constant}
    (loaded : Expression.load e = .ok (.load c)) : Expression.pooled e = .ok [c] := by
  obtain ⟨a, assembled⟩ : ∃ a, assemble .empty (Expression.code e) = .ok a := by
    simp [assemble, Expression.code, loaded, Assembly.run, Assembly.step, Emitter.emit,
      Emitter.start, Emitter.setLine, Instruction.encode, Instruction.encodeLoad,
      Instruction.narrowOrWide, Pool.snd_add_empty]
  have held := Assembly.constants_run assembled
  rw [Expression.pooled, assembled]
  simp only [Except.map]
  rw [held]
  simp [Expression.code, loaded]
  rfl

namespace Literal

variable {l : Literal} {v : Int64}

theorem natAbs_toInt_le (v : Int64) : v.toInt.natAbs ≤ 2 ^ 63 := by
  have low := v.le_toInt
  have high := v.toInt_lt
  omega

/-- Characters and ints are too small to be displaced by rounding twice. -/
theorem not_displaced (whole : l.toInt? = some v) (short : ∀ n, l ≠ .long n) :
    ¬ Displaced v.toInt.natAbs := by
  suffices small : v.toInt.natAbs < 2 ^ 53 from fun displaced => Nat.not_lt.mpr displaced.le small
  cases l with
  | char c =>
    cases whole
    obtain ⟨value, bound⟩ := toInt_char c
    omega
  | int n =>
    cases whole
    have low := n.le_toInt
    have high := n.toInt_lt
    rw [Int32.toInt_toInt64]
    omega
  | long n => exact absurd rfl (short n)
  | bool _ | float _ | double _ | string _ | null => cases whole

/-- A whole number takes a floating-point type where one is expected. -/
theorem type_adapt_of_isFloating {kind : Primitive} (whole : l.toInt? = some v)
    (floating : kind.isFloating = true) (span : Span) :
    ((LiteralExpr.ofLiteral l span).adapt (.primitive kind)).type = .primitive kind := by
  cases l with
  | char _ | int _ | long _ =>
    rw [LiteralExpr.adapt_of_primitive rfl]
    revert floating
    cases kind <;> decide
  | bool _ | float _ | double _ | string _ | null => cases whole

end Literal

/-- **Whole numbers as floating-point constants.** A whole number that is passed as a double is
loaded as the double nearest to it, ties to even. One that is passed as a single is loaded as the
single nearest to that double; so it is the single nearest to the number itself unless the number is
a long that was displaced. -/
theorem LiteralExpr.pooled_nearest (l : Literal) (v : Int64) (whole : l.toInt? = some v)
    (span : Span) :
    (∃ x, Expression.pooled ((ofLiteral l span).adapt (.primitive .double)) = .ok [.double x] ∧
      Binary.double.IsNearest v.toInt x.datum) ∧
    (∃ x d w, Expression.pooled ((ofLiteral l span).adapt (.primitive .float)) = .ok [.single x] ∧
      Binary.double.IsNearest v.toInt d ∧ Binary.double.StandsFor d w ∧
      Binary.single.IsNearest w x.datum ∧
      (Binary.single.IsNearest v.toInt x.datum ↔ ¬ Displaced v.toInt.natAbs)) ∧
    ((∀ n, l ≠ .long n) → ¬ Displaced v.toInt.natAbs) := by
  have small := Literal.natAbs_toInt_le v
  obtain ⟨nearest, stands⟩ := Binary64.isNearest_ofInt small
  have number (target : StaticType) :
      ((ofLiteral l span).adapt target).value.toDouble? = some (.ofInt v.toInt) := by
    rw [value_adapt]
    exact Literal.toDouble?_of_toInt? whole
  refine ⟨⟨.ofInt v.toInt, ?_, nearest⟩,
    ⟨(Binary64.ofInt v.toInt).narrow, _, _, ?_, nearest, stands, ?_, ?_⟩,
    Literal.not_displaced whole⟩
  · exact Expression.pooled_of_load
      (load_of_double (number _) (Literal.type_adapt_of_isFloating whole rfl span))
  · exact Expression.pooled_of_load
      (load_of_float (number _) (Literal.type_adapt_of_isFloating whole rfl span))
  · exact (Binary64.isNearest_narrow small).1
  · exact Binary64.isNearest_narrow_iff small

namespace Sample

/-- The long `2 ^ 60 + 2 ^ 36 + 1`, just above the middle of two singles. -/
def aboveMiddle : Int64 := 1152921573326323713

/-- The long is displaced: its double is the middle itself, and the tie goes down. -/
theorem displaced_aboveMiddle : Displaced aboveMiddle.toInt.natAbs :=
  ⟨2 ^ 23, 7, by decide, by decide, Or.inl (by decide)⟩

/-- The long is loaded as the single below it, and the one above is nearer. -/
theorem aboveMiddle_astray :
    Expression.pooled
      ((LiteralExpr.ofLiteral (.long aboveMiddle) (line 1)).adapt (.primitive .float)) =
      .ok [.single ⟨0x5d800000⟩] ∧
    ¬ Binary.single.IsNearest aboveMiddle.toInt (Binary32.datum ⟨0x5d800000⟩) ∧
    Binary.single.IsNearest aboveMiddle.toInt (Binary32.datum ⟨0x5d800001⟩) := by
  have loaded : (Binary64.ofInt aboveMiddle.toInt).narrow = ⟨0x5d800000⟩ := by decide +kernel
  refine ⟨by decide +kernel, ?_, ?_⟩
  · rw [← loaded, Binary64.isNearest_narrow_iff (Literal.natAbs_toInt_le _), not_not]
    exact displaced_aboveMiddle
  · have nearest :=
      (Binary.single.isNearest_decode_round (v := aboveMiddle.toInt) (by decide) (by decide)
        (by decide)).1
    have read : Binary.single.decode (Binary.single.withSign (aboveMiddle.toInt < 0)
        (Binary.single.round (Binary.single.units aboveMiddle.toInt) 0)) =
          Binary32.datum ⟨0x5d800001⟩ := by
      decide +kernel
    rw [← read]
    exact nearest

/-- How the long is rounded. -/
theorem aboveMiddle_rounded :
    Literal.toInt? (.long aboveMiddle) = some aboveMiddle ∧
    ∃ x d w,
      Expression.pooled
        ((LiteralExpr.ofLiteral (.long aboveMiddle) (line 1)).adapt (.primitive .float)) =
        .ok [.single x] ∧
      Binary.double.IsNearest aboveMiddle.toInt d ∧ Binary.double.StandsFor d w ∧
      Binary.single.IsNearest w x.datum ∧
      (Binary.single.IsNearest aboveMiddle.toInt x.datum ↔ ¬ Displaced aboveMiddle.toInt.natAbs) :=
  ⟨rfl, (LiteralExpr.pooled_nearest (.long aboveMiddle) aboveMiddle rfl (line 1)).2.1⟩

end Sample

end Componentry
