import Componentry.Proofs.Emission.NeededConstants
import Componentry.Proofs.Emission.SlotOrder
import Componentry.Proofs.Execution.Correctness
import Componentry.Proofs.Resolution.Outline

/-!
# Capacity of a unit

Slots and positions in the pool are written to operands of sixteen bits. Both are taken one after
the other, and each is written as soon as it is taken, so the first number that does not fit is the
first one past the range. Methods and constructors of a bound tree take one argument at most, and
the operand of eight bits for their number is never too small.

## Main definitions

* `IfRoom` — there is a result exactly under a condition, and otherwise 65536 does not fit in
  sixteen bits
* `Instruction.FewArguments` — the number of arguments of a call fits in eight bits
* `Tree.constantCount` — the number of different constants that the unit of a tree needs

## Main results

* `Instruction.ifRoom_encode`, `Assembly.ifRoom_run` — when one instruction or a whole procedure is
  written
* `Property.fewArguments_codeAll` — the calls of bound properties
* `Registry.emit_capacity` — when a tree has a unit
-/

namespace Componentry

open Directive

/-- There is a result exactly if `fits` holds. Otherwise the number 65536 does not fit in sixteen
bits. -/
def IfRoom {α : Type} (fits : Prop) (x : Except CompileError α) : Prop :=
  (fits ∧ ∃ a, x = .ok a) ∨ (¬ fits ∧ x = .error (.operandOverflow 65536 16))

namespace IfRoom

variable {α β : Type} {P Q : Prop} {x : Except CompileError α} {f : α → Except CompileError β}

theorem ok (holds : P) (a : α) : IfRoom P (.ok a) := Or.inl ⟨holds, a, rfl⟩

theorem congr (h : IfRoom P x) (same : P ↔ Q) : IfRoom Q x := by
  rwa [← propext same]

/-- A sequence stops at its first part unless there is room for this part. -/
theorem bind (first : IfRoom P x) (needs : Q → P) (rest : ∀ a, P → x = .ok a → IfRoom Q (f a)) :
    IfRoom Q (x >>= f) := by
  rcases first with ⟨fits, a, rfl⟩ | ⟨full, rfl⟩
  · exact rest a fits rfl
  · exact Or.inr ⟨fun holds => full (needs holds), rfl⟩

theorem map {g : α → β} (h : IfRoom P x) : IfRoom P (x.map g) := by
  rcases h with ⟨fits, a, rfl⟩ | ⟨full, rfl⟩
  · exact ok fits (g a)
  · exact Or.inr ⟨full, rfl⟩

end IfRoom

/-! ### Instructions -/

/-- A position given for a constant in a pool that is not overfull is at most the first one past the
range, and fits exactly if the pool is not overfull behind it. -/
theorem Pool.snd_add_lt_iff {p : Pool} (room : p.size ≤ 65536) (c : Constant) :
    (p.add c).2 ≤ 65536 ∧ ((p.add c).2 < 65536 ↔ (Constant.keep p.constants c).length ≤ 65536) := by
  unfold add
  split
  · -- The constant is there already, so its position is one of the pool's.
    rename_i i found
    have present : c.key ∈ p.constants.map Constant.key := by
      by_contra absent
      rw [positions_eq_none_iff.mpr absent] at found
      cases found
    have inside : i < p.size := by
      by_contra outside
      have held := (p.positions_eq_some_iff c.key i).mp found
      rw [Array.getElem?_eq_none (Nat.le_of_not_lt outside)] at held
      cases held
    rw [Constant.keep, if_pos present, length_constants]
    dsimp only
    omega
  · rename_i absent
    rw [Constant.keep, if_neg (positions_eq_none_iff.mp absent), List.length_append,
      length_constants]
    change p.size ≤ 65536 ∧ (p.size < 65536 ↔ p.size + 1 ≤ 65536)
    omega

namespace Instruction

/-- The number of arguments of a call fits in eight bits. -/
def FewArguments : Instruction → Prop
  | callMethod m => m.arity < 256
  | new k => k.arity < 256
  | load _ | pushInt _ | pushNull | pushBool _ | pop | dup | getLocal _ | setLocal _ | setStatic _ _
  | call _ _ _ | returnVoid => True

theorem fewArguments_of_isPush {i : Instruction} (pushes : i.isPush = true) : i.FewArguments := by
  cases i with
  | load _ | pushInt _ | pushNull | pushBool _ => trivial
  | pop | dup | getLocal _ | setLocal _ | setStatic _ _ | call _ _ _ | callMethod _ | new _
  | returnVoid =>
    cases pushes

theorem ifRoom_wideOperand {n : Nat} (small : n ≤ 65536) : IfRoom (n < 65536) (wideOperand n) := by
  unfold wideOperand
  split
  · rename_i fits
    exact .ok fits _
  · rename_i full
    obtain rfl : n = 65536 := by omega
    exact Or.inr ⟨full, rfl⟩

theorem ifRoom_narrowOrWide (narrow wide : Opcode) {n : Nat} (small : n ≤ 65536) :
    IfRoom (n < 65536) (narrowOrWide narrow wide n) := by
  unfold narrowOrWide
  split
  · exact .ok (by omega) _
  · exact (ifRoom_wideOperand small).map

variable {pool : Pool}

theorem ifRoom_encodeLoad (room : pool.size ≤ 65536) (c : Constant) :
    IfRoom ((Constant.keep pool.constants c).length ≤ 65536) (encodeLoad pool c).2 := by
  obtain ⟨small, fits⟩ := Pool.snd_add_lt_iff room c
  exact (ifRoom_narrowOrWide _ _ small).congr fits

/-- The operand for a symbol. -/
theorem ifRoom_symbol (room : pool.size ≤ 65536) (h : Fingerprint) (name : String) :
    IfRoom ((Constant.keep pool.constants (.symbol h)).length ≤ 65536)
      (wideOperand (pool.addSymbol h name).2) := by
  obtain ⟨small, fits⟩ := Pool.snd_add_lt_iff (p := pool.nameSymbol h name) room (.symbol h)
  exact (ifRoom_wideOperand small).congr fits

theorem ifRoom_encodeSymbol (room : pool.size ≤ 65536) (op : Opcode) (h : Fingerprint)
    (name : String) (rest : List UInt8) :
    IfRoom ((Constant.keep pool.constants (.symbol h)).length ≤ 65536)
      (encodeSymbol pool op h name (.ok rest)).2 :=
  (ifRoom_symbol room h name).bind id fun _ fits _ => .ok fits _

theorem ifRoom_encodeNew (room : pool.size ≤ 65536) {k : Constructor} (few : k.arity < 256) :
    IfRoom ((Constant.collect pool.constants (new k).constants).length ≤ 65536)
      (encodeNew pool k).2 := by
  have grown : (Constant.keep pool.constants (.symbol k.owner.fingerprint)).length ≤
      (Constant.collect pool.constants (new k).constants).length := Constant.length_le_keep _ _
  rcases ifRoom_symbol room k.owner.fingerprint k.owner.text with ⟨fits, bytes, written⟩ |
      ⟨full, stuck⟩
  · -- Behind the symbol of the class the pool is still not overfull, so that of the constructor may
    -- follow.
    have held := pool.constants_addSymbol k.owner.fingerprint k.owner.text
    have next : (pool.addSymbol k.owner.fingerprint k.owner.text).1.size ≤ 65536 := by
      rw [← Pool.length_constants, held]
      exact fits
    have second := ifRoom_symbol next k.fingerprint k.text
    rw [held] at second
    simp only [encodeNew, written, narrowOperand, if_pos few]
    exact second.bind id fun _ fits _ => .ok fits _
  · simp only [encodeNew, stuck]
    exact Or.inr ⟨fun fits => full (Nat.le_trans grown fits), rfl⟩

/-- An instruction that uses slots in order is written exactly if neither the slots nor the pool are
overfull behind it. -/
theorem ifRoom_encode {i : Instruction} {n m : Nat} (few : i.FewArguments)
    (room : pool.size ≤ 65536) (slots : n ≤ 65536) (after : i.slotsAfter n = some m) :
    IfRoom (m ≤ 65536 ∧ (Constant.collect pool.constants i.constants).length ≤ 65536)
      (i.encode pool).2 := by
  have held : pool.constants.length ≤ 65536 := by
    rw [Pool.length_constants]
    exact room
  -- All but two instructions leave the slots alone.
  have same {P : Prop} (stay : some n = some m) : P ↔ m ≤ 65536 ∧ P := by
    obtain rfl := Option.some.inj stay
    exact (and_iff_right slots).symm
  cases i with
  | load c => exact (ifRoom_encodeLoad room c).congr (same after)
  | pushInt value =>
    by_cases short : value = 0 ∨ value = 1
    · have none : (pushInt value).constants = [] := if_pos short
      rw [none, Constant.collect_nil]
      rcases short with rfl | rfl
      · exact (IfRoom.ok held _).congr (same after)
      · exact (IfRoom.ok held _).congr (same after)
    · have loaded : (pushInt value).constants = [.int value] := if_neg short
      rw [not_or] at short
      rw [loaded, encode, if_neg short.1, if_neg short.2]
      exact (ifRoom_encodeLoad room _).congr (same after)
  | pushNull | pushBool _ | pop | dup | returnVoid => exact (IfRoom.ok held _).congr (same after)
  | getLocal slot =>
    obtain ⟨inside, stay⟩ := Option.ite_none_right_eq_some.mp after
    obtain rfl := Option.some.inj stay
    exact (ifRoom_narrowOrWide _ _ (by omega)).congr
      ⟨fun _ => ⟨slots, held⟩, fun _ => Nat.lt_of_lt_of_le inside slots⟩
  | setLocal slot =>
    obtain ⟨rfl, next⟩ := Option.ite_none_right_eq_some.mp after
    obtain rfl := Option.some.inj next
    exact (ifRoom_narrowOrWide _ _ slots).congr (and_iff_left held).symm
  | setStatic field name => exact (ifRoom_encodeSymbol room _ _ _ _).congr (same after)
  | call procedure name args => exact (ifRoom_encodeSymbol room _ _ _ _).congr (same after)
  | callMethod method =>
    have written : narrowOperand method.arity = .ok [UInt8.ofNat method.arity] := if_pos few
    simp only [encode, written]
    exact (ifRoom_encodeSymbol room _ _ _ _).congr (same after)
  | new k => exact (ifRoom_encodeNew room few).congr (same after)

end Instruction

/-! ### Procedures -/

namespace Assembly

open Instruction

/-- Directives without gaps that use slots in order are carried out exactly if neither the slots nor
the pool are overfull at the end. -/
theorem ifRoom_run {ds : List Directive} (unfailing : Unfailing ds)
    (few : ∀ i ∈ instructions ds, i.FewArguments) {n m : Nat}
    (used : useSlots n (instructions ds) = some m) (slots : n ≤ 65536) {a : Assembly}
    (room : a.emitter.pool.size ≤ 65536) :
    IfRoom (m ≤ 65536 ∧
      (Constant.collect a.emitter.pool.constants (allConstants (instructions ds))).length ≤ 65536)
      (a.run ds) := by
  induction ds generalizing a n with
  | nil =>
    obtain rfl := Option.some.inj used
    refine .ok ⟨slots, ?_⟩ a
    rw [instructions_nil, allConstants_nil, Constant.collect_nil, Pool.length_constants]
    exact room
  | cons d ds ih =>
    cases d with
    | line number =>
      rw [unfailing_line] at unfailing
      exact ih unfailing few used slots (a := { a with emitter := a.emitter.setLine number }) room
    | enter name type =>
      rw [unfailing_enter] at unfailing
      let range : LocalRange := ⟨a.slotCount, name, type, a.emitter.offset, a.emitter.offset⟩
      let entered : Assembly :=
        { a with locals := a.locals ++ [range], slotCount := a.slotCount + 1 }
      exact ih unfailing few used slots (a := entered) room
    | leave slot =>
      rw [unfailing_leave] at unfailing
      let close (range : LocalRange) : LocalRange := { range with stop := a.emitter.offset }
      exact ih unfailing few used slots (a := { a with locals := a.locals.modify slot close }) room
    | abort failure => simp at unfailing
    | instruction i =>
      rw [unfailing_instruction] at unfailing
      rw [instructions_instruction, List.forall_mem_cons] at few
      obtain ⟨k, after, rest⟩ := Option.bind_eq_some_iff.mp used
      rw [instructions_instruction, allConstants_cons, Constant.collect_append]
      have first := ifRoom_encode few.1 room slots after
      cases encoded : i.encode a.emitter.pool with
      | mk pool result =>
        rw [encoded] at first
        rcases first with ⟨⟨taken, fits⟩, bytes, written⟩ | ⟨full, stuck⟩
        · obtain rfl : result = .ok bytes := written
          have grown := constants_encode encoded
          simp only [run, step, Emitter.emit, encoded, ← grown]
          refine ih unfailing few.2 rest taken
            (a := { a with emitter := { a.emitter with pool }.write bytes }) ?_
          rw [← grown, Pool.length_constants] at fits
          exact fits
        · -- What does not fit here does not fit in the end, for slots and pool only grow.
          obtain rfl : result = .error (.operandOverflow 65536 16) := stuck
          simp only [run, step, Emitter.emit, encoded]
          refine Or.inr ⟨?_, rfl⟩
          rintro ⟨slots_fit, pool_fits⟩
          refine full ⟨?_, ?_⟩
          · exact Nat.le_trans (le_of_useSlots rest) slots_fit
          · exact Nat.le_trans (Constant.length_le_collect _ _) pool_fits

end Assembly

/-! ### Calls -/

variable {ε : Type} [Expression ε] {lib : Library} {W : ε → Prop} {cx : CodeContext}

/-- Loading a value calls nothing that takes many arguments. -/
def Expression.LoadsPlainly (ε : Type) [Expression ε] : Prop :=
  ∀ (e : ε) (i : Instruction), Expression.load e = .ok i → i.FewArguments

theorem LiteralExpr.loadsPlainly : Expression.LoadsPlainly LiteralExpr := fun _ _ loaded =>
  Instruction.fewArguments_of_isPush (isPush_of_load loaded)

theorem Method.fewArguments_dropInstructions {m : Method} (few : m.arity < 256) :
    ∀ i ∈ m.dropInstructions, i.FewArguments := by
  unfold dropInstructions
  split
  · simpa [Instruction.FewArguments] using few
  · simpa [Instruction.FewArguments] using few

theorem Library.Passes.arity_lt {owner : StaticType} {name : String} {method : Method} {value : ε}
    (h : lib.Passes W owner name method value) (arities : lib.HasArities) : method.arity < 256 := by
  obtain ⟨e, -, found, -⟩ := h
  rw [arities.method found, List.length_singleton]
  decide

theorem PropertyInfo.fewArguments_itemsCode {info : PropertyInfo} {slot : Nat} {owner : StaticType}
    {name : String} (plain : Expression.LoadsPlainly ε) (arities : lib.HasArities)
    {methods : List Method} {items : List ε}
    (passed : List.Forall₂ (lib.Passes W owner name) methods items)
    (each : List.Forall₂ (fun _ item => ∃ i, Expression.load item = .ok i) methods items) :
    ∀ i ∈ instructions (info.itemsCode slot items (methods.map some)), i.FewArguments := by
  induction passed with
  | nil => simp [itemsCode]
  | cons head _ ih =>
    cases each with
    | cons first rest =>
      obtain ⟨i, loaded⟩ := first
      rw [List.map_cons, itemsCode, instructions_append, instructions_itemCode loaded,
        List.forall_mem_append, List.forall_mem_append]
      refine ⟨⟨?_, Method.fewArguments_dropInstructions (head.arity_lt arities)⟩, ih rest⟩
      simpa [Instruction.FewArguments] using plain _ i loaded

/-- The number of arguments of the call that obtains a node fits in eight bits. -/
def NodeBinding.FewArguments : NodeBinding → Prop
  | constructor k => k.arity < 256
  | getter m => m.arity < 256
  | unbound => True

theorem Library.Obtains.fewArguments {owner type : StaticType} {key : String}
    {binding : NodeBinding} (obtained : lib.Obtains owner key type binding)
    (arities : lib.HasArities) : binding.FewArguments := by
  cases obtained with
  | getter found _ _ => simp [NodeBinding.FewArguments, arities.method found]
  | constructor found => simp [NodeBinding.FewArguments, arities.constructor found]

theorem NodeInfo.fewArguments_obtain {node : NodeInfo} {slots : List Nat}
    (few : node.binding.FewArguments) (h : Unfailing (node.obtain cx slots)) :
    ∀ i ∈ instructions (node.obtain cx slots), i.FewArguments := by
  rcases of_unfailing_obtain h with ⟨k, type, bound, -, code⟩ | ⟨k, type, parent, bound, -, code⟩ |
    ⟨m, parent, owner, bound, -, -, code⟩
  all_goals
    rw [bound] at few
    rw [code]
    simpa [Instruction.FewArguments, NodeBinding.FewArguments, CodeContext.setField] using few

namespace Property

mutual

theorem fewArguments_code (plain : Expression.LoadsPlainly ε) (arities : lib.HasArities) :
    ∀ {owner : StaticType} {index slot : Nat} {slots : List Nat} {p : Property ε},
      p.Bound lib W index owner → Unfailing (p.code cx slot slots) →
      ∀ i ∈ instructions (p.code cx slot slots), i.FewArguments
  | _, _, _, _, scalar info value, ⟨method, bound, passed⟩, h => by
    rw [code, unfailing_line] at h
    obtain ⟨_, i, type, -, loaded, declared⟩ := PropertyInfo.of_unfailing_scalarCode h
    rw [code, instructions_line, PropertyInfo.instructions_scalarCode bound loaded declared,
      List.forall_mem_append, List.forall_mem_append]
    refine ⟨?_, ?_, Method.fewArguments_dropInstructions (passed.arity_lt arities)⟩
    · simpa [Instruction.FewArguments] using plain value i loaded
    · simp [Instruction.FewArguments, CodeContext.setField]
  | _, _, _, _, list info items, ⟨methods, bound, passed⟩, h => by
    rw [code, unfailing_line] at h
    obtain ⟨adders, bound', each⟩ := PropertyInfo.of_unfailing_listCode h
    obtain rfl : adders = methods := by
      rw [bound, PropertyBinding.adders.injEq] at bound'
      exact (List.map_injective_iff.mpr (Option.some_injective _) bound').symm
    rw [code, instructions_line, PropertyInfo.listCode_eq bound each.length_eq]
    exact PropertyInfo.fewArguments_itemsCode plain arities passed each
  | _, _, _, _, nested info node properties, ⟨_, _, type, _, obtained, below⟩, h => by
    rw [code, unfailing_line] at h
    obtain ⟨_, typed, obtain_code, rest⟩ := NodeInfo.of_unfailing_enclose h
    rw [instructions_nested typed, List.forall_mem_append]
    exact ⟨NodeInfo.fewArguments_obtain (obtained.fewArguments arities) obtain_code,
      fewArguments_codeAll plain arities below rest⟩
  | _, _, _, _, reference _ _, _, _ => by simp [code]

/-- The calls in the code of bound properties take few arguments. -/
theorem fewArguments_codeAll (plain : Expression.LoadsPlainly ε) (arities : lib.HasArities) :
    ∀ {owner : StaticType} {index slot : Nat} {slots : List Nat} {ps : List (Property ε)},
      BoundAll lib W index owner ps → Unfailing (codeAll cx slot slots ps) →
      ∀ i ∈ instructions (codeAll cx slot slots ps), i.FewArguments
  | _, _, _, _, [], _, _ => by simp [codeAll]
  | _, _, _, _, _ :: _, ⟨head, tail⟩, h => by
    rw [codeAll, unfailing_append] at h
    rw [codeAll, instructions_append, List.forall_mem_append]
    exact ⟨fewArguments_code plain arities head h.1, fewArguments_codeAll plain arities tail h.2⟩

end

end Property

/-- The calls in the initializer of a bound tree take few arguments. -/
theorem Tree.Bound.fewArguments_initializer {t : Tree ε} (h : t.Bound lib W)
    (plain : Expression.LoadsPlainly ε) (arities : lib.HasArities)
    (unfailing : Unfailing (t.initializer cx)) :
    ∀ i ∈ instructions (t.initializer cx), i.FewArguments := by
  obtain ⟨type, constructor, typed, bound, found, below⟩ := h.root
  rw [initializer, List.cons_append, unfailing_line, unfailing_append] at unfailing
  obtain ⟨_, -, obtained, rest⟩ := NodeInfo.of_unfailing_enclose unfailing.1
  rw [instructions_initializer typed, body, List.forall_mem_append, List.forall_mem_append]
  refine ⟨⟨?_, Property.fewArguments_codeAll plain arities below rest⟩, ?_⟩
  · have few : t.root.info.binding.FewArguments := by
      simp [bound, NodeBinding.FewArguments, arities.constructor found]
    exact NodeInfo.fewArguments_obtain few obtained
  · simp [Instruction.FewArguments]

/-! ### Units -/

/-- The number of different constants that the tree and the entry point of its unit need. -/
def Tree.constantCount (options : Options) (name : String) (t : Tree ε) : Nat :=
  let unit := (options.unitClass name).fingerprint
  ((t.constants unit ++ entryConstants unit options.initializerName).map Constant.key).toFinset.card

/-- A bound tree that was built from its root has a unit exactly if there is room for its nodes and
for the constants that it needs. -/
theorem Tree.Bound.ifRoom_emit {V : ε → Prop} {t : Tree ε} (h : t.Bound lib W)
    (built : t.WellFormed V) (loadable : Loadable W) (slotless : Expression.Slotless ε)
    (plain : Expression.LoadsPlainly ε) (arities : lib.HasArities) (options : Options)
    (name : String) :
    IfRoom (t.size ≤ 65536 ∧ t.constantCount options name ≤ 65536) (t.emit options name) := by
  let unit := (options.unitClass name).fingerprint
  have unfailing := h.unfailing_initializer loadable unit
  have count : t.constantCount options name =
      (Constant.collect (Constant.collect [] (t.constants unit))
        (entryConstants unit options.initializerName)).length := by
    have distinct : (([] : List Constant).map Constant.key).Nodup := List.nodup_nil
    rw [← Constant.collect_append, Constant.length_collect distinct]
    rfl
  have first : IfRoom (t.size ≤ 65536 ∧ (Constant.collect [] (t.constants unit)).length ≤ 65536)
      (assemble .empty (t.initializer ⟨unit, t.fields⟩)) := by
    have run := Assembly.ifRoom_run unfailing (h.fewArguments_initializer plain arities unfailing)
      (useSlots_initializer slotless built unfailing) (Nat.zero_le _)
      (a := { emitter := .start .empty }) (Nat.zero_le _)
    rw [constants_initializer unfailing] at run
    exact run
  unfold emit
  refine first.bind ?_ fun init fits assembled => ?_
  · rintro ⟨nodes, constants⟩
    rw [count] at constants
    exact ⟨nodes, Nat.le_trans (Constant.length_le_collect _ _) constants⟩
  · -- The entry point uses no slot, and goes on with the pool of the initializer.
    have held : init.emitter.pool.constants = Constant.collect [] (t.constants unit) := by
      rw [Assembly.constants_run assembled, constants_initializer unfailing]
      rfl
    have entry_unfailing : Unfailing (entryPoint unit options.initializerName) := by
      simp [entryPoint]
    have second :=
      Assembly.ifRoom_run entry_unfailing (by simp [entryPoint, Instruction.FewArguments])
        (n := 0) (m := 0) rfl (Nat.zero_le _) (a := { emitter := .start init.emitter.pool })
        (by rw [← Pool.length_constants]; exact held ▸ fits.2)
    refine IfRoom.bind (second.congr ?_) id fun entry fits _ => .ok fits _
    rw [count, ← held, constants_entryPoint]
    exact ⟨fun room => ⟨fits.1, room.2⟩, fun room => ⟨Nat.zero_le _, room.2⟩⟩

/-- **Capacity.** Let a tree of literals be resolved without a report, for a library of registered
classes. There is a unit exactly if the tree has at most 65536 nodes and needs at most 65536
different constants. Otherwise 65536 does not fit in sixteen bits; a number never fails to fit in
eight. -/
theorem Registry.emit_capacity (r : Registry) (options : Options) (name : String)
    (t : Tree LiteralExpr) (fresh : t.IsFresh)
    (silent : (Context.resolve ⟨r.library, options⟩ t).2 = .ok []) :
    let tree := (Context.resolve ⟨r.library, options⟩ t).1
    ((∃ unit, tree.emit options name = .ok unit) ↔
      t.size ≤ 65536 ∧ tree.constantCount options name ≤ 65536) ∧
    (¬ (t.size ≤ 65536 ∧ tree.constantCount options name ≤ 65536) →
      tree.emit options name = .error (.operandOverflow 65536 16)) ∧
    ∀ value, tree.emit options name ≠ .error (.operandOverflow value 8) := by
  intro tree
  have bound := Tree.bound_of_resolve fresh silent
  have room :=
    bound.ifRoom_emit (fresh.wellFormed.resolve _) (loadable_isWritten _) LiteralExpr.slotless
      LiteralExpr.loadsPlainly r.hasArities options name
  rw [Context.size_resolve] at room
  change IfRoom _ (tree.emit options name) at room
  rcases room with ⟨fits, unit, emitted⟩ | ⟨full, stuck⟩
  · rw [emitted]
    exact ⟨iff_of_true ⟨unit, rfl⟩ fits, fun full => absurd fits full, fun value => by simp⟩
  · rw [stuck]
    exact ⟨iff_of_false (by simp) full, fun _ => rfl, fun value => by simp⟩

namespace Sample

/-- Numbers that are all different, and none of them zero or one. -/
def mark (k : Nat) : Literal := .int (Int32.ofNat (k + 2))

/-- A window with many marks. -/
def marked (n : Nat) : Tree LiteralExpr :=
  .ofLiterals "window" (line 1)
    [⟨0, "mark", line 2, .list ((List.range n).map fun k => (mark k, line 2))⟩]

theorem properties_marked (n : Nat) : ∃ info : PropertyInfo, info.key = "mark" ∧
    (marked n).root.properties =
      [.list info ((List.range n).map fun k => .ofLiteral (mark k) (line 2))] :=
  ⟨_, rfl, congrArg (fun items => [Property.list _ items]) List.map_map⟩

/-- A mark is accepted as what it is. -/
theorem adds_mark : ∃ type method, context.resolveComponent "window" = some type ∧
    (context.library.defaultConstructor type).isSome = true ∧
    context.library.resolveMethod type (Naming.adder "mark") [.primitive .int] = .ok method ∧
    method.params = [.primitive .int] := by
  have known : context.resolveComponent "window" = some (.ofClass "JWindow") := by decide +kernel
  have found : (context.library.resolveMethod (.ofClass "JWindow") (Naming.adder "mark")
      [.primitive .int]).toOption.map (·.params) = some [.primitive .int] := by decide +kernel
  cases answer : context.library.resolveMethod (.ofClass "JWindow") (Naming.adder "mark")
    [.primitive .int] with
  | ok method =>
    rw [answer] at found
    exact ⟨_, method, known, by decide +kernel, answer, Option.some.inj found⟩
  | error error =>
    rw [answer] at found
    cases found

theorem acceptable_marked (n : Nat) : (marked n).Acceptable context := by
  obtain ⟨type, method, known, made, found, -⟩ := adds_mark
  obtain ⟨info, key_eq, properties⟩ := properties_marked n
  have nodes_eq : (marked n).nodes = [(marked n).root] := by
    rw [Tree.nodes_eq]
    rfl
  refine ⟨?_, ?_, ?_⟩
  · rw [nodes_eq]
    intro node member
    obtain rfl := List.mem_singleton.mp member
    refine ⟨type, known, ?_⟩
    rw [properties]
    intro p member
    obtain rfl := List.mem_singleton.mp member
    intro item inside
    obtain ⟨k, -, rfl⟩ := List.mem_map.mp inside
    rw [key_eq]
    exact ⟨method, found⟩
  · obtain ⟨constructor, found⟩ := Option.isSome_iff_exists.mp made
    exact ⟨type, constructor, known, found⟩
  · have known' : context.resolveComponent (marked n).root.info.name = some type := known
    have names : (marked n).storedNames context = [(marked n).root.info.qualifiedName] := by
      simp [Tree.storedNames, nodes_eq, Node.storedNames, known', properties, Property.storedName?]
    rw [names]
    exact List.nodup_singleton _

theorem toInt_mark {k : Nat} (small : k < 65537) :
    (Int32.ofNat (k + 2)).toInt64.toInt = (k : Int) + 2 := by
  rw [Int32.toInt_toInt64, Int32.toInt_ofNat_of_lt (by omega)]
  rfl

/-- Every mark needs a constant. -/
theorem mem_constants_marked {n k : Nat} (inside : k < n) (small : k < 65537) (unit : Fingerprint) :
    Constant.int (Int32.ofNat (k + 2)).toInt64 ∈ ((marked n).resolved context).constants unit := by
  obtain ⟨type, method, known, made, found, params⟩ := adds_mark
  obtain ⟨info, key_eq, properties⟩ := properties_marked n
  have known' : context.resolveComponent (marked n).root.info.name = some type := known
  have taken : context.library.adapted type (Naming.adder info.key)
      (context.prepare (LiteralExpr.ofLiteral (mark k) (line 2))) =
      LiteralExpr.ofLiteral (mark k) (line 2) := by
    have answer : context.library.resolveMethod type (Naming.adder info.key)
        [Expression.type (context.prepare (LiteralExpr.ofLiteral (mark k) (line 2)))] =
          .ok method := by
      rw [key_eq]
      exact found
    simp only [Library.adapted, answer, Method.adaptArgument, params, List.head?_cons]
    rfl
  have needed : Constant.int (Int32.ofNat (k + 2)).toInt64 ∈
      Expression.constants (LiteralExpr.ofLiteral (mark k) (line 2)) := by
    have value := toInt_mark small
    have other : ¬ ((Int32.ofNat (k + 2)).toInt64 = 0 ∨ (Int32.ofNat (k + 2)).toInt64 = 1) := by
      rintro (same | same)
      · rw [same] at value
        change (0 : Int) = k + 2 at value
        omega
      · rw [same] at value
        change (1 : Int) = k + 2 at value
        omega
    have loaded : Expression.load (LiteralExpr.ofLiteral (mark k) (line 2)) =
        .ok (.pushInt (Int32.ofNat (k + 2)).toInt64) := rfl
    rw [Expression.constants_eq loaded, Instruction.constants, if_neg other]
    exact List.mem_singleton_self _
  simp only [Tree.constants, Tree.resolved, known', properties, Property.resolvedAll,
    Property.constantsAll, Property.resolved, Property.constants, Library.itemMethods, List.map_map,
    List.zip_map', List.mem_append, List.mem_flatMap, List.mem_map, List.mem_range]
  refine Or.inr (Or.inl ⟨_, ⟨k, inside, rfl⟩, Or.inl ?_⟩)
  simpa only [Function.comp_apply, taken] using needed

/-- The marks need as many constants. -/
theorem le_constantCount_marked {n : Nat} (small : n ≤ 65537) :
    n ≤ ((marked n).resolved context).constantCount {} "Main" := by
  let keys : Finset Constant.Key := (Finset.range n).image fun k : Nat => (0, (k : Int) + 2, "")
  have count : keys.card = n := by
    rw [Finset.card_image_of_injective, Finset.card_range]
    intro j k same
    simp only [Prod.mk.injEq] at same
    omega
  let unit := (({} : Options).unitClass "Main").fingerprint
  have held : keys ⊆ ((((marked n).resolved context).constants unit ++
      entryConstants unit ({} : Options).initializerName).map Constant.key).toFinset := by
    intro key member
    obtain ⟨k, inside, rfl⟩ := Finset.mem_image.mp member
    rw [Finset.mem_range] at inside
    have few : k < 65537 := Nat.lt_of_lt_of_le inside small
    rw [List.mem_toFinset, List.map_append, List.mem_append]
    refine Or.inl (List.mem_map.mpr ⟨_, mem_constants_marked inside few _, ?_⟩)
    rw [Constant.key, toInt_mark few]
  calc n = keys.card := count.symm
    _ ≤ ((marked n).resolved context).constantCount {} "Main" := Finset.card_le_card held

/-- The window of the sample has a unit, and so its needs are within the limits. A window with 65537
different marks has none. -/
theorem window_capacity :
    (tree.IsFresh ∧ (Context.resolve ⟨registry.library, {}⟩ tree).2 = .ok [] ∧
      (∃ unit, (Context.resolve ⟨registry.library, {}⟩ tree).1.emit {} "Main" = .ok unit) ∧
      tree.size ≤ 65536 ∧
      (Context.resolve ⟨registry.library, {}⟩ tree).1.constantCount {} "Main" ≤ 65536) ∧
    (marked 65537).IsFresh ∧ (Context.resolve ⟨registry.library, {}⟩ (marked 65537)).2 = .ok [] ∧
    (Context.resolve ⟨registry.library, {}⟩ (marked 65537)).1.emit {} "Main" =
      .error (.operandOverflow 65536 16) := by
  have fresh : (marked 65537).IsFresh := ⟨_, _, _, rfl⟩
  have resolved : Context.resolve ⟨registry.library, {}⟩ (marked 65537) =
      ((marked 65537).resolved context, .ok []) :=
    Context.resolve_eq_of_acceptable (acceptable_marked 65537)
  have silent : (Context.resolve ⟨registry.library, {}⟩ (marked 65537)).2 = .ok [] := by
    rw [resolved]
  have full := (registry.emit_capacity {} "Main" (marked 65537) fresh silent).2.1
  obtain ⟨unit, compiled⟩ := exists_compile_source
  obtain ⟨-, emitted⟩ := Context.of_compile compiled
  have made : ∃ unit, (Context.resolve ⟨registry.library, {}⟩ tree).1.emit {} "Main" = .ok unit :=
    ⟨unit, emitted⟩
  refine ⟨⟨isFresh_tree, resolve_tree, made, ?_⟩, fresh, silent, full ?_⟩
  · exact (registry.emit_capacity {} "Main" tree isFresh_tree resolve_tree).1.mp made
  · rintro ⟨-, few⟩
    rw [resolved] at few
    exact absurd (Nat.le_trans (le_constantCount_marked (Nat.le_refl _)) few) (by decide)

end Sample

end Componentry
