import Componentry.Proofs.Emission.Code

/-!
# Emission fails only for lack of room

The code of a tree that was resolved without a report has no gaps, so the only way in which its
emission can fail is a number that does not fit in the operand it is written to.

## Main definitions

* `Directive.Unfailing` — there is code for everything
* `UpToRoom` — there is a result, unless a number does not fit

## Main results

* `Property.unfailing_codeAll` — there is code for everything that is bound
* `Assembly.upToRoom_run` — carrying out such directives fails only for lack of room
* `Context.emit_ok_or_overflow` — so does emission after a resolution without reports
-/

namespace Componentry

/-! ### Directives without gaps -/

namespace Directive

/-- None of the directives is a gap in the code. -/
def Unfailing (ds : List Directive) : Prop := ∀ failure, abort failure ∉ ds

@[simp] theorem unfailing_nil : Unfailing [] := by simp [Unfailing]

@[simp] theorem unfailing_append {ds es : List Directive} :
    Unfailing (ds ++ es) ↔ Unfailing ds ∧ Unfailing es := by
  simp only [Unfailing, List.mem_append, not_or, forall_and]

@[simp] theorem unfailing_instruction {i : Instruction} {ds : List Directive} :
    Unfailing (instruction i :: ds) ↔ Unfailing ds := by simp [Unfailing]

@[simp] theorem unfailing_line {n : Nat} {ds : List Directive} :
    Unfailing (line n :: ds) ↔ Unfailing ds := by simp [Unfailing]

@[simp] theorem unfailing_enter {name : String} {type : StaticType} {ds : List Directive} :
    Unfailing (enter name type :: ds) ↔ Unfailing ds := by simp [Unfailing]

@[simp] theorem unfailing_leave {slot : Nat} {ds : List Directive} :
    Unfailing (leave slot :: ds) ↔ Unfailing ds := by simp [Unfailing]

end Directive

open Directive

@[simp] theorem Method.unfailing_callAndDrop (m : Method) : Unfailing m.callAndDrop := by
  unfold callAndDrop
  split <;> simp

variable {ε : Type} [Expression ε] {lib : Library} {W : ε → Prop} {cx : CodeContext}

/-- Whatever satisfies `W` can be loaded where it is passed. -/
def Loadable (W : ε → Prop) : Prop :=
  ∀ (method : Method) (e : ε), W e → ∃ i, Expression.load (method.adaptArgument e) = .ok i

theorem Library.Passes.exists_load {owner : StaticType} {name : String}
    {method : Method} {value : ε} (h : lib.Passes W owner name method value)
    (loadable : Loadable W) : ∃ i, Expression.load value = .ok i := by
  obtain ⟨e, holds, -, rfl⟩ := h
  exact loadable method e holds

/-- There is code for every item that is passed to an adder. -/
theorem PropertyInfo.unfailing_itemsCode {info : PropertyInfo} {slot : Nat} {owner : StaticType}
    {name : String} (loadable : Loadable W) {methods : List Method} {items : List ε}
    (passed : List.Forall₂ (lib.Passes W owner name) methods items) :
    Unfailing (info.itemsCode slot items (methods.map some)) := by
  induction passed with
  | nil => simp [itemsCode]
  | cons head _ ih =>
    obtain ⟨i, loaded⟩ := head.exists_load loadable
    simpa [itemsCode, itemCode_eq loaded] using ih

/-- There is code for a node whose owner has a slot. -/
theorem NodeInfo.unfailing_obtain {node : NodeInfo} {owner type : StaticType} {key : String}
    {parent : Nat} {slots : List Nat} (obtained : lib.Obtains owner key type node.binding)
    (typed : node.type = some type) (inside : node.parent = some parent)
    (declared : cx.Declares node.declaration) (placed : parent ∈ slots) :
    Unfailing (node.obtain cx (slots ++ [node.index])) := by
  generalize bound : node.binding = binding at obtained
  cases obtained with
  | constructor _ =>
    simp [obtain_constructor bound typed inside declared]
  | getter _ _ _ =>
    obtain ⟨slot, found⟩ := Option.isSome_iff_exists.mp (List.isSome_idxOf?.mpr placed)
    simp [obtain_getter bound inside found]

namespace Property

mutual

theorem unfailing_code (loadable : Loadable W) :
    ∀ {owner : StaticType} {index slot : Nat} {slots : List Nat} {p : Property ε},
      p.Bound lib W index owner → cx.Declares p.declarations → index ∈ slots →
      Unfailing (p.code cx slot slots)
  | _, _, _, _, scalar info value, ⟨method, bound, passed⟩, declared, _ => by
    obtain ⟨i, loaded⟩ := passed.exists_load loadable
    rw [declarations, bound] at declared
    simp [code, PropertyInfo.scalarCode_eq bound loaded declared.field]
  | _, _, _, _, list info items, ⟨methods, bound, passed⟩, _, _ => by
    simpa [code, PropertyInfo.listCode_eq bound passed.length_eq] using
      PropertyInfo.unfailing_itemsCode loadable passed
  | _, _, _, slots, nested info node properties, ⟨_, inside, type, typed, obtained, below⟩,
    declared, placed => by
    rw [declarations, CodeContext.declares_append] at declared
    have body : Unfailing (codeAll cx slots.length (slots ++ [node.index]) properties) :=
      unfailing_codeAll loadable below declared.2 (by simp)
    simp only [code, NodeInfo.enclose_eq typed, unfailing_line, unfailing_enter, unfailing_append,
      List.cons_append, unfailing_leave, unfailing_nil, and_true]
    exact ⟨NodeInfo.unfailing_obtain obtained typed inside declared.1 placed, body⟩
  | _, _, _, _, reference _ _, _, _, _ => by simp [code]

/-- There is code for all properties that are bound. -/
theorem unfailing_codeAll (loadable : Loadable W) :
    ∀ {owner : StaticType} {index slot : Nat} {slots : List Nat} {ps : List (Property ε)},
      BoundAll lib W index owner ps → cx.Declares (declarationsAll ps) → index ∈ slots →
      Unfailing (codeAll cx slot slots ps)
  | _, _, _, _, [], _, _, _ => by simp [codeAll]
  | _, _, _, _, _ :: _, ⟨head, tail⟩, declared, placed => by
    rw [declarationsAll, CodeContext.declares_append] at declared
    rw [codeAll, unfailing_append]
    exact ⟨unfailing_code loadable head declared.1 placed,
      unfailing_codeAll loadable tail declared.2 (List.mem_append_left _ placed)⟩

end

end Property

/-- There is code for everything in a bound tree. -/
theorem Tree.Bound.unfailing_initializer {t : Tree ε} (h : t.Bound lib W) (loadable : Loadable W)
    (unit : Fingerprint) : Unfailing (t.initializer ⟨unit, t.fields⟩) := by
  obtain ⟨type, constructor, typed, bound, -, below⟩ := h.root
  have declared := Tree.declares_fields h.nodup_names unit
  rw [declarations, CodeContext.declares_append] at declared
  simp [initializer, NodeInfo.enclose_eq typed,
    NodeInfo.obtain_root bound typed h.parent_root declared.1,
    Property.unfailing_codeAll loadable below declared.2]

/-! ### Lack of room -/

/-- There is a result, unless a number does not fit in the operand it is written to. -/
def UpToRoom {α : Type} (x : Except CompileError α) : Prop :=
  (∃ a, x = .ok a) ∨ ∃ value bits, x = .error (.operandOverflow value bits)

namespace UpToRoom

theorem ok {α : Type} (a : α) : UpToRoom (.ok a) := Or.inl ⟨a, rfl⟩

/-- What fails only for lack of room at every step does so as a whole. -/
theorem bind {α β : Type} {x : Except CompileError α} {f : α → Except CompileError β}
    (first : UpToRoom x) (rest : ∀ a, UpToRoom (f a)) : UpToRoom (x >>= f) := by
  rcases first with ⟨a, rfl⟩ | ⟨value, bits, rfl⟩
  · exact rest a
  · exact Or.inr ⟨value, bits, rfl⟩

end UpToRoom

namespace Instruction

theorem upToRoom_narrowOperand (n : Nat) : UpToRoom (narrowOperand n) := by
  unfold narrowOperand
  split
  · exact .ok _
  · exact Or.inr ⟨n, 8, rfl⟩

theorem upToRoom_wideOperand (n : Nat) : UpToRoom (wideOperand n) := by
  unfold wideOperand
  split
  · exact .ok _
  · exact Or.inr ⟨n, 16, rfl⟩

theorem upToRoom_narrowOrWide (narrow wide : Opcode) (n : Nat) :
    UpToRoom (narrowOrWide narrow wide n) := by
  unfold narrowOrWide
  split
  · exact .ok _
  · exact (upToRoom_wideOperand n).bind fun _ => .ok _

theorem upToRoom_encodeSymbol (pool : Pool) (op : Opcode) (h : Fingerprint) (name : String)
    {rest : Except CompileError (List UInt8)} (room : UpToRoom rest) :
    UpToRoom (encodeSymbol pool op h name rest).2 :=
  (upToRoom_wideOperand _).bind fun _ => room.bind fun _ => .ok _

theorem upToRoom_encodeNew (pool : Pool) (k : Constructor) : UpToRoom (encodeNew pool k).2 := by
  -- No plain sequence: the pool that is left behind depends on whether the symbol of the class
  -- fits.
  rcases upToRoom_wideOperand (pool.addSymbol k.owner.fingerprint k.owner.text).2 with
    ⟨bytes, written⟩ | ⟨value, bits, stuck⟩
  · simp only [encodeNew, written]
    exact (upToRoom_wideOperand _).bind fun _ => (upToRoom_narrowOperand _).bind fun _ => .ok _
  · simp only [encodeNew, stuck]
    exact Or.inr ⟨value, bits, rfl⟩

/-- An instruction that cannot be encoded has a number that does not fit. -/
theorem upToRoom_encode (pool : Pool) (i : Instruction) : UpToRoom (i.encode pool).2 := by
  cases i with
  | load c => exact upToRoom_narrowOrWide _ _ _
  | pushInt n =>
    simp only [encode]
    split
    · exact .ok _
    · split
      · exact .ok _
      · exact upToRoom_narrowOrWide _ _ _
  | pushNull | pushBool _ | pop | dup | returnVoid => exact .ok _
  | getLocal slot | setLocal slot => exact upToRoom_narrowOrWide _ _ _
  | setStatic field name | call procedure name args => exact upToRoom_encodeSymbol _ _ _ _ (.ok _)
  | callMethod m => exact upToRoom_encodeSymbol _ _ _ _ (upToRoom_narrowOperand _)
  | new k => exact upToRoom_encodeNew pool k

end Instruction

namespace Assembly

/-- A step that is no gap fails only for lack of room. -/
theorem upToRoom_step (a : Assembly) {d : Directive} (plain : ∀ failure, d ≠ .abort failure) :
    UpToRoom (a.step d) := by
  cases d with
  | line _ | enter _ _ | leave _ => exact .ok _
  | abort failure => exact absurd rfl (plain failure)
  | instruction i =>
    have encoded := i.upToRoom_encode a.emitter.pool
    simp only [step, Emitter.emit]
    generalize i.encode a.emitter.pool = result at encoded
    obtain ⟨pool, result⟩ := result
    rcases encoded with ⟨bytes, rfl⟩ | ⟨value, bits, rfl⟩
    · exact .ok _
    · exact Or.inr ⟨value, bits, rfl⟩

/-- Directives without gaps fail only for lack of room. -/
theorem upToRoom_run {ds : List Directive} (unfailing : Unfailing ds) (a : Assembly) :
    UpToRoom (a.run ds) := by
  induction ds generalizing a with
  | nil => exact .ok a
  | cons d ds ih =>
    have plain : ∀ failure, d ≠ .abort failure := by
      rintro failure rfl
      exact unfailing failure List.mem_cons_self
    have rest : Unfailing ds := fun failure member =>
      unfailing failure (List.mem_cons_of_mem d member)
    rw [run]
    rcases a.upToRoom_step plain with ⟨next, stepped⟩ | ⟨value, bits, stuck⟩
    · rw [stepped]
      exact ih rest next
    · rw [stuck]
      exact Or.inr ⟨value, bits, rfl⟩

end Assembly

/-- Emission of a bound tree fails only for lack of room. -/
theorem Tree.Bound.upToRoom_emit {t : Tree ε} (h : t.Bound lib W) (loadable : Loadable W)
    (options : Options) (name : String) : UpToRoom (t.emit options name) := by
  unfold emit
  refine UpToRoom.bind ?_ fun init => UpToRoom.bind ?_ fun entry => .ok _
  · exact Assembly.upToRoom_run (h.unfailing_initializer loadable _) _
  · exact Assembly.upToRoom_run (by simp [entryPoint]) _

theorem loadable_isWritten (stringType : StaticType) :
    Loadable (LiteralExpr.IsWritten stringType) :=
  fun method _ written => LiteralExpr.exists_load (written.takes_adaptArgument method)

/-- **Emission is total up to room.** After a resolution of a tree of literals that reports nothing,
there is a unit, unless a number does not fit in the operand it is written to. -/
theorem Context.emit_ok_or_overflow (ctx : Context) (options : Options) (name : String)
    (t : Tree LiteralExpr) (fresh : t.IsFresh) (silent : (ctx.resolve t).2 = .ok []) :
    (∃ unit, (ctx.resolve t).1.emit options name = .ok unit) ∨
    ∃ value bits, (ctx.resolve t).1.emit options name = .error (.operandOverflow value bits) := by
  have bound := Tree.bound_of_resolve fresh silent
  exact bound.upToRoom_emit (loadable_isWritten _) options name

/-- The window of the sample has a unit or no room. -/
theorem Sample.emit_window :
    tree.IsFresh ∧ (context.resolve tree).2 = .ok [] ∧
    ((∃ unit, (context.resolve tree).1.emit context.options "Main" = .ok unit) ∨
      ∃ value bits, (context.resolve tree).1.emit context.options "Main" =
        .error (.operandOverflow value bits)) :=
  ⟨isFresh_tree, resolve_tree,
    context.emit_ok_or_overflow context.options "Main" tree isFresh_tree resolve_tree⟩

end Componentry
