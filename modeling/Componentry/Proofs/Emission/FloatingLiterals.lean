import Componentry.Proofs.Binary.Widening
import Componentry.Proofs.Emission.NeededConstants
import Componentry.Proofs.Execution.Machine
import Componentry.Proofs.Library.Specificity
import Componentry.Proofs.Typing.Soundness

/-!
# Floating-point literals in the pool

A floating-point literal is loaded from the pool of its unit, which keeps one constant of those that
are the same. All literals get their own number back in this way, bit for bit, with one exception:
both zeros of a format count as the same, so the first zero that a unit loads stands for all zeros
of its format, whatever their signs.

## Main definitions

* `Property.passed`, `Tree.passed` — the values of a tree with the methods they are passed to, in
  order
* `LiteralExpr.CarriedBy` — a constant has the number of a literal, bit for bit or widened exactly
* `Constant.zeroSign?` — the sign of a constant that is a zero

## Main results

* `LiteralExpr.exists_isOwn` — there is a constant for each floating-point literal
* `LiteralExpr.IsOwn.carried_cases` — what stands in for it carries the literal too, unless both are
  zeros
* `Property.loads_codeAll` — values are loaded in order
* `Tree.held_of_emit` — of constants that are the same, the first is loaded
* `Registry.floating_literals` — the constants that floating-point literals are loaded from
-/

namespace Componentry

open Binary Directive

/-! ### Numbers -/

namespace Constant

/-- The sign of a constant that is a zero of a floating-point format. -/
def zeroSign? : Constant → Option Bool
  | single x => x.datum.zeroSign?
  | double x => x.datum.zeroSign?
  | int _ | string _ | symbol _ => none

/-- A constant that is the same as a single is a single. -/
theorem exists_single_of_key {c : Constant} {x : Binary32} (same : c.key = (single x).key) :
    ∃ y : Binary32, c = single y ∧ y.key = x.key := by
  cases c with
  | single y =>
    have keys : (y.key : Int) = x.key := congrArg (·.2.1) same
    exact ⟨y, rfl, Int.natCast_inj.mp keys⟩
  | int _ | double _ | string _ | symbol _ => simp [key] at same

/-- A constant that is the same as a double is a double. -/
theorem exists_double_of_key {c : Constant} {x : Binary64} (same : c.key = (double x).key) :
    ∃ y : Binary64, c = double y ∧ y.key = x.key := by
  cases c with
  | double y =>
    have keys : (y.key : Int) = x.key := congrArg (·.2.1) same
    exact ⟨y, rfl, Int.natCast_inj.mp keys⟩
  | int _ | single _ | string _ | symbol _ => simp [key] at same

end Constant

namespace Literal

/-- The literal is a floating-point number. -/
def isFloating : Literal → Bool
  | float _ | double _ => true
  | bool _ | char _ | int _ | long _ | string _ | null => false

/-- The sign of a literal that is a zero of a floating-point format. -/
def zeroSign? : Literal → Option Bool
  | float x => x.datum.zeroSign?
  | double x => x.datum.zeroSign?
  | bool _ | char _ | int _ | long _ | string _ | null => none

end Literal

namespace LiteralExpr

variable {e : LiteralExpr}

/-- The constant has the number of a floating-point literal: the same bit pattern in the format of
the literal, or the same number where a single is passed as a double. -/
def CarriedBy (e : LiteralExpr) (c : Constant) : Prop :=
  match e.value, e.type, c with
  | .float x, .primitive .float, .single y => y.IsSame x
  | .float x, .primitive .double, .double y =>
    SameNumber Binary.single Binary.double x.datum y.datum
  | .double x, .primitive .double, .double y => y.IsSame x
  | _, _, _ => False

/-- What carries a literal is no symbol. -/
theorem CarriedBy.key_ne {c : Constant} (h : e.CarriedBy c) : c.key.1 ≠ 4 := by
  cases c with
  | int _ | single _ | double _ | string _ => simp [Constant.key]
  | symbol _ => simp [CarriedBy] at h

/-- The constant that is made for a literal, and which of those that are the same carry the literal
too. -/
structure IsOwn (e : LiteralExpr) (own : Constant) : Prop where
  loaded : e.load = .ok (.load own)
  carried : e.CarriedBy own
  isSome_sign : ∀ held : Constant, held.key = own.key →
    held.zeroSign?.isSome = e.value.zeroSign?.isSome
  carried_iff : ∀ held : Constant, held.key = own.key →
    (e.CarriedBy held ↔ held.zeroSign? = e.value.zeroSign?)

theorem isOwn_float {x : Binary32} (value : e.value = .float x)
    (type : e.type = .primitive .float) : e.IsOwn (.single x.widen.narrow) := by
  have back := x.isSame_narrow_widen
  refine ⟨load_of_float (by rw [value]; rfl) type, by simpa [CarriedBy, value, type] using back,
    ?_, ?_⟩
  all_goals
    intro held same
    obtain ⟨y, rfl, keys⟩ := Constant.exists_single_of_key same
    simp only [CarriedBy, value, type, Constant.zeroSign?, Literal.zeroSign?, ← back.datum_eq]
  · exact Binary32.isSome_zeroSign?_of_key keys
  · rw [← Binary32.isSame_iff_zeroSign? keys]
    exact ⟨fun same => same.trans back.symm, fun same => same.trans back⟩

theorem isOwn_widened {x : Binary32} (value : e.value = .float x)
    (type : e.type = .primitive .double) : e.IsOwn (.double x.widen) := by
  have exactly := x.sameNumber_widen
  refine ⟨load_of_double (by rw [value]; rfl) type, by simpa [CarriedBy, value, type] using exactly,
    ?_, ?_⟩
  all_goals
    intro held same
    obtain ⟨y, rfl, keys⟩ := Constant.exists_double_of_key same
    simp only [CarriedBy, value, type, Constant.zeroSign?, Literal.zeroSign?]
  · rw [exactly.zeroSign?_eq]
    exact Binary64.isSome_zeroSign?_of_key keys
  · refine ⟨fun same => same.zeroSign?_eq.symm, fun signs => ?_⟩
    rw [exactly.zeroSign?_eq] at signs
    rw [((Binary64.isSame_iff_zeroSign? keys).mpr signs).datum_eq]
    exact exactly

theorem isOwn_double {x : Binary64} (value : e.value = .double x)
    (type : e.type = .primitive .double) : e.IsOwn (.double x) := by
  have itself : x.IsSame x := Or.inl rfl
  refine ⟨load_of_double (by rw [value]; rfl) type, by simpa [CarriedBy, value, type] using itself,
    ?_, ?_⟩
  all_goals
    intro held same
    obtain ⟨y, rfl, keys⟩ := Constant.exists_double_of_key same
    simp only [CarriedBy, value, type, Constant.zeroSign?, Literal.zeroSign?]
  · exact Binary64.isSome_zeroSign?_of_key keys
  · exact Binary64.isSame_iff_zeroSign? keys

/-- What stands in for the constant of a literal carries the literal too, unless both are zeros. -/
theorem IsOwn.carried_cases {own held : Constant} (h : e.IsOwn own) (same : held.key = own.key) :
    (e.value.zeroSign? = none → e.CarriedBy held) ∧
      ∀ negative, e.value.zeroSign? = some negative →
        ∃ first, held.zeroSign? = some first ∧ (e.CarriedBy held ↔ first = negative) := by
  have sign := h.isSome_sign held same
  have carried := h.carried_iff held same
  refine ⟨fun other => ?_, fun negative zero => ?_⟩
  · rw [other, Option.isSome_none, Option.isSome_eq_false_iff, Option.isNone_iff_eq_none] at sign
    exact carried.mpr (sign.trans other.symm)
  · rw [zero, Option.isSome_some] at sign
    obtain ⟨first, first_eq⟩ := Option.isSome_iff_exists.mp sign
    refine ⟨first, first_eq, ?_⟩
    rw [carried, first_eq, zero, Option.some_inj]

theorem adapt_of_primitive {source kind : Primitive} (typed : e.type = .primitive source)
    (widens : (source.conversion kind).isSome) :
    e.adapt (.primitive kind) = { e with type := .primitive kind } := by
  simp [adapt, typed, widens]

/-- What is passed to a method of a registry is a literal as it is written, adapted to the one
parameter of the method, which accepts it. -/
theorem exists_written {r : Registry} {owner : StaticType} {name : String} {m : Method}
    (passed : r.library.Passes (IsWritten r.stringType) owner name m e) :
    ∃ w param, IsWritten r.stringType w ∧ m.params = [param] ∧
      r.hierarchy.converts w.type param = true ∧ e = w.adapt param := by
  obtain ⟨w, written, found, rfl⟩ := passed
  obtain ⟨c, -, -, accepted⟩ := Registry.of_resolveMethod found
  obtain ⟨param, params, converts, rest, params_eq⟩ := List.forall₂_cons_left_iff.mp accepted
  obtain rfl := List.forall₂_nil_left_iff.mp rest
  refine ⟨w, param, written, params_eq, converts, ?_⟩
  simp [Method.adaptArgument, params_eq]
  rfl

/-- A floating-point literal that is passed to a method of a registry takes the type of the
parameter, and there is a constant for it. -/
theorem exists_isOwn {r : Registry} {owner : StaticType} {name : String} {m : Method}
    (passed : r.library.Passes (IsWritten r.stringType) owner name m e)
    (floating : e.value.isFloating = true) : m.params = [e.type] ∧ ∃ own, e.IsOwn own := by
  obtain ⟨w, param, written, params_eq, converts, rfl⟩ := exists_written passed
  rw [value_adapt] at floating
  cases value : w.value with
  | bool _ | char _ | int _ | long _ | string _ | null =>
    rw [value] at floating
    cases floating
  | float x =>
    have typed : w.type = .primitive .float := by
      rw [written, value]
      rfl
    rw [typed] at converts
    obtain ⟨kind, rfl, widens⟩ := Hierarchy.exists_of_converts_primitive converts
    rw [adapt_of_primitive typed widens, params_eq]
    refine ⟨rfl, ?_⟩
    rcases Primitive.eq_of_isFloating (Primitive.isFloating_of_conversion rfl widens) with rfl | rfl
    · exact ⟨_, isOwn_float value rfl⟩
    · exact ⟨_, isOwn_widened value rfl⟩
  | double x =>
    have typed : w.type = .primitive .double := by
      rw [written, value]
      rfl
    rw [typed] at converts
    obtain ⟨kind, rfl, widens⟩ := Hierarchy.exists_of_converts_primitive converts
    obtain rfl : kind = .double := by
      revert widens
      cases kind <;> decide
    rw [adapt_of_primitive typed widens, params_eq]
    exact ⟨rfl, _, isOwn_double value rfl⟩

end LiteralExpr

/-! ### Values in order -/

namespace Property

variable {ε : Type}

mutual

/-- The values of a property and of the nodes in it, each with the method that it is passed to, in
the order in which they are loaded. -/
def passed : Property ε → List (Method × ε)
  | scalar info value =>
    match info.binding with
    | .setter m => [(m, value)]
    | .unbound | .adders _ => []
  | list info items =>
    match info.binding with
    | .adders methods => (methods.zip items).filterMap fun (m, item) => m.map (·, item)
    | .unbound | .setter _ => []
  | nested _ _ properties => passedAll properties
  | reference _ _ => []

/-- The values of properties and of the nodes in them, with the methods that they are passed to. -/
def passedAll : List (Property ε) → List (Method × ε)
  | [] => []
  | p :: rest => p.passed ++ passedAll rest

end

theorem passed_list {info : PropertyInfo} {items : List ε} {adders : List Method}
    (bound : info.binding = .adders (adders.map some)) :
    (list info items).passed = adders.zip items := by
  rw [passed, bound]
  simp [List.zip_map_left, List.filterMap_map]

end Property

/-- The values of a tree with the methods that they are passed to, in the order in which they are
loaded. -/
def Tree.passed {ε : Type} (t : Tree ε) : List (Method × ε) :=
  Property.passedAll t.root.properties

namespace Instruction

theorem isSome_pushed?_operation (hold : Constant → Constant) (i : Instruction) :
    (i.operation hold).pushed?.isSome = i.isPush := by
  cases i <;> rfl

/-- The constants of instructions that do not push a value are symbols. -/
theorem find?_constants_of_not_isPush {i : Instruction} (other : i.isPush = false) {c : Constant}
    (number : c.key.1 ≠ 4) : i.constants.find? (·.key = c.key) = none := by
  have apart (h : Fingerprint) : (Constant.symbol h).key ≠ c.key := fun same => number (same ▸ rfl)
  cases i with
  | load _ | pushInt _ | pushNull | pushBool _ => cases other
  | pop | dup | getLocal _ | setLocal _ | returnVoid => rfl
  | setStatic _ _ | call _ _ _ | callMethod _ | new _ => simp [constants, apart]

/-- A constant that is no symbol is found among those of the instructions that push values. -/
theorem find?_allConstants (is : List Instruction) {c : Constant} (number : c.key.1 ≠ 4) :
    (allConstants is).find? (·.key = c.key) =
      (allConstants (is.filter isPush)).find? (·.key = c.key) := by
  induction is with
  | nil => rfl
  | cons i is ih =>
    cases pushes : i.isPush with
    | true => simp [pushes, List.find?_append, ih]
    | false => simp [pushes, List.find?_append, find?_constants_of_not_isPush pushes number, ih]

end Instruction

theorem Method.filter_dropInstructions (m : Method) :
    m.dropInstructions.filter Instruction.isPush = [] := by
  unfold dropInstructions
  split <;> rfl

/-- The instructions that push values load the given ones, one after the other. -/
def Loads (passed : List (Method × LiteralExpr)) (is : List Instruction) : Prop :=
  List.Forall₂ (fun (a : Method × LiteralExpr) i => a.2.load = .ok i) passed
    (is.filter Instruction.isPush)

namespace Loads

theorem nil {is : List Instruction} (none : is.filter Instruction.isPush = []) : Loads [] is := by
  rw [Loads, none]
  exact .nil

theorem append {ps qs : List (Method × LiteralExpr)} {is js : List Instruction}
    (first : Loads ps is) (second : Loads qs js) : Loads (ps ++ qs) (is ++ js) := by
  rw [Loads, List.filter_append]
  exact List.rel_append first second

theorem singleton {m : Method} {e : LiteralExpr} {i : Instruction} (loaded : e.load = .ok i) :
    Loads [(m, e)] [i] := by
  rw [Loads, List.filter_cons_of_pos (LiteralExpr.isPush_of_load loaded)]
  exact .cons loaded .nil

/-- The constants of the values that are loaded are those of the instructions. -/
theorem allConstants_eq {ps : List (Method × LiteralExpr)} {is : List Instruction}
    (h : Loads ps is) :
    Instruction.allConstants (is.filter Instruction.isPush) =
      ps.flatMap fun a => Expression.constants a.2 := by
  unfold Loads at h
  generalize is.filter Instruction.isPush = pushes at h
  induction h with
  | nil => rfl
  | cons head _ ih =>
    rw [Instruction.allConstants_cons, ih, List.flatMap_cons, Expression.constants_eq head]

end Loads

variable {cx : CodeContext}

theorem PropertyInfo.loads_itemsCode {info : PropertyInfo} {slot : Nat} {adders : List Method}
    {items : List LiteralExpr}
    (each : List.Forall₂ (fun _ item => ∃ i, Expression.load item = .ok i) adders items) :
    Loads (adders.zip items) (instructions (info.itemsCode slot items (adders.map some))) := by
  induction each with
  | nil => exact .nil rfl
  | @cons m item adders items head _ ih =>
    obtain ⟨i, loaded⟩ := head
    rw [List.map_cons, itemsCode, instructions_append, instructions_itemCode loaded]
    have dropped : Loads [] m.dropInstructions := .nil m.filter_dropInstructions
    have loads : Loads [(m, item)] ([.getLocal slot] ++ [i] ++ m.dropInstructions) :=
      ((Loads.nil rfl).append (.singleton loaded)).append dropped
    exact loads.append ih

theorem NodeInfo.loads_obtain {node : NodeInfo} {slots : List Nat}
    (h : Unfailing (node.obtain cx slots)) : Loads [] (instructions (node.obtain cx slots)) := by
  rcases of_unfailing_obtain h with ⟨k, type, -, -, code⟩ | ⟨k, type, parent, -, -, code⟩ |
    ⟨m, parent, owner, -, -, -, code⟩
  all_goals
    rw [code]
    exact .nil rfl

namespace Property

mutual

theorem loads_code : ∀ {slot : Nat} {slots : List Nat} {p : Property LiteralExpr},
    Unfailing (p.code cx slot slots) → Loads p.passed (instructions (p.code cx slot slots))
  | slot, _, scalar info value, h => by
    rw [code, unfailing_line] at h
    obtain ⟨m, i, type, bound, loaded, declared⟩ := PropertyInfo.of_unfailing_scalarCode h
    rw [code, instructions_line, PropertyInfo.instructions_scalarCode bound loaded declared,
      passed, bound]
    have stored : Loads [] ([.dup, cx.setField info.qualifiedName type] ++ m.dropInstructions) :=
      (Loads.nil rfl).append (.nil m.filter_dropInstructions)
    have loads : Loads [(m, value)] ([.getLocal slot] ++ [i]) :=
      (Loads.nil rfl).append (.singleton loaded)
    exact loads.append stored
  | _, _, list info items, h => by
    rw [code, unfailing_line] at h
    obtain ⟨adders, bound, each⟩ := PropertyInfo.of_unfailing_listCode h
    rw [code, instructions_line, PropertyInfo.listCode_eq bound each.length_eq, passed_list bound]
    exact PropertyInfo.loads_itemsCode each
  | _, slots, nested info node properties, h => by
    rw [code, unfailing_line] at h
    obtain ⟨type, typed, obtained, below⟩ := NodeInfo.of_unfailing_enclose h
    rw [instructions_nested typed, passed]
    exact (NodeInfo.loads_obtain obtained).append (loads_codeAll below)
  | _, _, reference _ _, _ => .nil rfl

/-- The code of properties loads their values in order. -/
theorem loads_codeAll : ∀ {slot : Nat} {slots : List Nat} {ps : List (Property LiteralExpr)},
    Unfailing (codeAll cx slot slots ps) →
    Loads (passedAll ps) (instructions (codeAll cx slot slots ps))
  | _, _, [], _ => .nil rfl
  | _, _, p :: rest, h => by
    rw [codeAll, unfailing_append] at h
    rw [codeAll, instructions_append, passedAll]
    exact (loads_code h.1).append (loads_codeAll h.2)

end

end Property

/-- The initializer of a tree loads its values in order. -/
theorem Tree.loads_initializer {t : Tree LiteralExpr} (h : Unfailing (t.initializer cx)) :
    Loads t.passed (instructions (t.initializer cx)) := by
  rw [initializer, List.cons_append, unfailing_line, unfailing_append] at h
  obtain ⟨type, typed, obtained, below⟩ := NodeInfo.of_unfailing_enclose h.1
  rw [instructions_initializer typed, body, ← List.append_nil t.passed]
  exact ((NodeInfo.loads_obtain obtained).append (Property.loads_codeAll below)).append (.nil rfl)

/-! ### Values of bound trees -/

namespace Property

variable {ε : Type} [Expression ε] {lib : Library} {V : ε → Prop}

mutual

theorem passed_of_bound : ∀ {index : Nat} {owner : StaticType} {p : Property ε},
    p.Bound lib V index owner → p.passed.map Prod.snd = p.values ∧
      ∀ a ∈ p.passed, ∃ owner name, lib.Passes V owner name a.1 a.2
  | _, owner, scalar info value, ⟨m, bound, passes⟩ => by
    rw [passed, bound]
    refine ⟨rfl, ?_⟩
    intro a member
    rw [List.mem_singleton.mp member]
    exact ⟨owner, _, passes⟩
  | _, owner, list info items, ⟨methods, bound, each⟩ => by
    rw [passed_list bound]
    refine ⟨List.map_snd_zip (Nat.le_of_eq each.length_eq.symm), ?_⟩
    rintro ⟨m, item⟩ member
    exact ⟨owner, _, List.forall₂_zip each member⟩
  | _, _, nested info node properties, ⟨_, _, type, _, _, below⟩ => passedAll_of_bound below
  | _, _, reference _ _, _ => ⟨rfl, fun a member => by cases member⟩

/-- The values of bound properties are accepted by the methods that they are passed to. -/
theorem passedAll_of_bound : ∀ {index : Nat} {owner : StaticType} {ps : List (Property ε)},
    BoundAll lib V index owner ps → (passedAll ps).map Prod.snd = valuesAll ps ∧
      ∀ a ∈ passedAll ps, ∃ owner name, lib.Passes V owner name a.1 a.2
  | _, _, [], _ => ⟨rfl, fun a member => by cases member⟩
  | _, _, p :: rest, ⟨head, tail⟩ => by
    obtain ⟨values, passes⟩ := passed_of_bound head
    obtain ⟨valuesAll', passesAll⟩ := passedAll_of_bound tail
    refine ⟨by rw [passedAll, List.map_append, values, valuesAll', valuesAll], ?_⟩
    rw [passedAll, List.forall_mem_append]
    exact ⟨passes, passesAll⟩

end

end Property

namespace Property

variable {ctx : Context}

theorem value_adapted (owner : StaticType) (name : String) (e : LiteralExpr) :
    (ctx.library.adapted owner name (ctx.prepare e)).value = e.value := by
  have prepared : (ctx.prepare e).value = e.value := by
    obtain ⟨value, span, type⟩ := e
    cases value <;> rfl
  unfold Library.adapted
  split
  · unfold Method.adaptArgument
    split
    · exact (LiteralExpr.value_adapt _ _).trans prepared
    · exact prepared
  · exact prepared

mutual

theorem values_resolved : ∀ (owner : StaticType) (p : Property LiteralExpr),
    (p.resolved ctx owner).values.map (·.value) = p.values.map (·.value)
  | owner, scalar info value => by simp [resolved, values, value_adapted]
  | owner, list info items => by simp [resolved, values, value_adapted, Function.comp_def]
  | owner, nested info node properties => by
    rw [resolved]
    split
    · exact valuesAll_resolvedAll _ properties
    · rfl
  | _, reference _ _ => rfl

/-- Resolution changes the types of literals and no more. -/
theorem valuesAll_resolvedAll : ∀ (owner : StaticType) (ps : List (Property LiteralExpr)),
    (valuesAll (resolvedAll ctx owner ps)).map (·.value) = (valuesAll ps).map (·.value)
  | _, [] => rfl
  | owner, p :: rest => by
    rw [resolvedAll, valuesAll, valuesAll, List.map_append, List.map_append,
      values_resolved owner p, valuesAll_resolvedAll owner rest]

end

end Property

/-- The values of a tree of literals that was resolved without a report, with the methods that
accept them. -/
theorem Tree.passed_of_resolve {ctx : Context} {t : Tree LiteralExpr} (fresh : t.IsFresh)
    (silent : (ctx.resolve t).2 = .ok []) :
    (ctx.resolve t).1.passed.map (·.2.value) = t.values.map (·.value) ∧
      ∀ a ∈ (ctx.resolve t).1.passed, ∃ owner name,
        ctx.library.Passes (LiteralExpr.IsWritten ctx.library.stringType) owner name a.1 a.2 := by
  have acceptable := Context.acceptable_of_resolve silent
  obtain ⟨type, -, known, -⟩ := acceptable.creatable
  obtain ⟨_, _, -, -, -, below⟩ := (bound_of_resolve fresh silent).root
  obtain ⟨values, passes⟩ := Property.passedAll_of_bound below
  refine ⟨?_, passes⟩
  calc (ctx.resolve t).1.passed.map (·.2.value)
      = ((ctx.resolve t).1.passed.map Prod.snd).map (·.value) := by rw [List.map_map]; rfl
    _ = (ctx.resolve t).1.values.map (·.value) := by rw [passed, values, Tree.values]
    _ = t.values.map (·.value) := by
      rw [Context.resolve_eq_of_acceptable acceptable]
      simp only [resolved, known, Tree.values, Property.valuesAll_resolvedAll]

/-- The constants that the values of a tree are loaded from, in order, before any are identified. -/
def Tree.loaded (t : Tree LiteralExpr) : List Constant :=
  t.passed.flatMap fun a => Expression.constants a.2

/-- A constant that is loaded for a value is held by the pool as the first of those that are the
same. -/
theorem Tree.held_of_emit {t : Tree LiteralExpr} {options : Options} {name : String}
    {unit : CompiledUnit} (emitted : t.emit options name = .ok unit) {own : Constant}
    (member : own ∈ t.loaded) (number : own.key.1 ≠ 4) :
    t.loaded.find? (·.key = own.key) = some (unit.constants.held own) := by
  obtain ⟨init, -, assembled, -⟩ := parts_of_emit emitted
  have unfailing := Assembly.unfailing_of_run assembled
  have needed : (t.constants unit.fingerprint).find? (·.key = own.key) =
      t.loaded.find? (·.key = own.key) := by
    have loads := loads_initializer unfailing
    rw [← constants_initializer unfailing, Instruction.find?_allConstants _ number,
      loads.allConstants_eq]
    rfl
  obtain ⟨first, found⟩ : ∃ first, t.loaded.find? (·.key = own.key) = some first := by
    rw [← Option.isSome_iff_exists, List.find?_isSome]
    exact ⟨own, member, by simp⟩
  rw [Pool.held_eq_find?, constants_of_emit emitted, Constant.find?_collect, List.nil_append,
    List.find?_append, needed, found]
  rfl

/-- **Floating-point literals in the pool.** Let a tree of literals be compiled to a unit, for a
library of registered classes. The values of the tree are those that the initializer pushes, read
from its bytes with the constants of the unit, in order. A floating-point literal has the type of
the parameter that it is passed for, and is read as the first constant of those loaded that is the
same as its own. This carries the literal exactly if the literal is not a zero; and a zero gets the
sign of the first zero of its format. -/
theorem Registry.floating_literals (r : Registry) (options : Options) (source : Source LiteralExpr)
    (fresh : source.tree.IsFresh) (unit : CompiledUnit) (reports : List Diagnostic)
    (compiled : Context.compile ⟨r.library, options⟩ source = .ok ⟨some unit, reports⟩) :
    let tree := (Context.resolve ⟨r.library, options⟩ source.tree).1
    tree.passed.map (·.2.value) = source.tree.values.map (·.value) ∧
    ∃ init ops, unit.procedure? options.initializerName = some init ∧
      init.code.operations? unit.constants = some ops ∧
      List.Forall₂
        (fun (a : Method × LiteralExpr) op => a.2.value.isFloating = true →
          a.1.params = [a.2.type] ∧
          ∃ own held, a.2.load = .ok (.load own) ∧ a.2.CarriedBy own ∧ op = .push held ∧
            tree.loaded.find? (·.key = own.key) = some held ∧
            (a.2.value.zeroSign? = none → a.2.CarriedBy held) ∧
            ∀ negative, a.2.value.zeroSign? = some negative →
              ∃ first, held.zeroSign? = some first ∧ (a.2.CarriedBy held ↔ first = negative))
        tree.passed ((ops.map Prod.snd).filter (·.pushed?.isSome)) := by
  intro tree
  obtain ⟨silent, emitted⟩ := Context.of_compile compiled
  obtain ⟨values, passes⟩ := Tree.passed_of_resolve fresh silent
  obtain ⟨init, assembled, found, extended, -⟩ := Tree.of_emit emitted
  obtain ⟨ops, read, instructions_eq⟩ :=
    Option.map_eq_some_iff.mp (assemble_operations_snd assembled extended)
  have loads := Tree.loads_initializer (Assembly.unfailing_of_run assembled)
  refine ⟨values, _, ops, found, read, ?_⟩
  have pushes : (ops.map Prod.snd).filter (·.pushed?.isSome) =
      ((instructions (tree.initializer ⟨unit.fingerprint, tree.fields⟩)).filter
        Instruction.isPush).map (·.operation unit.constants.held) := by
    rw [instructions_eq, List.filter_map]
    simp only [Function.comp_def, Instruction.isSome_pushed?_operation]
    rfl
  rw [pushes, List.forall₂_map_right_iff]
  have member : ∀ a ∈ tree.passed, a ∈ tree.passed := fun _ inside => inside
  refine ((List.forall₂_and_left _ _).mpr ⟨member, loads⟩).imp ?_
  rintro ⟨m, e⟩ i ⟨inside, loaded⟩ floating
  obtain ⟨owner, name, passed⟩ := passes _ inside
  obtain ⟨params, own, isOwn⟩ := LiteralExpr.exists_isOwn passed floating
  obtain rfl : i = .load own := Except.ok.inj (loaded.symm.trans isOwn.loaded)
  have ownLoaded : own ∈ tree.loaded := by
    rw [Tree.loaded, List.mem_flatMap]
    refine ⟨(m, e), inside, ?_⟩
    rw [Expression.constants_eq isOwn.loaded]
    exact List.mem_singleton_self own
  have first := Tree.held_of_emit emitted ownLoaded isOwn.carried.key_ne
  refine ⟨params, own, _, loaded, isOwn.carried, rfl, first, ?_⟩
  exact isOwn.carried_cases (unit.constants.key_held own)

/-! ### A sample

A slider with two bounds in single precision and a step in double precision. -/

namespace Sample

/-- The class of the slider. -/
def slider : ClassEntry where
  name := .topLevel "JSlider"
  constructors := [[]]
  methods :=
    [⟨"setLow", [.primitive .float], .void⟩, ⟨"setHigh", [.primitive .float], .void⟩,
      ⟨"setStep", [.primitive .double], .void⟩]

/-- The library of the slider. -/
def sliderRegistry : Registry := Registry.empty.add slider

/-- Zero as a single. -/
def zero : Binary32 := ⟨0⟩

/-- Zero with a minus as a single. -/
def minusZero : Binary32 := ⟨0x80000000⟩

/-- One half as a single. -/
def half : Binary32 := ⟨0x3f000000⟩

/-- A slider whose bounds are the two zeros. -/
def sliderSource : Source LiteralExpr where
  name := "Main"
  tree := .ofLiterals "slider" (line 1)
    [⟨0, "low", line 2, .scalar (.float zero, line 2)⟩,
      ⟨0, "high", line 3, .scalar (.float minusZero, line 3)⟩,
      ⟨0, "step", line 4, .scalar (.float half, line 4)⟩]

theorem exists_compile_slider :
    ∃ unit, Context.compile ⟨sliderRegistry.library, {}⟩ sliderSource = .ok ⟨some unit, []⟩ :=
  Context.exists_compile (by decide +kernel)

/-- What the initializer of the slider pushes, read from its bytes. -/
def sliderPushes (unit : CompiledUnit) : Option (List Operation) :=
  (unit.procedure? "init").bind fun init => (init.code.operations? unit.constants).map fun ops =>
    (ops.map Prod.snd).filter (·.pushed?.isSome)

/-- Both bounds are loaded as the zero that comes first, so the second has lost its sign. -/
theorem slider_minusZero_lost :
    ∃ unit, Context.compile ⟨sliderRegistry.library, {}⟩ sliderSource = .ok ⟨some unit, []⟩ ∧
      sliderSource.tree.values.map (·.value) = [.float zero, .float minusZero, .float half] ∧
      sliderPushes unit =
        some [.push (.single zero), .push (.single zero), .push (.double ⟨0x3fe0000000000000⟩)] ∧
      ¬ (Binary32.IsSame zero minusZero) := by
  obtain ⟨unit, compiled⟩ := exists_compile_slider
  have pushes : ((Context.compile ⟨sliderRegistry.library, {}⟩ sliderSource).toOption.bind
      (·.unit)).bind sliderPushes =
        some [.push (.single zero), .push (.single zero),
          .push (.double ⟨0x3fe0000000000000⟩)] := by
    decide +kernel
  rw [compiled] at pushes
  refine ⟨unit, compiled, by decide +kernel, pushes, ?_⟩
  rintro (bits | ⟨odd, -⟩)
  · cases bits
  · revert odd
    decide +kernel

/-- The literals of the slider, each with what carries it. -/
theorem slider_literals :
    sliderSource.tree.IsFresh ∧
    ∃ unit init ops,
      Context.compile ⟨sliderRegistry.library, {}⟩ sliderSource = .ok ⟨some unit, []⟩ ∧
      unit.procedure? "init" = some init ∧ init.code.operations? unit.constants = some ops ∧
      List.Forall₂
        (fun (a : Method × LiteralExpr) op => a.2.value.isFloating = true →
          ∃ held, op = .push held ∧
          (a.2.value.zeroSign? = none → a.2.CarriedBy held) ∧
          ∀ negative, a.2.value.zeroSign? = some negative →
            ∃ first, held.zeroSign? = some first ∧ (a.2.CarriedBy held ↔ first = negative))
        (Context.resolve ⟨sliderRegistry.library, {}⟩ sliderSource.tree).1.passed
        ((ops.map Prod.snd).filter (·.pushed?.isSome)) := by
  have fresh : sliderSource.tree.IsFresh := ⟨_, _, _, rfl⟩
  obtain ⟨unit, compiled⟩ := exists_compile_slider
  obtain ⟨-, init, ops, found, read, each⟩ :=
    sliderRegistry.floating_literals {} sliderSource fresh unit [] compiled
  refine ⟨fresh, unit, init, ops, compiled, found, read, each.imp ?_⟩
  intro a op literal floating
  obtain ⟨-, -, held, -, -, pushed, -, carried⟩ := literal floating
  exact ⟨held, pushed, carried⟩

end Sample

end Componentry
