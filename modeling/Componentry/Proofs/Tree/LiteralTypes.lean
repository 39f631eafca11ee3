import Componentry.Tree.Literal

/-!
# Types that literals take

A literal is written with one type and takes another where it is passed. Every type that it can take
has a value of the literal: whole numbers take numeric types, floating-point numbers floating-point
types, null takes classes.

## Main definitions

* `Literal.typeIn` — the type of a literal as it is written
* `Literal.Takes` — the types that a literal takes

## Main results

* `LiteralExpr.adapt_adapt` — a literal is adapted once
* `LiteralExpr.takes_adapt` — a literal keeps to these types when it is adapted
* `LiteralExpr.exists_load` — it can be loaded at all of them
-/

namespace Componentry

/-! ### Widening -/

namespace Primitive

theorem eq_boolean_of_conversion {kind : Primitive} (h : (boolean.conversion kind).isSome) :
    kind = boolean := by
  revert h
  cases kind <;> decide

theorem isNumeric_of_conversion {source kind : Primitive} (integral : source.isIntegral = true)
    (h : (source.conversion kind).isSome) : kind.isIntegral = true ∨ kind.isFloating = true := by
  revert integral h
  cases source <;> cases kind <;> decide

theorem isFloating_of_conversion {source kind : Primitive} (floating : source.isFloating = true)
    (h : (source.conversion kind).isSome) : kind.isFloating = true := by
  revert floating h
  cases source <;> cases kind <;> decide

theorem eq_of_isFloating {kind : Primitive} (floating : kind.isFloating = true) :
    kind = float ∨ kind = double := by
  revert floating
  cases kind <;> decide

end Primitive

namespace Literal

/-- Every whole number has a nearest double. -/
theorem toDouble?_of_toInt? {l : Literal} {n : Int64} (whole : l.toInt? = some n) :
    l.toDouble? = some (.ofInt n.toInt) := by
  cases l with
  | char _ | int _ | long _ =>
    cases whole
    rfl
  | bool _ | float _ | double _ | string _ | null => cases whole

/-- The type of a literal as it is written, in a library with the given type of strings. -/
def typeIn (stringType : StaticType) : Literal → StaticType
  | string _ => stringType
  | literal => literal.naturalType

/-- The types that a literal takes, in a library with the given type of strings. A string keeps its
type if that is a class. -/
inductive Takes (stringType : StaticType) : Literal → StaticType → Prop
  | bool (b : Bool) : Takes stringType (bool b) (.primitive .boolean)
  | integral {l : Literal} {n : Int64} {kind : Primitive} (whole : l.toInt? = some n)
      (integral : kind.isIntegral = true) : Takes stringType l (.primitive kind)
  | floating {l : Literal} {v : Binary64} {kind : Primitive} (number : l.toDouble? = some v)
      (floating : kind.isFloating = true) : Takes stringType l (.primitive kind)
  | string (s : String) {type : StaticType}
      (kept : ∀ name, stringType = .object name → type = stringType) :
      Takes stringType (string s) type
  | null : Takes stringType null .null
  | object (name : ClassName) : Takes stringType null (.object name)

theorem takes_typeIn (stringType : StaticType) (l : Literal) :
    l.Takes stringType (l.typeIn stringType) := by
  cases l with
  | bool b => exact .bool b
  | char _ | int _ | long _ => exact .integral rfl rfl
  | float _ | double _ => exact .floating rfl rfl
  | string s => exact .string s fun _ _ => rfl
  | null => exact .null

end Literal

/-- The instruction pushes a value and does nothing else. -/
def Instruction.isPush : Instruction → Bool
  | load _ | pushInt _ | pushNull | pushBool _ => true
  | pop | dup | getLocal _ | setLocal _ | setStatic _ _ | call _ _ _ | callMethod _ | new _
  | returnVoid => false

namespace LiteralExpr

variable {stringType : StaticType} {e : LiteralExpr}

/-- Adapting a literal changes nothing but its type. -/
theorem adapt_eq (target : StaticType) (e : LiteralExpr) :
    e.adapt target = { e with type := (e.adapt target).type } := by
  unfold adapt
  split
  · split <;> rfl
  · rfl
  · rfl

@[simp] theorem value_adapt (target : StaticType) (e : LiteralExpr) :
    (e.adapt target).value = e.value := by
  rw [adapt_eq]

/-- The ways in which the type of a literal is adapted. -/
theorem type_adapt_cases (target : StaticType) (e : LiteralExpr) :
    (e.adapt target).type = e.type ∨
    (∃ source kind, e.type = .primitive source ∧ target = .primitive kind ∧
      (source.conversion kind).isSome ∧ (e.adapt target).type = .primitive kind) ∨
    ∃ name, e.type = .null ∧ target = .object name ∧ (e.adapt target).type = .object name := by
  unfold adapt
  split
  · rename_i source kind typed
    split
    · rename_i widens
      exact Or.inr (Or.inl ⟨source, kind, typed, rfl, widens, rfl⟩)
    · exact Or.inl rfl
  · rename_i name typed
    exact Or.inr (Or.inr ⟨name, typed, rfl, rfl⟩)
  · exact Or.inl rfl

/-- A literal that is adapted keeps its type or takes the one that is expected. -/
theorem type_adapt_eq_or (target : StaticType) (e : LiteralExpr) :
    (e.adapt target).type = e.type ∨ (e.adapt target).type = target := by
  rcases type_adapt_cases target e with same | ⟨_, _, -, rfl, -, taken⟩ | ⟨_, -, rfl, taken⟩
  · exact Or.inl same
  · exact Or.inr taken
  · exact Or.inr taken

/-- A literal is adapted once. -/
theorem adapt_adapt (target : StaticType) (e : LiteralExpr) :
    (e.adapt target).adapt target = e.adapt target := by
  rcases type_adapt_eq_or target e with same | taken
  · have kept : e.adapt target = e := by
      rw [adapt_eq, same]
    rw [kept, kept]
  · have settled := type_adapt_eq_or target (e.adapt target)
    rw [taken, or_self] at settled
    rw [adapt_eq target (e.adapt target), settled]
    exact congrArg (LiteralExpr.mk _ _) taken.symm

theorem withStringType_withStringType (t : StaticType) (e : LiteralExpr) :
    (e.withStringType t).withStringType t = e.withStringType t := by
  obtain ⟨value, span, type⟩ := e
  cases value <;> rfl

/-- If a literal that was adapted is given the type of strings again, this takes a string back to
what it was, and changes no other literal. -/
theorem withStringType_adapt {t : StaticType} (fixed : e.withStringType t = e)
    (target : StaticType) :
    (e.adapt target).withStringType t = e.adapt target ∨ (e.adapt target).withStringType t = e := by
  obtain ⟨value, span, type⟩ := e
  rw [adapt_eq]
  cases value with
  | string text => exact Or.inr fixed
  | bool _ | char _ | int _ | long _ | float _ | double _ | null => exact Or.inl rfl

/-- A literal that is adapted takes a type that it can take. -/
theorem takes_adapt (h : e.value.Takes stringType e.type) (target : StaticType) :
    e.value.Takes stringType (e.adapt target).type := by
  obtain ⟨value, span, type⟩ := e
  rcases type_adapt_cases target ⟨value, span, type⟩ with same |
      ⟨source, kind, rfl, -, widens, adapted⟩ |
    ⟨name, rfl, -, adapted⟩
  · rw [same]
    exact h
  · rw [adapted]
    cases h with
    | bool b =>
      rw [Primitive.eq_boolean_of_conversion widens]
      exact .bool b
    | integral whole integral =>
      rcases Primitive.isNumeric_of_conversion integral widens with still | floating
      · exact .integral whole still
      · exact .floating (Literal.toDouble?_of_toInt? whole) floating
    | floating number floating =>
      exact .floating number (Primitive.isFloating_of_conversion floating widens)
    | string s kept =>
      refine .string s fun name isClass => ?_
      rw [isClass] at kept
      cases kept name rfl
  · rw [adapted]
    cases h with
    | null => exact .object name
    | string s kept =>
      refine .string s fun name isClass => ?_
      rw [isClass] at kept
      cases kept name rfl

/-- A whole number at an integral type is pushed. -/
theorem load_of_isIntegral {n : Int64} {kind : Primitive} (whole : e.value.toInt? = some n)
    (typed : e.type = .primitive kind) (integral : kind.isIntegral = true) :
    e.load = .ok (.pushInt n) := by
  obtain ⟨value, span, type⟩ := e
  subst typed
  cases value <;> cases kind <;> simp_all [load, Literal.toInt?, Primitive.isIntegral]

/-- A number at the type of singles is loaded as the single nearest to its double. -/
theorem load_of_float {v : Binary64} (number : e.value.toDouble? = some v)
    (typed : e.type = .primitive .float) : e.load = .ok (.load (.single v.narrow)) := by
  obtain ⟨value, span, type⟩ := e
  subst typed
  cases value <;> simp_all [load, Literal.toDouble?, Literal.toInt?]

/-- A number at the type of doubles is loaded as its double. -/
theorem load_of_double {v : Binary64} (number : e.value.toDouble? = some v)
    (typed : e.type = .primitive .double) : e.load = .ok (.load (.double v)) := by
  obtain ⟨value, span, type⟩ := e
  subst typed
  cases value <;> simp_all [load, Literal.toDouble?, Literal.toInt?]

/-- A literal can be loaded at every type that it takes. -/
theorem exists_load (h : e.value.Takes stringType e.type) : ∃ i, e.load = .ok i := by
  obtain ⟨value, span, type⟩ := e
  cases h with
  | bool b => exact ⟨.pushBool b, rfl⟩
  | string s _ => exact ⟨.load (.string s), rfl⟩
  | null | object _ => exact ⟨.pushNull, rfl⟩
  | integral whole integral => exact ⟨_, load_of_isIntegral whole rfl integral⟩
  | floating number floating =>
    rcases Primitive.eq_of_isFloating floating with rfl | rfl
    · exact ⟨_, load_of_float number rfl⟩
    · exact ⟨_, load_of_double number rfl⟩

/-- The instruction for a literal pushes a value and does nothing else. -/
theorem isPush_of_load {i : Instruction} (loaded : e.load = .ok i) : i.isPush = true := by
  unfold load at loaded
  split at loaded
  · cases loaded
    rfl
  · cases loaded
    rfl
  · cases loaded
    rfl
  -- The other literals are numbers, and have an instruction if they have a value of their type.
  all_goals
    split at loaded
    · cases loaded
      rfl
    · cases loaded

end LiteralExpr

end Componentry
