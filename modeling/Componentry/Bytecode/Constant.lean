import Componentry.Binary.Number
import Componentry.Symbol.Fingerprint
import Componentry.Text.Quoted
import Std.Data.TreeMap

/-!
# Constants of a unit

The values that code refers to by index. Two constants are the same when they have the same kind and
the same value; both zeros of a floating-point format are one value, and so are all its non-numbers.

## Main definitions

* `Constant` is a value in the constant pool
* `Constant.key` is equal for two constants exactly when they are the same
* `Constant.compareKeys` orders the keys
-/

namespace Componentry

/-- A value in the constant pool. -/
inductive Constant where
  | int (value : Int64)
  | single (value : Binary32)
  | double (value : Binary64)
  | string (value : String)
  /-- A reference to a type, member, field or procedure. -/
  | symbol (value : Fingerprint)
  deriving DecidableEq, Inhabited

namespace Constant

/-- Kind, number and text of a constant, the number or the text being empty where the kind has
none. -/
abbrev Key := Nat × Int × String

/-- Equal for the same constants. -/
def key : Constant → Key
  | int value => (0, value.toInt, "")
  | single value => (1, value.key, "")
  | double value => (2, value.key, "")
  | string value => (3, 0, value)
  | symbol value => (4, value.value.toNat, "")

/-- Keys are ordered by kind, then by number, then by text. -/
def compareKeys (a b : Key) : Ordering :=
  (compare a.1 b.1).then ((compare a.2.1 b.2.1).then (compare a.2.2 b.2.2))

instance : Std.TransCmp compareKeys := by
  have h : compareKeys =
      compareLex (compareOn (·.1)) (compareLex (compareOn (·.2.1)) (compareOn (·.2.2))) := rfl
  rw [h]
  infer_instance

instance : Std.LawfulEqCmp compareKeys where
  eq_of_compare {a b} h := by
    obtain ⟨_, _, _⟩ := a
    obtain ⟨_, _, _⟩ := b
    simpa [compareKeys, Ordering.then_eq_eq] using h
  compare_self := by simp [compareKeys]

/-- The constant as text. -/
def text : Constant → String
  | int value => toString value.toInt
  | single value => value.text ++ "f"
  | double value => value.text
  | string value => Text.quote value
  | symbol value => value.text

end Constant

end Componentry
