import Componentry.Library.Conversion
import Componentry.Tree.Expression

/-!
# Literals

Constant values as expressions. A literal has a natural type; it may take a wider type when it is
passed to a member, and its instruction depends on the type it has taken.

## Main definitions

* `Literal` is a constant value
* `LiteralExpr` is a literal at a place, with its static type
* `LiteralExpr.adapt` takes the type expected by a member
* `LiteralExpr.load` is the instruction for the value at its type
-/

namespace Componentry

/-- A constant value. -/
inductive Literal where
  | bool (value : Bool)
  | char (value : Char)
  | int (value : Int32)
  | long (value : Int64)
  | float (value : Binary32)
  | double (value : Binary64)
  | string (value : String)
  | null
  deriving DecidableEq, Inhabited

namespace Literal

/-- The type of a literal before it is adapted. -/
def naturalType : Literal → StaticType
  | bool _ => .primitive .boolean
  | char _ => .primitive .char
  | int _ => .primitive .int
  | long _ => .primitive .long
  | float _ => .primitive .float
  | double _ => .primitive .double
  | string _ => .ofClass "String"
  | null => .null

/-- The whole number that a literal stands for, a character standing for its code point. -/
def toInt? : Literal → Option Int64
  | char c => some (Int64.ofNat c.toNat)
  | int v => some v.toInt64
  | long v => some v
  | bool _ | float _ | double _ | string _ | null => none

/-- The double nearest to the number that a literal stands for. -/
def toDouble? : Literal → Option Binary64
  | float v => some v.widen
  | double v => some v
  | l => l.toInt?.map fun v => .ofInt v.toInt

/-- The literal as written. -/
def text : Literal → String
  | bool b => if b then "true" else "false"
  | char c => Text.quoteChar c
  | int v => toString v.toInt
  | long v => toString v.toInt ++ "L"
  | float v => v.text ++ "F"
  | double v => v.text ++ "D"
  | string s => Text.quote s
  | null => "null"

end Literal

/-- A literal at a place, with the type it has taken. -/
structure LiteralExpr where
  value : Literal
  span : Span
  type : StaticType
  deriving DecidableEq, Inhabited

namespace LiteralExpr

/-- A literal with its natural type. -/
def ofLiteral (value : Literal) (span : Span) : LiteralExpr := ⟨value, span, value.naturalType⟩

/-- String literals take the given type. -/
def withStringType (t : StaticType) (e : LiteralExpr) : LiteralExpr :=
  match e.value with
  | .string _ => { e with type := t }
  | _ => e

/-- A primitive literal takes a wider primitive type, and null takes a class type. -/
def adapt (target : StaticType) (e : LiteralExpr) : LiteralExpr :=
  match e.type, target with
  | .primitive source, .primitive kind =>
    if (source.conversion kind).isSome then { e with type := target } else e
  | .null, .object _ => { e with type := target }
  | _, _ => e

/-- The failure of a literal that has no value of its type. -/
def mismatch (e : LiteralExpr) : CompileError :=
  .internal s!"literal {e.value.text} cannot be emitted as {e.type.text}"

/-- The instruction that leaves the value, at its type, on the stack. A whole number becomes a
single by way of the nearest double. -/
def load (e : LiteralExpr) : Except CompileError Instruction :=
  match e.value, e.type with
  | .bool b, _ => .ok (.pushBool b)
  | .string s, _ => .ok (.load (.string s))
  | .null, _ => .ok .pushNull
  | l, .primitive .float =>
    match l.toDouble? with
    | some v => .ok (.load (.single v.narrow))
    | none => .error e.mismatch
  | l, .primitive .double =>
    match l.toDouble? with
    | some v => .ok (.load (.double v))
    | none => .error e.mismatch
  | l, _ =>
    match l.toInt? with
    | some v => .ok (.pushInt v)
    | none => .error e.mismatch

instance : Expression LiteralExpr where
  span := span
  type := type
  text e := e.value.text
  withStringType := withStringType
  adapt := adapt
  load := load

end LiteralExpr

end Componentry
