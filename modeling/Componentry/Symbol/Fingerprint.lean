import Componentry.Symbol.Digest
import Componentry.Text.Layout

/-!
# Fingerprints of symbols

Emitted code refers to types, members, fields and procedures by 64-bit fingerprints computed from
their names and signatures. Each kind of symbol has a marker of its own, and parameters are mixed in
by position.

## Main definitions

* `Fingerprint` is the 64-bit identity of a symbol
* `Fingerprint.mixParameters` folds the fingerprints of parameter types into a word
* `Fingerprint.ofName`, `ofMethod`, `ofConstructor`, `ofProcedure`, `ofField` are the five kinds
-/

namespace Componentry

/-- The identity of a type, member, field or procedure in emitted code. -/
structure Fingerprint where
  value : UInt64
  deriving DecidableEq, Inhabited

namespace Fingerprint

/-- The multiplier that separates successive parameters; it is odd. -/
def separator : UInt64 := 0x4bc94d6bd06053ad

/-- Marks types. -/
def typeMarker : UInt64 := 0x2fac10b63a6cc57c

/-- Marks instance methods. -/
def methodMarker : UInt64 := 0x7d3c8b4a92e15f6d

/-- Marks constructors. -/
def constructorMarker : UInt64 := 0x9a7f3d5e2b8c4601

/-- Marks procedures of a unit. -/
def procedureMarker : UInt64 := 0x5ea77ffbcdf5f302

/-- Marks fields of a unit. -/
def fieldMarker : UInt64 := 0x1a095090689d4647

/-- The marker of the first parameter position. -/
def firstPosition : UInt64 := 0x9e3779b97f4a7c15

/-- The markers of the first eight parameter positions. -/
def positionMarkers : List UInt64 :=
  [firstPosition, 0xbf58476d1ce4e5b9, 0x94d049bb133111eb, 0xd6e8feb86659fd93,
    0xe7037ed1a0b428db, 0xc6a4a7935bd1e995, 0x8648dbbc94d49b8d, 0xa2b48b2c69e0d657]

/-- The marker of a parameter position; from the ninth on it counts up from the first marker. -/
def positionMarker (i : Nat) : UInt64 :=
  (positionMarkers[i]?).getD (firstPosition + UInt64.ofNat i)

/-- Folds parameters into a word, `i` being the position of the first one. -/
def mixFrom (i : Nat) (acc : UInt64) : List Fingerprint → UInt64
  | [] => acc
  | p :: rest => mixFrom (i + 1) (acc * separator + (positionMarker i ^^^ p.value)) rest

/-- Folds a parameter list into a word. -/
def mixParameters (acc : UInt64) (params : List Fingerprint) : UInt64 := mixFrom 0 acc params

/-- The fingerprint of the type with the given name. -/
def ofName (name : String) : Fingerprint := ⟨typeMarker ^^^ Digest.ofText name⟩

/-- The fingerprint of a method of a type. -/
def ofMethod (owner : Fingerprint) (name : String) (params : List Fingerprint) : Fingerprint :=
  ⟨mixParameters (methodMarker ^^^ owner.value ^^^ Digest.ofText name) params⟩

/-- The fingerprint of a constructor of a type. -/
def ofConstructor (owner : Fingerprint) (params : List Fingerprint) : Fingerprint :=
  ⟨mixParameters (constructorMarker ^^^ owner.value) params⟩

/-- The fingerprint of a procedure of a unit. -/
def ofProcedure (unit : Fingerprint) (name : String) : Fingerprint :=
  ⟨procedureMarker ^^^ unit.value ^^^ Digest.ofText name⟩

/-- The fingerprint of a field of a unit. -/
def ofField (unit : Fingerprint) (name : String) : Fingerprint :=
  ⟨fieldMarker ^^^ unit.value ^^^ Digest.ofText name⟩

/-- The zero word identifies no symbol. -/
def isEmpty (h : Fingerprint) : Bool := h.value == 0

/-- Sixteen hexadecimal digits after `0x`. -/
def text (h : Fingerprint) : String := "0x" ++ Text.hex 16 h.value.toNat

/-- The text of the fingerprint with a tag. -/
def taggedText (h : Fingerprint) : String := "TypeHash(" ++ h.text ++ ")"

end Fingerprint

end Componentry
