import Componentry.Bytecode.Disassembly
import Componentry.Bytecode.Emitter
import Componentry.Tree.Code

/-!
# Compiled units

A compiled unit has static fields, an initializer that creates and configures the objects of a tree,
and an entry point that calls the initializer. Both procedures share one constant pool.

## Main definitions

* `Modifiers`, `Field`, `Procedure`, `CompiledUnit` are the parts of a unit
* `Tree.emit` makes a unit from a bound tree
* `CompiledUnit.listing` shows a procedure as text
-/

namespace Componentry

/-- How a member of a unit can be used. -/
structure Modifiers where
  isPublic : Bool
  isStatic : Bool
  isFinal : Bool
  deriving DecidableEq, Inhabited

namespace Modifiers

/-- The modifiers of everything that is emitted. -/
def publicStatic : Modifiers := ⟨true, true, false⟩

/-- The modifiers as a set of bits. -/
def bits (m : Modifiers) : Nat :=
  (if m.isPublic then 0x1 else 0) + (if m.isStatic then 0x8 else 0) +
    (if m.isFinal then 0x10 else 0)

end Modifiers

/-- A static field of a unit. -/
structure Field where
  name : String
  type : StaticType
  modifiers : Modifiers
  fingerprint : Fingerprint
  deriving DecidableEq, Inhabited

/-- A procedure of a unit. -/
structure Procedure where
  name : String
  fingerprint : Fingerprint
  modifiers : Modifiers
  params : List StaticType
  result : StaticType
  throws : List ClassName
  code : Chunk
  /-- The local slots, by number. -/
  locals : List LocalRange
  /-- The number of local slots that the procedure uses, as it was counted while they came into
  use. -/
  localCount : Nat
  deriving DecidableEq, Inhabited

/-- The result of compiling one tree. -/
structure CompiledUnit where
  name : ClassName
  fingerprint : Fingerprint
  /-- The fields, sorted by name. -/
  fields : List Field
  procedures : List Procedure
  constants : Pool

namespace CompiledUnit

/-- The field with the given name. -/
def field? (u : CompiledUnit) (name : String) : Option Field := u.fields.find? (·.name = name)

/-- The first procedure with the given name. -/
def procedure? (u : CompiledUnit) (name : String) : Option Procedure :=
  u.procedures.find? (·.name = name)

/-- The listing of a procedure of the unit. -/
def listing (u : CompiledUnit) (p : Procedure) : String :=
  Disassembly.text u.name.text p.name u.constants p.code

end CompiledUnit

/-- A field of the unit with the given fingerprint. -/
def Field.ofDeclaration (unit : Fingerprint) (name : String) (type : StaticType) : Field :=
  ⟨name, type, .publicStatic, .ofField unit name⟩

/-- A procedure of the unit with the given fingerprint. -/
def Procedure.ofAssembly (unit : Fingerprint) (options : Options) (name : String) (a : Assembly) :
    Procedure where
  name := name
  fingerprint := .ofProcedure unit name
  modifiers := .publicStatic
  params := []
  result := .void
  throws := [options.failureType]
  code := a.emitter.chunk
  locals := a.locals
  localCount := a.slotCount

variable {ε : Type} [Expression ε]

/-- Makes a unit from a bound tree: the initializer first, then the entry point, over one pool. -/
def Tree.emit (options : Options) (name : String) (t : Tree ε) :
    Except CompileError CompiledUnit := do
  let unitClass := options.unitClass name
  let unit := unitClass.fingerprint
  let fields := t.fields
  let init ← assemble .empty (t.initializer ⟨unit, fields⟩)
  let entry ← assemble init.emitter.pool (entryPoint unit options.initializerName)
  return {
    name := unitClass
    fingerprint := unit
    fields := fields.toList.map fun (name, type) => .ofDeclaration unit name type
    procedures :=
      [.ofAssembly unit options options.initializerName init,
        .ofAssembly unit options options.entryPointName entry]
    constants := entry.emitter.pool }

end Componentry
