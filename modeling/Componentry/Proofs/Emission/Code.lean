import Componentry.Proofs.Bytecode.Decoding
import Componentry.Proofs.Resolution.Bound

/-!
# Code of bound trees

What is bound has code: a value that was accepted can be loaded, a node or value that is stored has
a field, and the owner of a node that is handed out has a slot. So the pieces of the code of a tree
are plain lists of instructions.

## Main definitions

* `CodeContext.Declares` — fields are declared with their types
* `Tree.body` — the instructions of the initializer, without the return at its end

## Main results

* `PropertyInfo.scalarCode_eq`, `PropertyInfo.itemCode_eq`, `NodeInfo.obtain_constructor`,
  `NodeInfo.obtain_getter` — the pieces of the code
* `Tree.declares_fields` — the fields of a tree are declared if their names differ
* `Tree.parts_of_emit`, `Tree.of_emit` — the parts of a unit
-/

namespace Componentry

/-! ### Slots -/

/-- The first place of a node in a list of slots stays the same when slots are added. -/
theorem idxOf?_append_of_eq_some {slots : List Nat} {index slot : Nat}
    (placed : slots.idxOf? index = some slot) (more : List Nat) :
    (slots ++ more).idxOf? index = some slot := by
  rw [List.idxOf?, List.findIdx?_append, ← List.idxOf?, placed]
  rfl

theorem lt_length_of_idxOf? {slots : List Nat} {index slot : Nat}
    (placed : slots.idxOf? index = some slot) : slot < slots.length := by
  rw [List.idxOf?, List.findIdx?_eq_some_iff_getElem] at placed
  exact placed.1

/-- A node that is not yet in a list of slots takes the next one. -/
theorem idxOf?_append_self {slots more : List Nat} {index : Nat}
    (fresh : (slots ++ [index] ++ more).Nodup) :
    (slots ++ [index]).idxOf? index = some slots.length := by
  have new : index ∉ slots := by
    have both := (List.nodup_append.mp fresh).1
    exact fun member =>
      (List.nodup_append.mp both).2.2 _ member _ (List.mem_singleton_self index) rfl
  rw [List.idxOf?, List.findIdx?_append, ← List.idxOf?, List.idxOf?_eq_none_iff.mpr new]
  simp

theorem idxOf?_singleton (index : Nat) : [index].idxOf? index = some 0 := by simp [List.idxOf?]

/-! ### Pieces of code -/

/-- The instructions that call a method and drop its result. -/
def Method.dropInstructions (m : Method) : List Instruction :=
  .callMethod m :: if m.returnsValue then [.pop] else []

@[simp] theorem Method.instructions_callAndDrop (m : Method) :
    Directive.instructions m.callAndDrop = m.dropInstructions := by
  unfold callAndDrop dropInstructions
  split <;> rfl

namespace CodeContext

variable {cx : CodeContext}

/-- The fields are declared with the given types. -/
def Declares (cx : CodeContext) (declarations : List (String × StaticType)) : Prop :=
  ∀ d ∈ declarations, cx.fields[d.1]? = some d.2

theorem declares_append {ds es : List (String × StaticType)} :
    cx.Declares (ds ++ es) ↔ cx.Declares ds ∧ cx.Declares es :=
  List.forall_mem_append

theorem Declares.field {name : String} {type : StaticType} (h : cx.Declares [(name, type)]) :
    cx.fields[name]? = some type :=
  h (name, type) List.mem_cons_self

/-- The instruction that pops into the field with the given name and type. -/
def setField (cx : CodeContext) (name : String) (type : StaticType) : Instruction :=
  .setStatic (.ofField cx.unit name) (name ++ ": " ++ type.text)

theorem store_eq {name : String} {type : StaticType} (declared : cx.fields[name]? = some type) :
    cx.store name = .instruction (cx.setField name type) := by
  simp [store, declared, setField]

end CodeContext

variable {ε : Type} [Expression ε] {cx : CodeContext}

/-- The fields of a tree are declared if their names differ. -/
theorem Tree.declares_fields {t : Tree ε} (distinct : (t.declarations.map (·.1)).Nodup)
    (unit : Fingerprint) : (CodeContext.mk unit t.fields).Declares t.declarations := by
  intro d member
  refine Std.TreeMap.getElem?_ofList_of_mem Std.ReflCmp.compare_self ?_ member
  refine (List.pairwise_map.mp distinct).imp ?_
  intro a b differ
  simpa [Std.LawfulEqCmp.compare_eq_iff_eq] using differ

theorem Expression.code_eq {e : ε} {i : Instruction} (loaded : Expression.load e = .ok i) :
    Expression.code e = [.line (Expression.span e).line, .instruction i] := by
  simp [Expression.code, loaded]

namespace PropertyInfo

variable {info : PropertyInfo} {slot : Nat} {method : Method} {i : Instruction}

/-- A value is loaded, stored and passed to its setter. -/
theorem scalarCode_eq {value : ε} {type : StaticType} (bound : info.binding = .setter method)
    (loaded : Expression.load value = .ok i)
    (declared : cx.fields[info.qualifiedName]? = some type) :
    info.scalarCode cx slot value =
      [.instruction (.getLocal slot), .line (Expression.span value).line, .instruction i,
        .instruction .dup, .instruction (cx.setField info.qualifiedName type)] ++
          method.callAndDrop := by
  simp [scalarCode, bound, Expression.code_eq loaded, CodeContext.store_eq declared]

/-- An item is loaded and passed to its adder. -/
theorem itemCode_eq {item : ε} (loaded : Expression.load item = .ok i) :
    info.itemCode slot item (some method) =
      [.instruction (.getLocal slot), .line (Expression.span item).line, .instruction i] ++
        method.callAndDrop := by
  simp [itemCode, Expression.code_eq loaded]

theorem instructions_scalarCode {value : ε} {type : StaticType}
    (bound : info.binding = .setter method) (loaded : Expression.load value = .ok i)
    (declared : cx.fields[info.qualifiedName]? = some type) :
    Directive.instructions (info.scalarCode cx slot value) =
      [.getLocal slot, i] ++
        ([.dup, cx.setField info.qualifiedName type] ++ method.dropInstructions) := by
  simp [scalarCode_eq bound loaded declared]

theorem instructions_itemCode {item : ε} (loaded : Expression.load item = .ok i) :
    Directive.instructions (info.itemCode slot item (some method)) =
      [.getLocal slot, i] ++ method.dropInstructions := by
  simp [itemCode_eq loaded]

theorem listCode_eq {items : List ε} {methods : List Method}
    (bound : info.binding = .adders (methods.map some)) (same : methods.length = items.length) :
    info.listCode slot items = info.itemsCode slot items (methods.map some) := by
  simp [listCode, bound, same]

end PropertyInfo

namespace NodeInfo

variable {node : NodeInfo} {slots : List Nat} {constructor : Constructor} {method : Method}
  {type : StaticType}

theorem field_of_root (typed : node.type = some type) (parent : node.parent = none)
    (declared : cx.Declares node.declaration) : cx.fields[node.qualifiedName]? = some type := by
  refine CodeContext.Declares.field ?_
  simpa [declaration, typed, parent] using declared

theorem field_of_constructor {parent : Nat} (bound : node.binding = .constructor constructor)
    (typed : node.type = some type) (inside : node.parent = some parent)
    (declared : cx.Declares node.declaration) : cx.fields[node.qualifiedName]? = some type := by
  refine CodeContext.Declares.field ?_
  simpa [declaration, typed, inside, bound] using declared

/-- The root is created, put in its slot and stored. -/
theorem obtain_root (bound : node.binding = .constructor constructor)
    (typed : node.type = some type) (parent : node.parent = none)
    (declared : cx.Declares node.declaration) :
    node.obtain cx slots =
      [.instruction (.new constructor), .instruction (.setLocal (slots.length - 1)),
        .instruction (.getLocal (slots.length - 1)),
        .instruction (cx.setField node.qualifiedName type)] := by
  simp [NodeInfo.obtain, bound, parent, CodeContext.store_eq (field_of_root typed parent declared)]

/-- Any other node that is created is stored and put in the next slot. -/
theorem obtain_constructor {parent : Nat} (bound : node.binding = .constructor constructor)
    (typed : node.type = some type) (inside : node.parent = some parent)
    (declared : cx.Declares node.declaration) :
    node.obtain cx (slots ++ [node.index]) =
      [.instruction (.new constructor), .instruction .dup,
        .instruction (cx.setField node.qualifiedName type),
        .instruction (.setLocal slots.length)] := by
  simp [NodeInfo.obtain, bound, inside,
    CodeContext.store_eq (field_of_constructor bound typed inside declared)]

/-- A node that is handed out is put in the next slot. -/
theorem obtain_getter {parent slot : Nat} (bound : node.binding = .getter method)
    (inside : node.parent = some parent) (placed : slots.idxOf? parent = some slot) :
    node.obtain cx (slots ++ [node.index]) =
      [.instruction (.getLocal slot), .instruction (.callMethod method),
        .instruction (.setLocal slots.length)] := by
  simp [NodeInfo.obtain, bound, inside, idxOf?_append_of_eq_some placed]

theorem enclose_eq (typed : node.type = some type) (body : List Directive) :
    node.enclose cx slots body =
      .enter node.name type :: .line node.span.line :: node.obtain cx slots ++ body ++
        [.leave (slots.length - 1)] := by
  simp [enclose, typed]

theorem instructions_enclose (typed : node.type = some type) (body : List Directive) :
    Directive.instructions (node.enclose cx slots body) =
      Directive.instructions (node.obtain cx slots) ++ Directive.instructions body := by
  simp [enclose_eq typed]

end NodeInfo

/-- A nested node is obtained, and then its properties follow. -/
theorem Property.instructions_nested {info : PropertyInfo} {node : NodeInfo} {type : StaticType}
    {properties : List (Property ε)} (typed : node.type = some type) (slot : Nat)
    (slots : List Nat) :
    Directive.instructions ((nested info node properties).code cx slot slots) =
      Directive.instructions (node.obtain cx (slots ++ [node.index])) ++
        Directive.instructions (codeAll cx slots.length (slots ++ [node.index]) properties) := by
  rw [code, Directive.instructions_line, NodeInfo.instructions_enclose typed]

/-- The instructions of the initializer of a tree, without the return at its end. -/
def Tree.body (cx : CodeContext) (t : Tree ε) : List Instruction :=
  Directive.instructions (t.root.info.obtain cx [t.root.info.index]) ++
    Directive.instructions (Property.codeAll cx 0 [t.root.info.index] t.root.properties)

theorem Tree.instructions_initializer {t : Tree ε} {type : StaticType}
    (typed : t.root.info.type = some type) :
    Directive.instructions (t.initializer cx) = t.body cx ++ [.returnVoid] := by
  simp [initializer, NodeInfo.instructions_enclose typed, body]

/-! ### Units -/

/-- The parts of a unit: its two procedures are assembled one after the other, and its fields are
those of the tree. -/
theorem Tree.parts_of_emit {t : Tree ε} {options : Options} {name : String} {unit : CompiledUnit}
    (emitted : t.emit options name = .ok unit) :
    ∃ init entry : Assembly,
      assemble .empty (t.initializer ⟨unit.fingerprint, t.fields⟩) = .ok init ∧
      assemble init.emitter.pool (entryPoint unit.fingerprint options.initializerName) = .ok entry ∧
      unit.procedures =
        [.ofAssembly unit.fingerprint options options.initializerName init,
          .ofAssembly unit.fingerprint options options.entryPointName entry] ∧
      unit.constants = entry.emitter.pool ∧
      unit.fields =
        t.fields.toList.map fun (name, type) => .ofDeclaration unit.fingerprint name type := by
  simp only [emit, Bind.bind, Except.bind] at emitted
  split at emitted
  · cases emitted
  · rename_i init assembled
    split at emitted
    · cases emitted
    · rename_i entry entered
      cases emitted
      exact ⟨init, entry, assembled, entered, rfl, rfl, rfl⟩

/-- The initializer of a unit is the code of the tree; its pool is part of the unit's, and the
fields of the unit are those of the tree. -/
theorem Tree.of_emit {t : Tree ε} {options : Options} {name : String} {unit : CompiledUnit}
    (emitted : t.emit options name = .ok unit) :
    ∃ init : Assembly, assemble .empty (t.initializer ⟨unit.fingerprint, t.fields⟩) = .ok init ∧
      unit.procedure? options.initializerName =
        some (.ofAssembly unit.fingerprint options options.initializerName init) ∧
      init.emitter.pool.Extends unit.constants ∧
      unit.fields =
        t.fields.toList.map fun (name, type) => .ofDeclaration unit.fingerprint name type := by
  obtain ⟨init, entry, assembled, entered, procedures, constants, fields⟩ := parts_of_emit emitted
  obtain ⟨_, -, -, extended⟩ := Assembly.encoded_run entered
  refine ⟨init, assembled, ?_, ?_, fields⟩
  · simp [CompiledUnit.procedure?, procedures, Procedure.ofAssembly]
  · rw [constants]
    exact extended

end Componentry
