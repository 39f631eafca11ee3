import Componentry.Proofs.Emission.Code

/-!
# Fields and the code that stores them

What is stored in a field is decided three times: names are claimed when a tree is bound, the table
of fields is made from the bound tree, and stores are emitted with its code. The three agree on
every tree that makes a unit. The names are those of the root, of the nested nodes that are created
and of the properties that are set; the table has them in order, and each of its fields is stored
once.

## Main definitions

* `NodeInfo.isCreated`, `PropertyInfo.isSet` — what is stored in a field
* `Tree.ownedNames` — the names of all that is stored
* `Instruction.storedField?`, `Operation.storedField?` — the field that is stored

## Main results

* `Tree.Bound.names_perm` — fields are declared for the names of what is stored
* `Tree.keys_fields_perm` — the table has every declaration, if their names differ
* `Tree.Bound.stores_body` — the code stores what is declared, in order
* `Context.fields_stored_once` — the fields of a unit and the stores of its initializer
-/

namespace Componentry

/-! ### What is stored -/

/-- The node is bound to a constructor. -/
def NodeInfo.isCreated (node : NodeInfo) : Bool :=
  match node.binding with
  | .constructor _ => true
  | .unbound | .getter _ => false

/-- The property is bound to a setter. -/
def PropertyInfo.isSet (info : PropertyInfo) : Bool :=
  match info.binding with
  | .setter _ => true
  | .unbound | .adders _ => false

variable {ε : Type}

/-- The names of those of the nodes that are created. -/
def Node.createdNames (nodes : List (Node ε)) : List String :=
  (nodes.filter (·.info.isCreated)).map (·.info.qualifiedName)

/-- The names of those of the properties that are set. -/
def Property.setNames (properties : List (Property ε)) : List String :=
  (properties.filter (·.info.isSet)).map (·.info.qualifiedName)

/-- The names of all that is stored: of the root, of the nested nodes that are created, and of the
properties of any node that are set. -/
def Tree.ownedNames (t : Tree ε) : List String :=
  t.root.info.qualifiedName ::
    (Node.createdNames (Property.nodesAll t.root.properties) ++
      Property.setNames (t.nodes.flatMap (·.properties)))

@[simp] theorem Node.createdNames_append (ns ms : List (Node ε)) :
    createdNames (ns ++ ms) = createdNames ns ++ createdNames ms := by
  simp [createdNames]

@[simp] theorem Property.setNames_append (ps qs : List (Property ε)) :
    setNames (ps ++ qs) = setNames ps ++ setNames qs := by
  simp [setNames]

variable {lib : Library}

/-- A nested node that was obtained has a field exactly if it is created. -/
theorem NodeInfo.names_declaration {node : NodeInfo} {parent : Nat} {owner type : StaticType}
    {key : String} (inside : node.parent = some parent) (typed : node.type = some type)
    (obtained : lib.Obtains owner key type node.binding) (properties : List (Property ε)) :
    node.declaration.map (·.1) = Node.createdNames [⟨node, properties⟩] := by
  generalize bound : node.binding = binding at obtained
  cases obtained with
  | getter _ _ _ => simp [declaration, Node.createdNames, isCreated, inside, typed, bound]
  | constructor _ => simp [declaration, Node.createdNames, isCreated, inside, typed, bound]

variable [Expression ε] {W : ε → Prop}

namespace Property

mutual

theorem names_perm :
    ∀ {index : Nat} {owner : StaticType} {p : Property ε}, p.Bound lib W index owner →
      (p.declarations.map (·.1)).Perm
        (Node.createdNames p.nodes ++ (setNames [p] ++ setNames (p.nodes.flatMap (·.properties))))
  | _, _, scalar info value, ⟨method, bound, _⟩ => by
    simp [declarations, bound, nodes, Node.createdNames, setNames, Property.info,
      PropertyInfo.isSet]
  | _, _, list info items, ⟨methods, bound, _⟩ => by
    simp [declarations, bound, nodes, Node.createdNames, setNames, Property.info,
      PropertyInfo.isSet]
  | _, _, reference info target, unbound => by
    have unset : info.isSet = false := by rw [PropertyInfo.isSet, unbound]
    simp [declarations, nodes, Node.createdNames, setNames, Property.info, unset]
  | _, _, nested info node properties, ⟨unbound, inside, type, typed, obtained, below⟩ => by
    have unset : setNames [nested info node properties] = [] := by
      simp [setNames, Property.info, PropertyInfo.isSet, unbound]
    have split_nodes :
        (nested info node properties).nodes = [⟨node, properties⟩] ++ nodesAll properties :=
      rfl
    rw [declarations, List.map_append, NodeInfo.names_declaration inside typed obtained properties,
      unset, split_nodes, Node.createdNames_append, List.append_assoc]
    refine List.Perm.append_left _ ?_
    simpa using namesAll_perm below

/-- Fields are declared for what is stored in properties and in the nodes in them. -/
theorem namesAll_perm :
    ∀ {index : Nat} {owner : StaticType} {ps : List (Property ε)}, BoundAll lib W index owner ps →
      ((declarationsAll ps).map (·.1)).Perm
        (Node.createdNames (nodesAll ps) ++
          (setNames ps ++ setNames ((nodesAll ps).flatMap (·.properties))))
  | _, _, [], _ => List.Perm.refl _
  | _, _, p :: rest, ⟨head, tail⟩ => by
    have first := names_perm head
    have others := namesAll_perm tail
    have own : setNames (p :: rest) = setNames [p] ++ setNames rest := setNames_append [p] rest
    rw [declarationsAll, List.map_append, nodesAll, Node.createdNames_append, List.flatMap_append,
      setNames_append, own]
    -- The two sides list the same six parts in different orders.
    rw [List.perm_iff_count] at first others ⊢
    intro name
    have here := first name
    have there := others name
    simp only [List.count_append] at here there ⊢
    omega

end

end Property

/-- Fields are declared for the names of all that is stored. -/
theorem Tree.Bound.names_perm {t : Tree ε} (h : t.Bound lib W) :
    (t.declarations.map (·.1)).Perm t.ownedNames := by
  obtain ⟨type, constructor, typed, -, -, below⟩ := h.root
  have root : t.root.info.declaration = [(t.root.info.qualifiedName, type)] := by
    simp [NodeInfo.declaration, typed, h.parent_root]
  rw [declarations, root, ownedNames, nodes_eq, Node.nodes, List.flatMap_cons,
    Property.setNames_append]
  exact (Property.namesAll_perm below).cons _

/-! ### The table -/

/-- The table has every declaration, if their names differ. -/
theorem Tree.keys_fields_perm {t : Tree ε} (distinct : (t.declarations.map (·.1)).Nodup) :
    t.fields.keys.Perm (t.declarations.map (·.1)) := by
  rw [List.perm_ext_iff_of_nodup Std.TreeMap.nodup_keys distinct]
  intro name
  rw [Std.TreeMap.mem_keys, fields, Std.TreeMap.mem_ofList, List.contains_iff_mem]

/-- The table is sorted by name. -/
theorem FieldTable.pairwise_keys (table : FieldTable) : table.keys.Pairwise (· < ·) := by
  refine Std.TreeMap.ordered_keys.imp ?_
  intro a b before
  exact compareOfLessAndEq_eq_lt.mp before

/-! ### Stores -/

/-- The field that an instruction stores to. -/
def Instruction.storedField? : Instruction → Option Fingerprint
  | setStatic field _ => some field
  | _ => none

/-- The field that an instruction stores to, as it is read from its bytes. -/
def Operation.storedField? : Operation → Option Fingerprint
  | setStatic field => some field
  | _ => none

theorem Instruction.storedField?_operation (hold : Constant → Constant) (i : Instruction) :
    (i.operation hold).storedField? = i.storedField? := by
  cases i <;> rfl

namespace Directive

/-- The field that a directive stores to. -/
@[simp] def storedField? : Directive → Option Fingerprint
  | instruction i => i.storedField?
  | line _ | enter _ _ | leave _ | abort _ => none

/-- The fields that directives store to, in order. -/
def stores (ds : List Directive) : List Fingerprint := ds.filterMap (·.storedField?)

theorem stores_eq (ds : List Directive) :
    stores ds = (instructions ds).filterMap (·.storedField?) := by
  rw [stores, instructions, List.filterMap_filterMap]
  apply List.filterMap_congr
  intro d _
  cases d <;> rfl

@[simp] theorem stores_nil : stores [] = [] := rfl

@[simp] theorem stores_append (ds es : List Directive) :
    stores (ds ++ es) = stores ds ++ stores es := by
  simp [stores]

@[simp] theorem stores_cons (d : Directive) (ds : List Directive) :
    stores (d :: ds) = d.storedField?.toList ++ stores ds := by
  rw [stores, List.filterMap_cons]
  cases d.storedField? <;> rfl

end Directive

open Directive

@[simp] theorem Method.stores_callAndDrop (m : Method) : stores m.callAndDrop = [] := by
  unfold callAndDrop
  split <;> rfl

/-- Values are loaded without a store. -/
def Expression.Quiet (ε : Type) [Expression ε] : Prop :=
  ∀ (e : ε) (i : Instruction), Expression.load e = .ok i → i.storedField? = none

theorem Expression.stores_code (quiet : Expression.Quiet ε) (e : ε) :
    stores (Expression.code e) = [] := by
  cases loaded : Expression.load e with
  | ok i => simp [Expression.code, loaded, quiet e i loaded]
  | error failure => simp [Expression.code, loaded]

theorem LiteralExpr.quiet : Expression.Quiet LiteralExpr := by
  intro e i loaded
  change e.load = .ok i at loaded
  unfold load at loaded
  split at loaded
  · cases loaded
    rfl
  · cases loaded
    rfl
  · cases loaded
    rfl
  -- The other literals are numbers, and have an instruction if they have a value of their type.
  all_goals
    split at loaded
    · cases loaded
      rfl
    · cases loaded

variable {cx : CodeContext}

/-- The fields of declarations. -/
def CodeContext.fieldsOf (cx : CodeContext) (declarations : List (String × StaticType)) :
    List Fingerprint :=
  declarations.map fun d => .ofField cx.unit d.1

namespace PropertyInfo

variable {info : PropertyInfo} {slot : Nat}

theorem stores_itemCode (quiet : Expression.Quiet ε) (item : ε) (m : Option Method) :
    stores (info.itemCode slot item m) = [] := by
  cases m with
  | none => rfl
  | some m => simp [itemCode, Expression.stores_code quiet, Instruction.storedField?]

theorem stores_itemsCode (quiet : Expression.Quiet ε) (items : List ε)
    (methods : List (Option Method)) : stores (info.itemsCode slot items methods) = [] := by
  induction items generalizing methods with
  | nil => rfl
  | cons item items ih =>
    cases methods with
    | nil => rfl
    | cons m methods => simp [itemsCode, stores_itemCode quiet, ih]

theorem stores_listCode (quiet : Expression.Quiet ε) (items : List ε) :
    stores (info.listCode slot items) = [] := by
  unfold listCode
  split
  · split
    · exact stores_itemsCode quiet _ _
    · rfl
  · rfl
  · rfl

end PropertyInfo

/-- A nested node that is obtained is stored exactly if it is created. -/
theorem NodeInfo.stores_obtain {node : NodeInfo} {parent : Nat} {owner type : StaticType}
    {key : String} {slots : List Nat} (inside : node.parent = some parent)
    (typed : node.type = some type) (obtained : lib.Obtains owner key type node.binding)
    (declared : cx.Declares node.declaration) :
    stores (node.obtain cx (slots ++ [node.index])) = cx.fieldsOf node.declaration := by
  generalize bound : node.binding = binding at obtained
  cases obtained with
  | getter _ _ _ =>
    have none_declared : node.declaration = [] := by simp [declaration, typed, inside, bound]
    rw [none_declared, NodeInfo.obtain, bound, inside]
    dsimp only
    split <;> rfl
  | constructor _ =>
    rw [obtain_constructor bound typed inside declared]
    simp [declaration, typed, inside, bound, CodeContext.setField, CodeContext.fieldsOf,
      Instruction.storedField?]

namespace Property

mutual

theorem stores_code (quiet : Expression.Quiet ε) :
    ∀ {index slot : Nat} {slots : List Nat} {owner : StaticType} {p : Property ε},
      p.Bound lib W index owner → cx.Declares p.declarations →
      stores (p.code cx slot slots) = cx.fieldsOf p.declarations
  | _, _, _, _, scalar info value, ⟨method, bound, _⟩, declared => by
    have field : cx.fields[info.qualifiedName]? = some (Expression.type value) := by
      refine CodeContext.Declares.field ?_
      simpa [declarations, bound] using declared
    simp [code, PropertyInfo.scalarCode, bound, Expression.stores_code quiet,
      CodeContext.store_eq field, CodeContext.setField, Instruction.storedField?, declarations,
      CodeContext.fieldsOf]
  | _, _, _, _, list info items, _, _ => by
    simp [code, declarations, PropertyInfo.stores_listCode quiet, CodeContext.fieldsOf]
  | _, _, _, _, reference _ _, _, _ => rfl
  | _, _, slots, _, nested info node properties, ⟨_, inside, type, typed, obtained, below⟩,
    declared => by
    rw [declarations, CodeContext.declares_append] at declared
    have own : stores (node.obtain cx (slots ++ [node.index])) = cx.fieldsOf node.declaration :=
      NodeInfo.stores_obtain inside typed obtained declared.1
    simp [code, NodeInfo.enclose_eq typed, own, stores_codeAll quiet below declared.2, declarations,
      CodeContext.fieldsOf]

/-- The code of bound properties stores what is declared for them, in order. -/
theorem stores_codeAll (quiet : Expression.Quiet ε) :
    ∀ {index slot : Nat} {slots : List Nat} {owner : StaticType} {ps : List (Property ε)},
      BoundAll lib W index owner ps → cx.Declares (declarationsAll ps) →
      stores (codeAll cx slot slots ps) = cx.fieldsOf (declarationsAll ps)
  | _, _, _, _, [], _, _ => rfl
  | _, _, _, _, p :: rest, ⟨head, tail⟩, declared => by
    rw [declarationsAll, CodeContext.declares_append] at declared
    simp [codeAll, declarationsAll, stores_code quiet head declared.1,
      stores_codeAll quiet tail declared.2, CodeContext.fieldsOf]

end

end Property

/-- The code of a bound tree stores what is declared, in order. -/
theorem Tree.Bound.stores_body {t : Tree ε} (h : t.Bound lib W) (quiet : Expression.Quiet ε)
    (declared : cx.Declares t.declarations) :
    (t.body cx).filterMap (·.storedField?) = cx.fieldsOf t.declarations := by
  obtain ⟨type, constructor, typed, bound, -, below⟩ := h.root
  rw [declarations, CodeContext.declares_append] at declared
  have root :
      stores (t.root.info.obtain cx [t.root.info.index]) = cx.fieldsOf t.root.info.declaration := by
    rw [NodeInfo.obtain_root bound typed h.parent_root declared.1]
    simp [NodeInfo.declaration, typed, h.parent_root, CodeContext.setField, CodeContext.fieldsOf,
      Instruction.storedField?]
  have others : stores (Property.codeAll cx 0 [t.root.info.index] t.root.properties) =
      cx.fieldsOf (Property.declarationsAll t.root.properties) :=
    Property.stores_codeAll quiet below declared.2
  rw [body, List.filterMap_append, ← stores_eq, ← stores_eq, root, others, declarations,
    CodeContext.fieldsOf, CodeContext.fieldsOf, CodeContext.fieldsOf, List.map_append]

/-! ### Units -/

/-- As many fields are declared as constructors and setters are counted. -/
theorem Context.length_declarations {ctx : Context} {V : ε → Prop} {t : Tree ε}
    (h : t.Acceptable ctx) (built : t.WellFormed V) :
    (ctx.resolve t).1.declarations.length =
      (ctx.binding t).2.constructors + (ctx.binding t).2.setters := by
  obtain ⟨type, constructor, known, found⟩ := h.creatable
  obtain ⟨s, bound, -, claimed⟩ := binding_eq_of_acceptable h known
  have balanced : (ctx.binding t).2.Balanced := by
    rw [binding_eq, Tree.typed_eq known]
    exact Tree.balanced_bind rfl found _
  rw [bound] at balanced ⊢
  rw [resolve_eq_of_acceptable h, ← balanced, claimed.length_eq, ← h.names_resolved built known,
    List.length_map]

/-- What the bytes of the initializer store, when the fields are declared. -/
theorem Tree.Bound.stores_initializer {t : Tree ε} {unit : Fingerprint} {init : Assembly}
    {later : Pool} (h : t.Bound lib W) (quiet : Expression.Quiet ε)
    (assembled : assemble .empty (t.initializer ⟨unit, t.fields⟩) = .ok init)
    (extended : init.emitter.pool.Extends later) :
    ∃ ops, init.emitter.chunk.operations? later = some ops ∧
      ops.filterMap (·.2.storedField?) = (t.declarations.map (·.1)).map (.ofField unit) := by
  obtain ⟨type, -, typed, -⟩ := h.root
  obtain ⟨ops, read, code⟩ := Option.map_eq_some_iff.mp (assemble_operations_snd assembled extended)
  refine ⟨ops, read, ?_⟩
  have declared := Tree.declares_fields h.nodup_names unit
  calc
    ops.filterMap (·.2.storedField?) = (ops.map Prod.snd).filterMap Operation.storedField? := by
      rw [List.filterMap_map]
      rfl
    _ = (t.body ⟨unit, t.fields⟩ ++ [Instruction.returnVoid]).filterMap
        Instruction.storedField? := by
      rw [code, Tree.instructions_initializer typed, List.filterMap_map]
      apply List.filterMap_congr
      intro i _
      exact i.storedField?_operation later.held
    _ = (t.declarations.map (·.1)).map (.ofField unit) := by
      rw [List.filterMap_append, h.stores_body quiet declared, CodeContext.fieldsOf, List.map_map]
      exact List.append_nil _

/-- What the bytes of the entry point are read as. -/
theorem operations_entryPoint {pool : Pool} {unit : Fingerprint} {name : String} {entry : Assembly}
    (assembled : assemble pool (entryPoint unit name) = .ok entry) :
    ∃ ops, entry.emitter.chunk.operations? entry.emitter.pool = some ops ∧
      ops.map (·.2) = [.call (.ofProcedure unit name) 0, .returnVoid] := by
  obtain ⟨ops, read, code⟩ :=
    Option.map_eq_some_iff.mp (assemble_operations_snd assembled (.refl _))
  exact ⟨ops, read, code⟩

/-- **Fields and stores agree.** When a tree of literals makes a unit, no name is declared twice;
the fields of the unit are strictly sorted by name, their names are those of the root, of the nested
nodes that are created and of the properties that are set, and they are as many as constructors and
setters were counted. The fields that the bytes of the initializer store to are those of the unit,
each of them once, and all that the entry point does is to call the initializer and to return. -/
theorem Context.fields_stored_once (ctx : Context) (source : Source LiteralExpr)
    (unit : CompiledUnit) (reports : List Diagnostic) (fresh : source.tree.IsFresh)
    (compiled : ctx.compile source = .ok ⟨some unit, reports⟩) :
    ((ctx.resolve source.tree).1.declarations.map (·.1)).Nodup ∧
    (unit.fields.map (·.name)).Pairwise (· < ·) ∧
    (unit.fields.map (·.name)).Perm (ctx.resolve source.tree).1.ownedNames ∧
    unit.fields.length =
      (ctx.binding source.tree).2.constructors + (ctx.binding source.tree).2.setters ∧
    ∃ init entry, unit.procedures = [init, entry] ∧
      init.name = ctx.options.initializerName ∧ entry.name = ctx.options.entryPointName ∧
      (∃ ops, init.code.operations? unit.constants = some ops ∧
        (ops.filterMap (·.2.storedField?)).Perm (unit.fields.map (·.fingerprint))) ∧
      ∃ ops, entry.code.operations? unit.constants = some ops ∧
        ops.map (·.2) = [.call init.fingerprint 0, .returnVoid] := by
  obtain ⟨silent, emitted⟩ := of_compile compiled
  have bound := Tree.bound_of_resolve fresh silent
  have counted := length_declarations (acceptable_of_resolve silent) fresh.wellFormed
  obtain ⟨init, entry, assembled, entered, procedures, constants, fields⟩ :=
    Tree.parts_of_emit emitted
  have keys := Tree.keys_fields_perm bound.nodup_names
  have names : unit.fields.map (·.name) = (ctx.resolve source.tree).1.fields.keys := by
    rw [fields, List.map_map, ← Std.TreeMap.map_fst_toList_eq_keys]
    rfl
  have fingerprints : unit.fields.map (·.fingerprint) =
      (ctx.resolve source.tree).1.fields.keys.map (.ofField unit.fingerprint) := by
    rw [fields, List.map_map, ← Std.TreeMap.map_fst_toList_eq_keys, List.map_map]
    rfl
  have extended : init.emitter.pool.Extends unit.constants := by
    obtain ⟨_, -, -, extended⟩ := Assembly.encoded_run entered
    rw [constants]
    exact extended
  refine ⟨bound.nodup_names, ?_, ?_, ?_, _, _, procedures, rfl, rfl, ?_, ?_⟩
  · rw [names]
    exact FieldTable.pairwise_keys _
  · rw [names]
    exact keys.trans bound.names_perm
  · rw [← counted, ← List.length_map (·.name), names, keys.length_eq, List.length_map]
  · obtain ⟨ops, read, stored⟩ := bound.stores_initializer LiteralExpr.quiet assembled extended
    refine ⟨ops, read, ?_⟩
    rw [stored, fingerprints]
    exact (keys.map _).symm
  · rw [constants]
    exact operations_entryPoint entered

namespace Sample

/-- The window has six fields. Its panel is handed out and has none; nor has the list of marks. -/
theorem fields_window :
    ∃ unit, context.compile source = .ok ⟨some unit, []⟩ ∧
      (unit.fields.map (·.name)).Pairwise (· < ·) ∧
      (unit.fields.map (·.name)).Perm
        ["window", "window$panel$button", "window$title", "window$width",
          "window$panel$button$text", "window$panel$button$icon"] ∧
      ∃ init entry, unit.procedures = [init, entry] ∧
        ∃ ops, init.code.operations? unit.constants = some ops ∧
          (ops.filterMap (·.2.storedField?)).Perm (unit.fields.map (·.fingerprint)) := by
  have owned : (context.resolve tree).1.ownedNames =
      ["window", "window$panel$button", "window$title", "window$width", "window$panel$button$text",
        "window$panel$button$icon"] := by
    decide +kernel
  obtain ⟨unit, compiled⟩ := exists_compile_source
  obtain ⟨-, sorted, names, -, init, entry, procedures, -, -, stores, -⟩ :=
    context.fields_stored_once source unit [] isFresh_tree compiled
  exact ⟨unit, compiled, sorted, owned ▸ names, init, entry, procedures, stores⟩

end Sample

end Componentry
