import Componentry.Proofs.Emission.Code

/-!
# Slots of the initializer

Local slots come into use in the order of the directives, and stay in use under their names and
types. The initializer of a bound tree has a slot for each node, in pre-order.

## Main definitions

* `Directive.entries` — the slots that directives bring into use
* `Assembly.Counted` — as many slots have been counted as have come into use

## Main results

* `Assembly.slots_run` — the slots of a procedure are those of its directives
* `Assembly.Counted.run` — carrying out directives keeps count of the slots
* `Tree.Bound.locals_of_assemble` — the slots of the initializer are the nodes of the tree
-/

namespace Componentry

namespace Directive

/-- The slot that a directive brings into use, by name and type. -/
def entered? : Directive → Option (String × StaticType)
  | enter name type => some (name, type)
  | line _ | instruction _ | leave _ | abort _ => none

/-- The slots that directives bring into use, in order. -/
def entries (ds : List Directive) : List (String × StaticType) := ds.filterMap entered?

@[simp] theorem entries_nil : entries [] = [] := rfl

@[simp] theorem entries_line (n : Nat) (ds : List Directive) :
    entries (line n :: ds) = entries ds := rfl

@[simp] theorem entries_instruction (i : Instruction) (ds : List Directive) :
    entries (instruction i :: ds) = entries ds := rfl

@[simp] theorem entries_enter (name : String) (type : StaticType) (ds : List Directive) :
    entries (enter name type :: ds) = (name, type) :: entries ds := rfl

@[simp] theorem entries_leave (slot : Nat) (ds : List Directive) :
    entries (leave slot :: ds) = entries ds := rfl

@[simp] theorem entries_abort (failure : CompileError) (ds : List Directive) :
    entries (abort failure :: ds) = entries ds := rfl

@[simp] theorem entries_append (ds es : List Directive) :
    entries (ds ++ es) = entries ds ++ entries es :=
  List.filterMap_append

end Directive

namespace Assembly

/-- The names and types of the slots in use. -/
def slots (a : Assembly) : List (String × StaticType) :=
  a.locals.map fun range => (range.name, range.type)

theorem slots_step {a b : Assembly} {d : Directive} (h : a.step d = .ok b) :
    b.slots = a.slots ++ Directive.entries [d] := by
  cases d with
  | line n =>
    cases h
    exact (List.append_nil _).symm
  | instruction i =>
    simp only [step] at h
    split at h
    · cases h
      exact (List.append_nil _).symm
    · cases h
  | enter name type =>
    cases h
    simp [slots, Directive.entries, Directive.entered?]
  | leave slot =>
    cases h
    -- Only where the use of a slot ends is changed.
    refine Eq.trans ?_ (List.append_nil _).symm
    refine List.ext_getElem? fun j => ?_
    simp only [slots, List.getElem?_map, List.getElem?_modify]
    cases a.locals[j]? with
    | none => rfl
    | some range =>
      simp only [Option.map_some]
      split <;> rfl
  | abort failure => cases h

/-- Slots come into use in the order of the directives. -/
theorem slots_run {ds : List Directive} {a b : Assembly} (h : a.run ds = .ok b) :
    b.slots = a.slots ++ Directive.entries ds := by
  induction ds generalizing a with
  | nil =>
    cases h
    exact (List.append_nil _).symm
  | cons d ds ih =>
    rw [run] at h
    split at h
    · rename_i next stepped
      rw [ih h, slots_step stepped, List.append_assoc, ← Directive.entries_append]
      rfl
    · cases h

/-- As many slots have been counted as have come into use. -/
def Counted (a : Assembly) : Prop := a.slotCount = a.locals.length

theorem Counted.step {a b : Assembly} {d : Directive} (counted : a.Counted) (h : a.step d = .ok b) :
    b.Counted := by
  cases d with
  | line n =>
    cases h
    exact counted
  | instruction i =>
    simp only [Assembly.step] at h
    split at h
    · cases h
      exact counted
    · cases h
  | enter name type =>
    cases h
    simpa [Counted] using counted
  | leave slot =>
    cases h
    simpa [Counted] using counted
  | abort failure => cases h

/-- Carrying out directives keeps count of the slots. -/
theorem Counted.run {ds : List Directive} {a b : Assembly} (counted : a.Counted)
    (h : a.run ds = .ok b) : b.Counted := by
  induction ds generalizing a with
  | nil =>
    cases h
    exact counted
  | cons d ds ih =>
    rw [Assembly.run] at h
    split at h
    · rename_i next stepped
      exact ih (counted.step stepped) h
    · cases h

end Assembly

@[simp] theorem CodeContext.entries_store (cx : CodeContext) (name : String) (ds : List Directive) :
    Directive.entries (cx.store name :: ds) = Directive.entries ds := by
  unfold store
  split <;> rfl

@[simp] theorem Method.entries_callAndDrop (m : Method) : Directive.entries m.callAndDrop = [] := by
  unfold callAndDrop
  split <;> rfl

theorem NodeInfo.entries_obtain (cx : CodeContext) (slots : List Nat) (node : NodeInfo) :
    Directive.entries (node.obtain cx slots) = [] := by
  unfold NodeInfo.obtain
  split
  · simp
  · simp
  · split <;> rfl
  · rfl
  · rfl

variable {ε : Type} [Expression ε] {cx : CodeContext}

@[simp] theorem Expression.entries_code (e : ε) : Directive.entries (Expression.code e) = [] := by
  unfold Expression.code
  split <;> rfl

namespace PropertyInfo

theorem entries_scalarCode (cx : CodeContext) (slot : Nat) (info : PropertyInfo) (value : ε) :
    Directive.entries (info.scalarCode cx slot value) = [] := by
  unfold scalarCode
  split <;> simp

theorem entries_itemsCode (slot : Nat) (info : PropertyInfo) (items : List ε)
    (methods : List (Option Method)) :
    Directive.entries (info.itemsCode slot items methods) = [] := by
  induction items generalizing methods with
  | nil => rfl
  | cons item items ih =>
    match methods with
    | [] => rfl
    | some m :: methods => simp [itemsCode, itemCode, ih]
    | none :: methods => simp [itemsCode, itemCode, ih]

theorem entries_listCode (slot : Nat) (info : PropertyInfo) (items : List ε) :
    Directive.entries (info.listCode slot items) = [] := by
  unfold listCode
  split
  · split
    · exact entries_itemsCode slot info items _
    · rfl
  · rfl
  · rfl

end PropertyInfo

variable {lib : Library} {W : ε → Prop}

namespace Property

mutual

theorem entries_code :
    ∀ {owner : StaticType} {index slot : Nat} {slots : List Nat} {p : Property ε},
    p.Bound lib W index owner →
    (Directive.entries (p.code cx slot slots)).map (fun (name, type) => (name, some type)) =
      p.nodes.map fun n => (n.info.name, n.info.type)
  | _, _, _, _, scalar info value, _ => by simp [code, PropertyInfo.entries_scalarCode, nodes]
  | _, _, _, _, list info items, _ => by simp [code, PropertyInfo.entries_listCode, nodes]
  | _, _, _, _, nested info node properties, ⟨_, _, type, typed, _, below⟩ => by
    simp [code, NodeInfo.enclose_eq typed, NodeInfo.entries_obtain, nodes, typed,
      entries_codeAll below]
  | _, _, _, _, reference _ _, _ => rfl

/-- The code of bound properties brings a slot into use for each node, in pre-order. -/
theorem entries_codeAll :
    ∀ {owner : StaticType} {index slot : Nat} {slots : List Nat} {ps : List (Property ε)},
    BoundAll lib W index owner ps →
    (Directive.entries (codeAll cx slot slots ps)).map (fun (name, type) => (name, some type)) =
      (nodesAll ps).map fun n => (n.info.name, n.info.type)
  | _, _, _, _, [], _ => rfl
  | _, _, _, _, p :: ps, ⟨head, tail⟩ => by
    simp [codeAll, nodesAll, entries_code head, entries_codeAll tail]

end

end Property

/-- The initializer of a bound tree brings a slot into use for each node, in pre-order. -/
theorem Tree.Bound.entries_initializer {t : Tree ε} (h : t.Bound lib W) :
    (Directive.entries (t.initializer cx)).map (fun (name, type) => (name, some type)) =
      t.nodes.map fun n => (n.info.name, n.info.type) := by
  obtain ⟨type, constructor, typed, -, -, below⟩ := h.root
  simp [initializer, NodeInfo.enclose_eq typed, NodeInfo.entries_obtain, nodes_eq,
    Node.nodes, typed, Property.entries_codeAll below]

/-- The slots of the initializer of a bound tree are its nodes, in pre-order. -/
theorem Tree.Bound.locals_of_assemble {t : Tree ε} (h : t.Bound lib W) {pool : Pool} {a : Assembly}
    (assembled : assemble pool (t.initializer cx) = .ok a) :
    a.locals.map (fun range => (range.name, some range.type)) =
      t.nodes.map fun n => (n.info.name, n.info.type) := by
  have slots : a.slots = Directive.entries (t.initializer cx) := Assembly.slots_run assembled
  rw [← h.entries_initializer, ← slots, Assembly.slots, List.map_map]
  rfl

end Componentry
