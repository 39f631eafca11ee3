import Componentry.Proofs.Emission.Layout
import Componentry.Proofs.Emission.Slots
import Componentry.Proofs.Resolution.Outline

/-!
# Where slots are in use

The initializer of a tree has a slot for each node, in pre-order, with the stretch of code in which
it is in use. These stretches are nested like the nodes, and every use of a slot stands in the
stretch of the slot.

## Main definitions

* `Assembly.LaysOut` — carrying out directives lays out the slots of nodes
* `Operation.SetOnce` — a slot is set once, and not read before
* `Procedure.FollowsTree` — the slots of a procedure are those of the nodes of a tree

## Main results

* `Tree.followsTree_of_layout` — a procedure follows a tree if its slots are laid out like the nodes
* `Property.laysOut_codeAll` — the code of properties lays out the slots of their nodes
* `Tree.followsTree_of_emit` — the slots of the initializer are those of the nodes of the tree
* `Context.local_ranges` — so they are for a tree of literals that was resolved
-/

namespace Componentry

open Directive

variable {ε : Type}

/-! ### Procedures that follow a tree -/

/-- The slot that an operation reads or sets. -/
def Operation.slot? : Operation → Option Nat
  | getLocal slot | setLocal slot => some slot
  | push _ | pushNull | pushBool _ | pop | dup | setStatic _ | call _ _ | callMethod _ _
  | new _ _ _ | .return | returnVoid => none

@[simp] theorem Instruction.slot?_operation (hold : Constant → Constant) (i : Instruction) :
    (i.operation hold).slot? = i.slot? := by
  cases i <;> rfl

theorem Instruction.operation_eq_setLocal {hold : Constant → Constant} {i : Instruction}
    {slot : Nat} (h : i.operation hold = .setLocal slot) : i = setLocal slot := by
  cases i with
  | setLocal other =>
    cases h
    rfl
  | load _ | pushInt _ | pushNull | pushBool _ | pop | dup | getLocal _ | setStatic _ _ | call _ _ _
  | callMethod _ | new _ | returnVoid => cases h

/-- The slot is set once, and not read before. -/
def Operation.SetOnce (ops : List (Nat × Operation)) (slot : Nat) : Prop :=
  ∃ before offset after, ops = before ++ (offset, setLocal slot) :: after ∧
    (∀ e ∈ before, e.2.slot? ≠ some slot) ∧ ∀ e ∈ after, e.2 ≠ setLocal slot

/-- The slots of a procedure, whose code is read as `ops`, are those of the nodes of a tree. -/
structure Procedure.FollowsTree (p : Procedure) (ops : List (Nat × Operation)) (t : Tree ε) :
    Prop where
  count : p.localCount = t.size
  numbered : p.locals.map (·.slot) = List.range t.size
  /-- Slots are given to nodes in pre-order. -/
  labelled : p.locals.map (fun range => (range.name, some range.type)) =
    t.nodes.map fun n => (n.info.name, n.info.type)
  /-- Stretches are not empty, and start and end where an instruction stands. -/
  boundaries : ∀ range ∈ p.locals, range.start < range.stop ∧ range.start ∈ ops.map (·.1) ∧
    range.stop ∈ ops.map (·.1)
  /-- The slot of the root is in use up to the return at the end. -/
  root : ∃ range, p.locals.head? = some range ∧ range.start = 0 ∧ range.stop + 1 = p.code.size ∧
    ops.getLast? = some (range.stop, .returnVoid)
  nested : ∀ e ∈ t.nodes.zip p.locals, Contains (t.nodes.zip p.locals) e.1 e.2
  /-- A slot is read and set only where it is in use. -/
  accesses : ∀ e ∈ ops, ∀ slot, e.2.slot? = some slot →
    ∃ range, p.locals[slot]? = some range ∧ range.start ≤ e.1 ∧ e.1 < range.stop
  settings : ∀ slot < t.size, Operation.SetOnce ops slot

/-- A procedure with a slot for each node, laid out in code that ends with a return, follows the
tree if its slots are set in order. -/
theorem Tree.followsTree_of_layout {t : Tree ε} {p : Procedure} {range : LocalRange}
    {spans : List (Node ε × LocalRange)} {placed : List (Nat × Instruction)}
    {hold : Constant → Constant} {ops : List (Nat × Operation)}
    (layout : Layout 0 0 0 range.stop [t.root] spans placed)
    (first : spans.head? = some (t.root, range)) (start : range.start = 0)
    (stop : range.stop + 1 = p.code.size) (nodes_eq : spans.map (·.1) = t.nodes)
    (locals_eq : spans.map (·.2) = p.locals) (counted : p.localCount = p.locals.length)
    (ops_eq : ops = (placed ++ [(range.stop, Instruction.returnVoid)]).map
      fun e => (e.1, e.2.operation hold))
    (settings : ∀ slot < t.size, Operation.SetOnce ops slot) : p.FollowsTree ops t := by
  have size_eq : spans.length = t.size := by
    rw [← t.length_nodes, ← nodes_eq, List.length_map]
  have head : p.locals.head? = some range := by
    rw [← locals_eq, List.head?_map, first]
    rfl
  have offset_mem : ∀ o i, (o, i) ∈ placed ++ [(range.stop, .returnVoid)] → o ∈ ops.map (·.1) := by
    intro o i member
    rw [ops_eq, List.map_map]
    exact List.mem_map.mpr ⟨(o, i), member, rfl⟩
  exact
    { count := by
        rw [counted, ← locals_eq, List.length_map, size_eq]
      numbered := by
        rw [← locals_eq, List.map_map, List.range_eq_range', ← size_eq]
        exact layout.numbered
      labelled := by
        rw [← locals_eq, ← nodes_eq, List.map_map, List.map_map]
        refine List.map_congr_left fun e member => ?_
        obtain ⟨name_eq, type_eq⟩ := layout.labelled e member
        exact Prod.ext name_eq type_eq.symm
      boundaries := by
        rw [← locals_eq, List.forall_mem_map]
        intro e member
        obtain ⟨i, stands⟩ := layout.starts e member
        refine ⟨(layout.bounds e member).2.1, offset_mem _ i (List.mem_append_left _ stands), ?_⟩
        -- A stretch that goes to the end of the code ends where the return stands.
        rcases layout.stops e member with last | ⟨j, next⟩
        · rw [last]
          exact offset_mem _ _ (List.mem_append_right _ (List.mem_singleton_self _))
        · exact offset_mem _ j (List.mem_append_left _ next)
      root := by
        refine ⟨range, head, start, stop, ?_⟩
        rw [ops_eq, List.map_append]
        exact List.getLast?_concat
      nested := by
        rw [← List.zip_of_prod nodes_eq locals_eq]
        exact layout.contains
      accesses := by
        intro e member slot used
        rw [ops_eq] at member
        obtain ⟨e, stands, rfl⟩ := List.mem_map.mp member
        rw [Instruction.slot?_operation] at used
        rcases List.mem_append.mp stands with stands | last
        · rcases layout.uses e stands slot used with rfl | ⟨u, inside, rfl, covered⟩
          · -- The slot of the root is in use everywhere.
            refine ⟨range, by rw [← List.head?_eq_getElem?, head], ?_⟩
            rw [start]
            exact layout.stretch.within e stands
          · exact ⟨u.2, locals_eq ▸ layout.getElem?_of_mem inside, covered⟩
        · obtain rfl := List.mem_singleton.mp last
          cases used
      settings }

/-! ### Carrying out directives -/

namespace Assembly

variable {a b c : Assembly} {ds es : List Directive} {slot : Nat}
  {outer outer' nodes nodes' : List (Node ε)}

/-- Carrying out directives brings the slots of the nodes into use and lays them out in the code. -/
def LaysOut (a b : Assembly) (ds : List Directive) (slot : Nat)
    (outer nodes : List (Node ε)) : Prop :=
  ∃ spans : List (Node ε × LocalRange), spans.map (·.1) = nodes ∧
    b.locals = a.locals ++ spans.map (·.2) ∧
    Layout slot a.locals.length a.emitter.offset b.emitter.offset outer spans (a.placed ds)

/-- Directives that say nothing of slots lay out none. -/
theorem laysOut_plain (h : a.run ds = .ok b) (plain : ∀ d ∈ ds, d.isPlain = true)
    (uses : ∀ i ∈ instructions ds, ∀ s, i.slot? = some s → s = slot) :
    a.LaysOut b ds slot ([] : List (Node ε)) [] := by
  refine ⟨[], rfl, ?_, ?_⟩
  · rw [locals_run h plain, List.map_nil, List.append_nil]
  · refine Layout.plain (stretch_run h) fun e member => uses e.2 ?_
    rw [← map_snd_placed h]
    exact List.mem_map_of_mem member

theorem LaysOut.append (run : a.run ds = .ok b) (h : a.LaysOut b ds slot outer nodes)
    (h' : b.LaysOut c es slot outer' nodes') :
    a.LaysOut c (ds ++ es) slot (outer ++ outer') (nodes ++ nodes') := by
  obtain ⟨spans, rfl, locals, layout⟩ := h
  obtain ⟨spans', rfl, locals', layout'⟩ := h'
  refine ⟨spans ++ spans', List.map_append, ?_, ?_⟩
  · rw [locals', locals, List.map_append, List.append_assoc]
  · rw [locals, List.length_append, List.length_map] at layout'
    rw [placed_append run]
    exact layout.append layout'

end Assembly

/-! ### Nodes -/

theorem modify_append_cons {α : Type} (f : α → α) (xs ys : List α) (x : α) :
    (xs ++ x :: ys).modify xs.length f = xs ++ f x :: ys := by
  induction xs with
  | nil => rfl
  | cons y xs ih => simpa using ih

namespace NodeInfo

variable {cx : CodeContext} {slots : List Nat} {node : NodeInfo}

theorem isPlain_obtain (h : Unfailing (node.obtain cx slots)) :
    ∀ d ∈ node.obtain cx slots, d.isPlain = true := by
  rcases of_unfailing_obtain h with ⟨_, _, -, -, code⟩ | ⟨_, _, _, -, -, code⟩ |
      ⟨_, _, _, -, -, -, code⟩
  all_goals simp [code, isPlain]

theorem instructions_obtain_ne_nil (h : Unfailing (node.obtain cx slots)) :
    instructions (node.obtain cx slots) ≠ [] := by
  rcases of_unfailing_obtain h with ⟨_, _, -, -, code⟩ | ⟨_, _, _, -, -, code⟩ |
      ⟨_, _, _, -, -, -, code⟩
  all_goals simp [code]

/-- The code that obtains a node uses the slot of its owner, if it has one, and its own. -/
theorem uses_obtain {slot : Nat} (h : Unfailing (node.obtain cx (slots ++ [node.index])))
    (owned : ∀ parent, node.parent = some parent → slots.idxOf? parent = some slot) :
    ∀ i ∈ instructions (node.obtain cx (slots ++ [node.index])),
      ∀ s, i.slot? = some s → s = slot ∨ s = slots.length := by
  rcases of_unfailing_obtain h with ⟨_, _, -, -, code⟩ | ⟨_, _, _, -, -, code⟩ |
    ⟨_, parent, owner, -, inside, found, code⟩
  · simp [code, Instruction.slot?, CodeContext.setField]
  · simp [code, Instruction.slot?, CodeContext.setField]
  · rw [idxOf?_append_of_eq_some (owned parent inside)] at found
    obtain rfl := Option.some.inj found
    simp [code, Instruction.slot?]

/-- A node whose properties are laid out is laid out around them: its own stretch is all of its
code. -/
theorem exists_layout_enclose {properties : List (Property ε)} {body : List Directive}
    {a b : Assembly} {slot : Nat} (h : a.run (node.enclose cx (slots ++ [node.index]) body) = .ok b)
    (counted : a.Counted) (count : a.locals.length = slots.length)
    (uses : ∀ i ∈ instructions (node.obtain cx (slots ++ [node.index])),
      ∀ s, i.slot? = some s → s = slot ∨ s = slots.length)
    (inner : ∀ c d : Assembly, c.Counted → c.locals.length = (slots ++ [node.index]).length →
      c.run body = .ok d → c.LaysOut d body slots.length (properties.filterMap Property.child?)
        (Property.nodesAll properties)) :
    ∃ (range : LocalRange) (spans : List (Node ε × LocalRange)),
      range.start = a.emitter.offset ∧ range.stop = b.emitter.offset ∧
      spans.map (·.1) = Property.nodesAll properties ∧
      b.locals = a.locals ++ range :: spans.map (·.2) ∧
      Layout slot a.locals.length a.emitter.offset b.emitter.offset [⟨node, properties⟩]
        ((⟨node, properties⟩, range) :: spans)
        (a.placed (node.enclose cx (slots ++ [node.index]) body)) := by
  obtain ⟨type, typed, obtained, -⟩ := of_unfailing_enclose (Assembly.unfailing_of_run h)
  rw [enclose_eq typed] at h ⊢
  obtain ⟨d, front, last⟩ := Assembly.of_run_append h
  obtain ⟨c, first, second⟩ := Assembly.of_run_append front
  obtain ⟨emitter, locals, number⟩ := a
  obtain rfl : number = locals.length := counted
  -- The slot comes into use before the node is obtained, and its stretch is not known to the end
  -- yet.
  let range : LocalRange := ⟨locals.length, node.name, type, emitter.offset, emitter.offset⟩
  let entered : Assembly :=
    ⟨emitter.setLine node.span.line, locals ++ [range], locals.length + 1⟩
  have got : entered.run (node.obtain cx (slots ++ [node.index])) = .ok c := first
  have kept : c.locals = locals ++ [range] := Assembly.locals_run got (isPlain_obtain obtained)
  have again : c.Counted := Assembly.Counted.run (by simp [Assembly.Counted, entered]) got
  obtain ⟨spans, nodes_eq, grown, layout⟩ := inner c d again (by simpa [kept] using count) second
  have placed : Assembly.placed ⟨emitter, locals, locals.length⟩
      (.enter node.name type :: .line node.span.line :: node.obtain cx (slots ++ [node.index]) ++
        body ++ [.leave ((slots ++ [node.index]).length - 1)]) =
      entered.placed (node.obtain cx (slots ++ [node.index])) ++ c.placed body := by
    rw [Assembly.placed_append front, Assembly.placed_append first]
    exact List.append_nil _
  have stretch : Stretch emitter.offset c.emitter.offset
      (entered.placed (node.obtain cx (slots ++ [node.index]))) := Assembly.stretch_run got
  have nonempty : emitter.offset < c.emitter.offset := by
    obtain ⟨i, member⟩ := List.exists_mem_of_ne_nil _ (instructions_obtain_ne_nil obtained)
    rw [← Assembly.map_snd_placed got] at member
    obtain ⟨e, found, -⟩ := List.mem_map.mp member
    exact stretch.lt_of_mem found
  cases last
  refine ⟨{ range with stop := d.emitter.offset }, spans, rfl, rfl, nodes_eq, ?_, ?_⟩
  · have here : (slots ++ [node.index]).length - 1 = locals.length := by simpa using count.symm
    rw [here, grown, kept, List.append_assoc, List.singleton_append, modify_append_cons]
  · rw [placed]
    rw [kept, List.length_append, List.length_singleton] at layout
    refine Layout.enclose typed stretch nonempty ?_ (count ▸ layout)
    intro e member s used
    rw [count]
    refine uses e.2 ?_ s used
    rw [← Assembly.map_snd_placed got]
    exact List.mem_map_of_mem member

end NodeInfo

/-! ### Properties -/

variable [Expression ε] {cx : CodeContext} {V : ε → Prop}

theorem Method.isPlain_callAndDrop (m : Method) : ∀ d ∈ m.callAndDrop, d.isPlain = true := by
  unfold callAndDrop
  split <;> simp [isPlain]

theorem Method.slot?_dropInstructions (m : Method) : ∀ i ∈ m.dropInstructions, i.slot? = none := by
  unfold dropInstructions
  split <;> simp [Instruction.slot?]

/-- Passing a value to a method of the object in a slot uses no other slot. -/
theorem Instruction.uses_pass {slot : Nat} {i : Instruction} {rest : List Instruction}
    (none : i.slot? = none) (others : ∀ j ∈ rest, j.slot? = .none) :
    ∀ j ∈ [getLocal slot, i] ++ rest, ∀ s, j.slot? = some s → s = slot := by
  intro j member s used
  simp only [List.cons_append, List.nil_append, List.mem_cons] at member
  rcases member with rfl | rfl | later
  · exact (Option.some.inj used).symm
  · rw [none] at used
    cases used
  · rw [others j later] at used
    cases used

namespace PropertyInfo

variable {info : PropertyInfo} {slot : Nat}

theorem isPlain_itemsCode {adders : List Method} {items : List ε}
    (each : List.Forall₂ (fun _ item => ∃ i, Expression.load item = .ok i) adders items) :
    ∀ d ∈ info.itemsCode slot items (adders.map some), d.isPlain = true := by
  induction each with
  | nil => simp [itemsCode]
  | cons head _ ih =>
    obtain ⟨i, loaded⟩ := head
    rw [List.map_cons, itemsCode, itemCode_eq loaded, List.forall_mem_append,
      List.forall_mem_append]
    exact ⟨⟨by simp [isPlain], Method.isPlain_callAndDrop _⟩, ih⟩

theorem uses_itemsCode (slotless : Expression.Slotless ε) {adders : List Method} {items : List ε}
    (each : List.Forall₂ (fun _ item => ∃ i, Expression.load item = .ok i) adders items) :
    ∀ i ∈ instructions (info.itemsCode slot items (adders.map some)),
      ∀ s, i.slot? = some s → s = slot := by
  induction each with
  | nil => simp [itemsCode]
  | @cons adder item _ _ head _ ih =>
    obtain ⟨i, loaded⟩ := head
    rw [List.map_cons, itemsCode, instructions_append, instructions_itemCode loaded,
      List.forall_mem_append]
    exact ⟨Instruction.uses_pass (slotless item i loaded) adder.slot?_dropInstructions, ih⟩

end PropertyInfo

namespace Property

mutual

theorem laysOut_code (slotless : Expression.Slotless ε) :
    ∀ {index slot : Nat} {slots : List Nat} {p : Property ε} {a b : Assembly}, p.Anchored V index →
      slots.idxOf? index = some slot → (slots ++ p.indices).Nodup → a.Counted →
      a.locals.length = slots.length →
      a.run (p.code cx slot slots) = .ok b →
      a.LaysOut b (p.code cx slot slots) slot p.child?.toList p.nodes
  | _, slot, slots, scalar info value, _, _, _, _, _, _, _, h => by
    have unfailing := Assembly.unfailing_of_run h
    rw [code, unfailing_line] at unfailing
    obtain ⟨m, i, type, bound, loaded, declared⟩ := PropertyInfo.of_unfailing_scalarCode unfailing
    refine Assembly.laysOut_plain h ?_ ?_
    · rw [code, PropertyInfo.scalarCode_eq bound loaded declared, List.forall_mem_cons,
        List.forall_mem_append]
      exact ⟨rfl, by simp [isPlain], m.isPlain_callAndDrop⟩
    · rw [code, instructions_line, PropertyInfo.instructions_scalarCode bound loaded declared]
      refine Instruction.uses_pass (slotless value i loaded) (List.forall_mem_append.mpr ⟨?_, ?_⟩)
      · simp [Instruction.slot?, CodeContext.setField]
      · exact m.slot?_dropInstructions
  | _, slot, slots, list info items, _, _, _, _, _, _, _, h => by
    have unfailing := Assembly.unfailing_of_run h
    rw [code, unfailing_line] at unfailing
    obtain ⟨adders, bound, each⟩ := PropertyInfo.of_unfailing_listCode unfailing
    have code_eq : (list info items).code cx slot slots =
        .line info.span.line :: info.itemsCode slot items (adders.map some) := by
      rw [code, PropertyInfo.listCode_eq bound each.length_eq]
    refine Assembly.laysOut_plain h ?_ ?_
    · rw [code_eq, List.forall_mem_cons]
      exact ⟨rfl, PropertyInfo.isPlain_itemsCode each⟩
    · rw [code_eq, instructions_line]
      exact PropertyInfo.uses_itemsCode slotless each
  | index, slot, slots, nested info node properties, a, b, ⟨_, parent, below⟩, placed,
    fresh, counted, count, h => by
    have unfailing := Assembly.unfailing_of_run h
    rw [code, unfailing_line] at unfailing
    obtain ⟨type, typed, obtained, -⟩ := NodeInfo.of_unfailing_enclose unfailing
    have owned : ∀ owner, node.parent = some owner → slots.idxOf? owner = some slot := by
      intro owner inside
      obtain rfl : index = owner := Option.some.inj (parent.symm.trans inside)
      exact placed
    rw [indices, ← List.singleton_append, ← List.append_assoc] at fresh
    -- The line of the property changes neither the code nor the slots.
    let lined : Assembly := { a with emitter := a.emitter.setLine info.span.line }
    have enclosed : lined.run (node.enclose cx (slots ++ [node.index])
        (codeAll cx slots.length (slots ++ [node.index]) properties)) = .ok b := h
    obtain ⟨range, spans, -, -, nodes_eq, locals, layout⟩ :=
      NodeInfo.exists_layout_enclose enclosed counted count (NodeInfo.uses_obtain obtained owned)
        fun c d again inside run =>
          laysOut_codeAll slotless below (idxOf?_append_self fresh) fresh again inside run
    refine ⟨(⟨node, properties⟩, range) :: spans, ?_, locals, layout⟩
    rw [List.map_cons, nodes_eq, nodes]
  | _, _, _, reference info _, _, _, _, _, _, _, _, h => by
    refine Assembly.laysOut_plain h ?_ ?_
    · simp [code, isPlain]
    · simp [code]

/-- The code of properties lays out the slots of their nodes. -/
theorem laysOut_codeAll (slotless : Expression.Slotless ε) :
    ∀ {index slot : Nat} {slots : List Nat} {ps : List (Property ε)} {a b : Assembly},
      AnchoredAll V index ps →
      slots.idxOf? index = some slot → (slots ++ indicesAll ps).Nodup → a.Counted →
      a.locals.length = slots.length →
      a.run (codeAll cx slot slots ps) = .ok b →
      a.LaysOut b (codeAll cx slot slots ps) slot (ps.filterMap child?) (nodesAll ps)
  | _, _, _, [], _, _, _, _, _, _, _, h => by
    refine Assembly.laysOut_plain h ?_ ?_
    · simp [codeAll]
    · simp [codeAll]
  | _, _, slots, p :: ps, a, c, ⟨head, tail⟩, placed, fresh, counted, count, h => by
    rw [codeAll] at h ⊢
    rw [indicesAll, ← List.append_assoc] at fresh
    obtain ⟨b, first, second⟩ := Assembly.of_run_append h
    have laid :=
      laysOut_code slotless head placed (List.nodup_append.mp fresh).1 counted count first
    have grown : b.locals.length = (slots ++ p.indices).length := by
      obtain ⟨spans, nodes_eq, locals, -⟩ := laid
      have size := congrArg List.length nodes_eq
      rw [List.length_map] at size
      rw [locals, List.length_append, List.length_map, size, count, List.length_append,
        ← map_index_nodes, List.length_map]
    have rest := laysOut_codeAll slotless tail (idxOf?_append_of_eq_some placed _) fresh
      (counted.run first) grown second
    have outer : (p :: ps).filterMap child? = p.child?.toList ++ ps.filterMap child? := by
      cases p <;> rfl
    rw [outer, nodesAll]
    exact laid.append first rest

end

end Property

/-! ### Trees -/

namespace Tree

variable {t : Tree ε} {pool : Pool} {a : Assembly}

/-- The initializer of a tree lays out the slots of its nodes, that of the root over all of the code
before the return at the end. -/
theorem exists_layout_initializer (slotless : Expression.Slotless ε) (built : t.WellFormed V)
    (assembled : assemble pool (t.initializer cx) = .ok a) :
    ∃ (range : LocalRange) (spans : List (Node ε × LocalRange)) (placed : List (Nat × Instruction)),
      spans.head? = some (t.root, range) ∧ range.start = 0 ∧ range.stop + 1 = a.emitter.chunk.size ∧
      spans.map (·.1) = t.nodes ∧ spans.map (·.2) = a.locals ∧
      Assembly.placed { emitter := .start pool } (t.initializer cx) =
        placed ++ [(range.stop, .returnVoid)] ∧
      Layout 0 0 0 range.stop [t.root] spans placed := by
  have unfailing := Assembly.unfailing_of_run assembled
  rw [initializer, List.cons_append, unfailing_line, unfailing_append] at unfailing
  obtain ⟨type, typed, obtained, -⟩ := NodeInfo.of_unfailing_enclose unfailing.1
  have owned : ∀ owner, t.root.info.parent = some owner →
      ([] : List Nat).idxOf? owner = some 0 := by
    intro owner inside
    rw [built.parent_root] at inside
    cases inside
  let lined : Assembly := { emitter := (Emitter.start pool).setLine t.root.info.span.line }
  let code := t.root.info.enclose cx ([] ++ [t.root.info.index])
    (Property.codeAll cx 0 [t.root.info.index] t.root.properties)
  have run : lined.run (code ++ [.instruction .returnVoid]) = .ok a := assembled
  obtain ⟨b, enclosed, last⟩ := Assembly.of_run_append run
  obtain ⟨range, below, start, stop, below_eq, locals, layout⟩ :=
    NodeInfo.exists_layout_enclose enclosed rfl rfl (NodeInfo.uses_obtain obtained owned)
      fun c d again inside run =>
        Property.laysOut_codeAll slotless built.anchored (idxOf?_singleton _) built.nodup_indices
          again inside run
  cases last
  refine ⟨range, (t.root, range) :: below, lined.placed code, rfl, start, ?_, ?_,
    locals.symm, ?_, ?_⟩
  · simp [stop, Emitter.offset, Emitter.write]
  · rw [List.map_cons, below_eq, nodes_eq, Node.nodes]
  · rw [stop]
    exact Assembly.placed_append enclosed
  · rw [stop]
    exact layout

/-- Each slot of the initializer is set once, and not read before. -/
theorem setOnce_initializer (slotless : Expression.Slotless ε) (built : t.WellFormed V)
    (assembled : assemble pool (t.initializer cx) = .ok a) (hold : Constant → Constant) {slot : Nat}
    (inside : slot < t.size) :
    Operation.SetOnce ((Assembly.placed { emitter := .start pool } (t.initializer cx)).map
      fun e => (e.1, e.2.operation hold)) slot := by
  have used := useSlots_initializer slotless built (Assembly.unfailing_of_run assembled)
  obtain ⟨before, after, split, unread, unset⟩ :=
    Instruction.exists_setLocal used (Nat.zero_le _) inside
  rw [← Assembly.map_snd_placed assembled, List.map_eq_append_iff] at split
  obtain ⟨first, rest, placed_eq, rfl, rest_eq⟩ := split
  obtain ⟨⟨offset, _⟩, last, rfl, rfl, rfl⟩ := List.map_eq_cons_iff.mp rest_eq
  refine ⟨first.map fun e => (e.1, e.2.operation hold), offset,
    last.map fun e => (e.1, e.2.operation hold), ?_, ?_, ?_⟩
  · exact (congrArg _ placed_eq).trans List.map_append
  · intro e member
    obtain ⟨e, found, rfl⟩ := List.mem_map.mp member
    rw [Instruction.slot?_operation]
    exact unread e.2 (List.mem_map_of_mem found)
  · intro e member set
    obtain ⟨e, found, rfl⟩ := List.mem_map.mp member
    exact unset (Instruction.operation_eq_setLocal set ▸ List.mem_map_of_mem found)

/-- The slots of the initializer of a unit are those of the nodes of the tree. -/
theorem followsTree_of_emit {options : Options} {name : String} {unit : CompiledUnit}
    (slotless : Expression.Slotless ε) (built : t.WellFormed V)
    (emitted : t.emit options name = .ok unit) :
    ∃ init ops, unit.procedure? options.initializerName = some init ∧
      init.code.operations? unit.constants = some ops ∧ init.FollowsTree ops t := by
  obtain ⟨init, assembled, found, extended, -⟩ := of_emit emitted
  obtain ⟨range, spans, placed, first, start, stop, nodes_eq, locals_eq, placed_eq, layout⟩ :=
    exists_layout_initializer slotless built assembled
  refine ⟨_, _, found, assemble_operations_placed assembled extended, ?_⟩
  have counted : init.Counted := Assembly.Counted.run (a := { emitter := .start _ }) rfl assembled
  refine followsTree_of_layout layout first start stop nodes_eq locals_eq counted
    (congrArg _ placed_eq) ?_
  intro slot inside
  exact setOnce_initializer slotless built assembled _ inside

end Tree

/-- **Local slots.** Let a tree of literals be resolved and a unit be made of it. The nodes of the
resolved tree are those of the given one, with the same names and numbers, which all differ. The
slots of the initializer are those of these nodes, in pre-order; each is in use in a stretch of
whole instructions, the stretches are nested like the nodes and in the order of their properties,
and each slot is set once, before it is read, and used only in its stretch. -/
theorem Context.local_ranges (ctx : Context) (options : Options) (name : String)
    (t : Tree LiteralExpr) (fresh : t.IsFresh) (unit : CompiledUnit)
    (emitted : (ctx.resolve t).1.emit options name = .ok unit) :
    (ctx.resolve t).1.nodes.map Node.label = t.nodes.map Node.label ∧ t.preorder.Nodup ∧
    ∃ init ops, unit.procedure? options.initializerName = some init ∧
      init.code.operations? unit.constants = some ops ∧ init.FollowsTree ops (ctx.resolve t).1 := by
  have built := fresh.wellFormed
  refine ⟨ctx.labels_resolve t, ?_, ?_⟩
  · rw [Tree.preorder_eq]
    exact built.nodup_indices
  · exact Tree.followsTree_of_emit LiteralExpr.slotless (built.resolve ctx) emitted

/-- The slots of the window of the sample. -/
theorem Sample.window_ranges :
    tree.IsFresh ∧ ∃ unit, (context.resolve tree).1.emit {} "Main" = .ok unit ∧
      ∃ init ops, unit.procedure? ({} : Options).initializerName = some init ∧
        init.code.operations? unit.constants = some ops ∧ init.localCount = tree.size ∧
        init.FollowsTree ops (context.resolve tree).1 := by
  obtain ⟨unit, compiled⟩ := exists_compile_source
  obtain ⟨-, emitted⟩ := Context.of_compile compiled
  obtain ⟨-, -, init, ops, found, read, follows⟩ :=
    context.local_ranges {} "Main" tree isFresh_tree unit emitted
  refine ⟨isFresh_tree, unit, emitted, init, ops, found, read, ?_, follows⟩
  rw [follows.count, Context.size_resolve]

end Componentry
