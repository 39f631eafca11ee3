import Componentry.Proofs.Emission.Gapless
import Componentry.Proofs.Tree.Building

/-!
# Slots come into use in order

The initializer of a tree sets its local slots in the order of their numbers, each once, and reads a
slot only after it was set.

## Main definitions

* `Instruction.slot?` — the slot that an instruction reads or sets
* `Instruction.useSlots` — the number of slots in use behind code that uses them in order

## Main results

* `Instruction.exists_setLocal` — such code sets each slot once, and before it reads it
* `Tree.useSlots_initializer` — the initializer of a tree uses a slot for each node in this way
-/

namespace Componentry

namespace Instruction

/-- The slot that an instruction reads or sets. -/
def slot? : Instruction → Option Nat
  | getLocal slot | setLocal slot => some slot
  | load _ | pushInt _ | pushNull | pushBool _ | pop | dup | setStatic _ _ | call _ _ _
  | callMethod _ | new _ | returnVoid => none

/-- The number of slots in use behind an instruction, when there are `n` before it: it may read any
of them and set the next one. -/
def slotsAfter (n : Nat) : Instruction → Option Nat
  | getLocal slot => if slot < n then some n else none
  | setLocal slot => if slot = n then some (n + 1) else none
  | load _ | pushInt _ | pushNull | pushBool _ | pop | dup | setStatic _ _ | call _ _ _
  | callMethod _ | new _ | returnVoid => some n

/-- The number of slots in use behind code that uses slots in order, when there are `n` before
it. -/
def useSlots (n : Nat) : List Instruction → Option Nat
  | [] => some n
  | i :: is => (i.slotsAfter n).bind fun m => useSlots m is

@[simp] theorem useSlots_nil (n : Nat) : useSlots n [] = some n := rfl

theorem useSlots_append (n : Nat) (is js : List Instruction) :
    useSlots n (is ++ js) = (useSlots n is).bind fun m => useSlots m js := by
  induction is generalizing n with
  | nil => rfl
  | cons i is ih =>
    simp only [List.cons_append, useSlots, Option.bind_assoc]
    exact congrArg _ (funext fun m => ih m)

/-- Code that is made of two parts uses slots in order if each part does. -/
theorem useSlots_append_of_eq {n m : Nat} {is js : List Instruction}
    (first : useSlots n is = some m) : useSlots n (is ++ js) = useSlots m js := by
  rw [useSlots_append, first, Option.bind_some]

theorem le_of_slotsAfter {n m : Nat} {i : Instruction} (h : i.slotsAfter n = some m) : n ≤ m := by
  cases i <;> simp only [slotsAfter, Option.ite_none_right_eq_some,
    Option.some.injEq] at h <;> omega

theorem le_of_useSlots {n m : Nat} {is : List Instruction} (h : useSlots n is = some m) :
    n ≤ m := by
  induction is generalizing n with
  | nil => exact Nat.le_of_eq (Option.some.inj h)
  | cons i is ih =>
    obtain ⟨k, stepped, rest⟩ := Option.bind_eq_some_iff.mp h
    exact Nat.le_trans (le_of_slotsAfter stepped) (ih rest)

theorem slot_lt_of_slotsAfter {n m slot : Nat} {i : Instruction} (h : i.slotsAfter n = some m)
    (uses : i.slot? = some slot) : slot < m := by
  cases i <;> simp only [slotsAfter, slot?, Option.ite_none_right_eq_some, Option.some.injEq,
    reduceCtorEq] at h uses <;> omega

/-- Slots in use before code that uses slots in order are not set by it. -/
theorem setLocal_notMem_of_useSlots {n m slot : Nat} {is : List Instruction}
    (h : useSlots n is = some m) (before : slot < n) : setLocal slot ∉ is := by
  induction is generalizing n with
  | nil => exact List.not_mem_nil
  | cons i is ih =>
    obtain ⟨k, stepped, rest⟩ := Option.bind_eq_some_iff.mp h
    rw [List.mem_cons, not_or]
    refine ⟨?_, ih rest (Nat.lt_of_lt_of_le before (le_of_slotsAfter stepped))⟩
    rintro rfl
    simp only [slotsAfter, Option.ite_none_right_eq_some] at stepped
    omega

/-- Code that uses slots in order sets each slot that comes into use once, and does not read it
before. -/
theorem exists_setLocal {n m slot : Nat} {is : List Instruction} (h : useSlots n is = some m)
    (first : n ≤ slot) (last : slot < m) :
    ∃ before after, is = before ++ setLocal slot :: after ∧ (∀ i ∈ before, i.slot? ≠ some slot) ∧
      setLocal slot ∉ after := by
  induction is generalizing n with
  | nil =>
    cases h
    omega
  | cons i is ih =>
    obtain ⟨k, stepped, rest⟩ := Option.bind_eq_some_iff.mp h
    by_cases set : i = setLocal slot
    · subst set
      refine ⟨[], is, rfl, by simp, setLocal_notMem_of_useSlots rest ?_⟩
      exact slot_lt_of_slotsAfter stepped rfl
    · -- The instruction uses a slot that is in use already, so the asked one is set further down.
      have later : k ≤ slot ∧ i.slot? ≠ some slot := by
        cases i <;> simp only [slotsAfter, slot?, Option.ite_none_right_eq_some,
          Option.some.injEq, ne_eq, setLocal.injEq, reduceCtorEq, not_false_eq_true,
          and_true] at stepped set ⊢ <;> omega
      obtain ⟨before, after, rfl, untouched, once⟩ := ih rest later.1
      refine ⟨i :: before, after, rfl, ?_, once⟩
      rw [List.forall_mem_cons]
      exact ⟨later.2, untouched⟩

end Instruction

open Directive Instruction

@[simp] theorem Method.useSlots_dropInstructions (m : Method) (n : Nat) :
    useSlots n m.dropInstructions = some n := by
  unfold dropInstructions
  split <;> rfl

variable {ε : Type} [Expression ε] {cx : CodeContext} {slot : Nat} {slots : List Nat}

/-- Loading a value uses no slot. -/
def Expression.Slotless (ε : Type) [Expression ε] : Prop :=
  ∀ (e : ε) (i : Instruction), Expression.load e = .ok i → i.slot? = none

theorem Instruction.slotsAfter_of_slot? {i : Instruction} (none : i.slot? = none) (n : Nat) :
    i.slotsAfter n = some n := by
  cases i with
  | getLocal _ | setLocal _ => cases none
  | load _ | pushInt _ | pushNull | pushBool _ | pop | dup | setStatic _ _ | call _ _ _
  | callMethod _ | new _ | returnVoid => rfl

theorem LiteralExpr.slotless : Expression.Slotless LiteralExpr := by
  intro e i loaded
  have pushes := isPush_of_load loaded
  cases i with
  | load _ | pushInt _ | pushNull | pushBool _ => rfl
  | pop | dup | getLocal _ | setLocal _ | setStatic _ _ | call _ _ _ | callMethod _ | new _
  | returnVoid =>
    cases pushes

/-- A value is passed to a method of the object in a slot that is in use. -/
theorem useSlots_load {i : Instruction} {n : Nat} (none : i.slot? = none) (inside : slot < n) :
    useSlots n [.getLocal slot, i] = some n := by
  have read : (getLocal slot).slotsAfter n = some n := if_pos inside
  simp [useSlots, read, slotsAfter_of_slot? none]

theorem PropertyInfo.useSlots_itemsCode {info : PropertyInfo} {n : Nat}
    (slotless : Expression.Slotless ε) (inside : slot < n) {adders : List Method} {items : List ε}
    (each : List.Forall₂ (fun _ item => ∃ i, Expression.load item = .ok i) adders items) :
    useSlots n (instructions (info.itemsCode slot items (adders.map some))) = some n := by
  induction each with
  | nil => rfl
  | cons head _ ih =>
    obtain ⟨i, loaded⟩ := head
    rw [List.map_cons, itemsCode, instructions_append, instructions_itemCode loaded,
      List.append_assoc, useSlots_append_of_eq (useSlots_load (slotless _ i loaded) inside),
      useSlots_append_of_eq (Method.useSlots_dropInstructions _ n), ih]

/-- A node inside a tree is put in the next slot; if it is handed out, its owner has one already. -/
theorem NodeInfo.useSlots_obtain {node : NodeInfo} {parent : Nat}
    (inside : node.parent = some parent) (placed : parent ∈ slots)
    (h : Unfailing (node.obtain cx (slots ++ [node.index]))) :
    useSlots slots.length (instructions (node.obtain cx (slots ++ [node.index]))) =
      some (slots.length + 1) := by
  rcases of_unfailing_obtain h with ⟨k, type, -, root, code⟩ | ⟨k, type, -, -, -, code⟩ |
    ⟨m, owner, index, -, owned, found, code⟩
  · rw [inside] at root
    cases root
  · simp [code, useSlots, slotsAfter, CodeContext.setField]
  · obtain rfl : parent = owner := Option.some.inj (inside.symm.trans owned)
    obtain ⟨place, found'⟩ := Option.isSome_iff_exists.mp (List.isSome_idxOf?.mpr placed)
    have early : place < slots.length := lt_length_of_idxOf? found'
    rw [idxOf?_append_of_eq_some found'] at found
    cases found
    simp [code, useSlots, slotsAfter, early]

namespace Property

variable {V : ε → Prop}

mutual

theorem useSlots_code (slotless : Expression.Slotless ε) :
    ∀ {index slot : Nat} {slots : List Nat} {p : Property ε}, p.Anchored V index → index ∈ slots →
      slot < slots.length → Unfailing (p.code cx slot slots) →
      useSlots slots.length (instructions (p.code cx slot slots)) =
        some (slots.length + p.indices.length)
  | _, _, _, scalar info value, _, _, inside, h => by
    rw [code, unfailing_line] at h
    obtain ⟨m, i, type, bound, loaded, declared⟩ := PropertyInfo.of_unfailing_scalarCode h
    rw [code, instructions_line, PropertyInfo.instructions_scalarCode bound loaded declared,
      useSlots_append_of_eq (useSlots_load (slotless value i loaded) inside)]
    exact m.useSlots_dropInstructions _
  | _, _, _, list info items, _, _, inside, h => by
    rw [code, unfailing_line] at h
    obtain ⟨adders, bound, each⟩ := PropertyInfo.of_unfailing_listCode h
    rw [code, instructions_line, PropertyInfo.listCode_eq bound each.length_eq]
    exact PropertyInfo.useSlots_itemsCode slotless inside each
  | _, _, slots, nested info node properties, ⟨_, parent, below⟩, placed, _, h => by
    rw [code, unfailing_line] at h
    obtain ⟨type, typed, obtained, rest⟩ := NodeInfo.of_unfailing_enclose h
    have body :=
      useSlots_codeAll slotless below (List.mem_append_right slots (List.mem_singleton_self _))
        (by simp) rest
    rw [instructions_nested typed,
      useSlots_append_of_eq (NodeInfo.useSlots_obtain parent placed obtained)]
    rw [List.length_append, List.length_singleton] at body
    rw [body, indices, List.length_cons]
    congr 1
    omega
  | _, _, _, reference _ _, _, _, _, _ => rfl

/-- The code of properties takes the next slots for their nodes, in order. -/
theorem useSlots_codeAll (slotless : Expression.Slotless ε) :
    ∀ {index slot : Nat} {slots : List Nat} {ps : List (Property ε)}, AnchoredAll V index ps →
      index ∈ slots → slot < slots.length → Unfailing (codeAll cx slot slots ps) →
      useSlots slots.length (instructions (codeAll cx slot slots ps)) =
        some (slots.length + (indicesAll ps).length)
  | _, _, _, [], _, _, _, _ => rfl
  | _, _, slots, p :: ps, ⟨head, tail⟩, placed, inside, h => by
    rw [codeAll, unfailing_append] at h
    have first := useSlots_code slotless head placed inside h.1
    have rest := useSlots_codeAll slotless tail (List.mem_append_left p.indices placed)
      (Nat.lt_of_lt_of_le inside (by simp)) h.2
    rw [List.length_append] at rest
    rw [codeAll, instructions_append, useSlots_append_of_eq first, rest, indicesAll,
      List.length_append, Nat.add_assoc]

end

end Property

/-- The initializer of a tree uses a slot for each node, in order. -/
theorem Tree.useSlots_initializer {V : ε → Prop} {t : Tree ε} (slotless : Expression.Slotless ε)
    (built : t.WellFormed V) (h : Unfailing (t.initializer cx)) :
    useSlots 0 (instructions (t.initializer cx)) = some t.size := by
  rw [initializer, List.cons_append, unfailing_line, unfailing_append] at h
  obtain ⟨type, typed, obtained, below⟩ := NodeInfo.of_unfailing_enclose h.1
  have root : useSlots 0 (instructions (t.root.info.obtain cx [t.root.info.index])) = some 1 := by
    rcases NodeInfo.of_unfailing_obtain obtained with ⟨k, type, -, -, code⟩ |
        ⟨k, type, parent, -, owned, -⟩ |
      ⟨m, parent, owner, -, owned, -⟩
    · simp [code, useSlots, slotsAfter, CodeContext.setField]
    · rw [built.parent_root] at owned
      cases owned
    · rw [built.parent_root] at owned
      cases owned
  have body :=
    Property.useSlots_codeAll slotless built.anchored (List.mem_singleton_self _) Nat.one_pos below
  rw [List.length_singleton] at body
  rw [instructions_initializer typed, Tree.body, List.append_assoc, useSlots_append_of_eq root,
    useSlots_append_of_eq body, size, Node.indices, List.length_cons, Nat.add_comm]
  rfl

end Componentry
