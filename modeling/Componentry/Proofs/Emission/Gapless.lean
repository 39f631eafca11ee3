import Componentry.Proofs.Emission.Totality

/-!
# Code without gaps

A procedure that could be assembled has no gap in its directives. This alone tells how a tree was
bound: each node has a type and a way to be obtained, each value is loaded and has a method to go
to. So what holds of all emitted code can be shown by recursion on the tree, with no word on how the
tree was resolved.

## Main results

* `Assembly.unfailing_of_run` — directives that were carried out have no gaps
* `PropertyInfo.of_unfailing_scalarCode`, `PropertyInfo.of_unfailing_listCode`,
  `NodeInfo.of_unfailing_enclose`, `NodeInfo.of_unfailing_obtain` — the pieces of code without gaps
-/

namespace Componentry

open Directive

@[simp] theorem Directive.unfailing_abort {failure : CompileError} {ds : List Directive} :
    ¬ Unfailing (abort failure :: ds) :=
  fun h => h failure List.mem_cons_self

/-- Directives that were carried out to the end have no gaps. -/
theorem Assembly.unfailing_of_run {ds : List Directive} {a b : Assembly} (h : a.run ds = .ok b) :
    Unfailing ds := by
  induction ds generalizing a with
  | nil => exact unfailing_nil
  | cons d ds ih =>
    rw [run] at h
    split at h
    · have rest := ih h
      cases d with
      | line _ | enter _ _ | leave _ | instruction _ => simpa using rest
      | abort failure =>
        rename_i stepped
        cases stepped
    · cases h

theorem CodeContext.of_unfailing_store {cx : CodeContext} {name : String} {ds : List Directive}
    (h : Unfailing (cx.store name :: ds)) : ∃ type, cx.fields[name]? = some type := by
  unfold store at h
  split at h
  · rename_i type declared
    exact ⟨type, declared⟩
  · simp at h

variable {ε : Type} [Expression ε] {cx : CodeContext} {slot : Nat} {slots : List Nat}

theorem Expression.of_unfailing_code {e : ε} {ds : List Directive}
    (h : Unfailing (Expression.code e ++ ds)) : ∃ i, Expression.load e = .ok i := by
  cases loaded : Expression.load e with
  | ok i => exact ⟨i, rfl⟩
  | error failure => simp [Expression.code, loaded] at h

namespace PropertyInfo

variable {info : PropertyInfo}

/-- A value in code without gaps has a setter, and is loaded and stored. -/
theorem of_unfailing_scalarCode {value : ε} (h : Unfailing (info.scalarCode cx slot value)) :
    ∃ method i type, info.binding = .setter method ∧ Expression.load value = .ok i ∧
      cx.fields[info.qualifiedName]? = some type := by
  unfold scalarCode at h
  split at h
  · rename_i method bound
    simp only [List.cons_append, List.append_assoc, unfailing_instruction] at h
    obtain ⟨i, loaded⟩ := Expression.of_unfailing_code h
    rw [unfailing_append, unfailing_instruction] at h
    obtain ⟨type, declared⟩ := CodeContext.of_unfailing_store h.2
    exact ⟨method, i, type, bound, loaded, declared⟩
  · simp at h
  · simp at h

theorem of_unfailing_itemsCode {items : List ε} {methods : List (Option Method)}
    (same : items.length = methods.length) (h : Unfailing (info.itemsCode slot items methods)) :
    ∃ adders : List Method, methods = adders.map some ∧
      List.Forall₂ (fun _ item => ∃ i, Expression.load item = .ok i) adders items := by
  induction items generalizing methods with
  | nil =>
    obtain rfl := List.length_eq_zero_iff.mp same.symm
    exact ⟨[], rfl, .nil⟩
  | cons item items ih =>
    match methods, same with
    | some method :: methods, same =>
      simp only [itemsCode, itemCode, unfailing_append, List.cons_append,
        unfailing_instruction] at h
      obtain ⟨i, loaded⟩ := Expression.of_unfailing_code (unfailing_append.mpr h.1)
      obtain ⟨adders, rfl, each⟩ := ih (Nat.succ.inj same) h.2
      exact ⟨method :: adders, rfl, .cons ⟨i, loaded⟩ each⟩
    | none :: methods, same => simp [itemsCode, itemCode] at h

/-- A list in code without gaps has an adder for each item, and its items are loaded. -/
theorem of_unfailing_listCode {items : List ε} (h : Unfailing (info.listCode slot items)) :
    ∃ adders : List Method, info.binding = .adders (adders.map some) ∧
      List.Forall₂ (fun _ item => ∃ i, Expression.load item = .ok i) adders items := by
  unfold listCode at h
  split at h
  · rename_i methods bound
    split at h
    · rename_i same
      obtain ⟨adders, rfl, each⟩ := of_unfailing_itemsCode same h
      exact ⟨adders, bound, each⟩
    · simp at h
  · simp at h
  · simp at h

end PropertyInfo

namespace NodeInfo

variable {node : NodeInfo}

/-- A node in code without gaps has a type. -/
theorem of_unfailing_enclose {body : List Directive} (h : Unfailing (node.enclose cx slots body)) :
    ∃ type, node.type = some type ∧ Unfailing (node.obtain cx slots) ∧ Unfailing body := by
  cases typed : node.type with
  | none => simp [enclose, typed] at h
  | some type =>
    rw [enclose_eq typed] at h
    simp only [List.cons_append, unfailing_enter, unfailing_line, unfailing_append] at h
    exact ⟨type, rfl, h.1.1, h.1.2⟩

/-- The ways in which a node is obtained by code without gaps: the root is created and then stored,
another node is stored as it is created, or is asked of its owner. -/
theorem of_unfailing_obtain (h : Unfailing (node.obtain cx slots)) :
    (∃ k type, node.binding = .constructor k ∧ node.parent = none ∧
      node.obtain cx slots = [.instruction (.new k), .instruction (.setLocal (slots.length - 1)),
        .instruction (.getLocal (slots.length - 1)),
        .instruction (cx.setField node.qualifiedName type)]) ∨
    (∃ k type parent, node.binding = .constructor k ∧ node.parent = some parent ∧
      node.obtain cx slots = [.instruction (.new k), .instruction .dup,
        .instruction (cx.setField node.qualifiedName type),
        .instruction (.setLocal (slots.length - 1))]) ∨
    ∃ m parent owner, node.binding = .getter m ∧ node.parent = some parent ∧
      slots.idxOf? parent = some owner ∧
      node.obtain cx slots = [.instruction (.getLocal owner), .instruction (.callMethod m),
        .instruction (.setLocal (slots.length - 1))] := by
  unfold NodeInfo.obtain at h ⊢
  split at h
  · rename_i k bound parent
    simp only [unfailing_instruction] at h
    obtain ⟨type, declared⟩ := CodeContext.of_unfailing_store h
    exact Or.inl ⟨k, type, bound, parent, by simp [CodeContext.store_eq declared]⟩
  · rename_i k parent bound inside
    simp only [unfailing_instruction] at h
    obtain ⟨type, declared⟩ := CodeContext.of_unfailing_store h
    refine Or.inr (Or.inl ⟨k, type, parent, bound, inside, ?_⟩)
    simp [CodeContext.store_eq declared]
  · rename_i m parent bound inside
    split at h
    · rename_i owner placed
      exact Or.inr (Or.inr ⟨m, parent, owner, bound, inside, placed, rfl⟩)
    · simp at h
  · simp at h
  · simp at h

end NodeInfo

end Componentry
