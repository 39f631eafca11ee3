import Componentry.Tree.Binding

/-!
# Unobstructed bindings

Each function that binds one property or node either goes through, and then its outcome is given
outright, or leaves a report or an ambiguous lookup behind. A state is *clean* if there is neither;
it stays unclean once it is, so a visit that ends clean went through at every step.

## Main definitions

* `BindingState.Clean` — nothing was reported and no lookup was ambiguous
* `Library.setterBinding`, `Library.nodeBinding` — how a property or node is bound
* `Library.adapted` — a value where it is passed

## Main results

* `BindingState.bindScalar_eq` and its siblings — the outcome of a step that goes through
* `BindingState.clean_bindScalar` and its siblings — a clean outcome means that the step went
  through
* `Tree.bind_onTop` — whatever happens, binding neither reads nor changes earlier reports
-/

namespace Componentry

namespace Library

variable (lib : Library) {ε : Type} [Expression ε]

/-- The owner hands out an object that may be used as one of the given type. -/
def handsOut (owner : StaticType) (key : String) (type : StaticType) : Bool :=
  match lib.resolveMethod owner (Naming.getter key) [] with
  | .ok method => method.returnsValue && lib.isAssignable method.result type
  | .error _ => false

/-- A value where it is passed to the named method of the owner. -/
def adapted (owner : StaticType) (name : String) (e : ε) : ε :=
  match lib.resolveMethod owner name [Expression.type e] with
  | .ok method => method.adaptArgument e
  | .error _ => e

/-- The binding of a property with a single value. -/
def setterBinding (owner : StaticType) (key : String) (e : ε) : PropertyBinding :=
  match lib.resolveMethod owner (Naming.setter key) [Expression.type e] with
  | .ok method => .setter method
  | .error _ => .unbound

/-- The methods that accept the items of a list. -/
def itemMethods (owner : StaticType) (key : String) (items : List ε) : List (Option Method) :=
  items.map fun e => (lib.resolveMethod owner (Naming.adder key) [Expression.type e]).toOption

/-- The binding of a node that can only be created. -/
def constructedBinding (type : StaticType) : NodeBinding :=
  match lib.defaultConstructor type with
  | some constructor => .constructor constructor
  | none => .unbound

/-- The binding of the node in a property: a getter of the owner, or else its constructor. -/
def nodeBinding (owner : StaticType) (key : String) (type : StaticType) : NodeBinding :=
  match lib.lookupGetter owner key type with
  | .ok (some method) => .getter method
  | .ok none | .error _ => lib.constructedBinding type

variable {lib}

theorem lookup_eq_of_ok {owner : StaticType} {name : String} {args : List StaticType}
    {method : Method} (found : lib.resolveMethod owner name args = .ok method) :
    lib.lookup owner name args = .ok (some method) := by
  simp [lookup, found]

theorem resolveMethod_of_lookup {owner : StaticType} {name : String} {args : List StaticType}
    {method : Method} (found : lib.lookup owner name args = .ok (some method)) :
    lib.resolveMethod owner name args = .ok method := by
  unfold lookup at found
  split at found
  · rename_i m h
    cases found
    exact h
  · split at found <;> cases found

/-- The three answers to the question for a getter. -/
theorem lookupGetter_cases (owner : StaticType) (key : String) (type : StaticType) :
    (∃ method, lib.lookupGetter owner key type = .ok (some method) ∧
      lib.resolveMethod owner (Naming.getter key) [] = .ok method ∧
      method.returnsValue = true ∧ lib.isAssignable method.result type = true) ∨
    (lib.lookupGetter owner key type = .ok none ∧ lib.handsOut owner key type = false ∧
      ∀ error, lib.resolveMethod owner (Naming.getter key) [] = .error error →
        error.isNotFound = true) ∨
    ∃ error, lib.lookupGetter owner key type = .error error ∧
      lib.resolveMethod owner (Naming.getter key) [] = .error error ∧ error.isNotFound = false := by
  cases found : lib.resolveMethod owner (Naming.getter key) [] with
  | ok method =>
    by_cases fit : method.returnsValue && lib.isAssignable method.result type
    · refine Or.inl ⟨method, ?_, rfl, (Bool.and_eq_true _ _).mp fit⟩
      simp [lookupGetter, lookup_eq_of_ok found, Except.map, fit]
    · refine Or.inr (Or.inl ⟨?_, ?_, ?_⟩)
      · simpa [lookupGetter, lookup_eq_of_ok found, Except.map] using fit
      · simpa [handsOut, found] using fit
      · intro error impossible
        cases impossible
  | error error =>
    by_cases missing : error.isNotFound = true
    · refine Or.inr (Or.inl ⟨?_, ?_, ?_⟩)
      · simp [lookupGetter, lookup, found, missing, Except.map]
      · simp [handsOut, found]
      · intro other same
        cases same
        exact missing
    · refine Or.inr (Or.inr ⟨error, ?_, rfl, by simpa using missing⟩)
      simp [lookupGetter, lookup, found, missing, Except.map]

end Library

namespace BindingState

/-- Nothing was reported, and no lookup was ambiguous. -/
structure Clean (s : BindingState) : Prop where
  diagnostics : s.diagnostics = []
  failure : s.failure = none

theorem not_clean_report (s : BindingState) (span : Span) (problem : Problem) :
    ¬ (s.report span problem).Clean := by
  rintro ⟨diagnostics, -⟩
  simp [report] at diagnostics

theorem not_clean_fail (s : BindingState) (error : LookupError) : ¬ (s.fail error).Clean := by
  rintro ⟨-, failure⟩
  simp [fail] at failure

theorem claim_of_notMem {s : BindingState} {name : String} (free : name ∉ s.claimed) (span : Span) :
    s.claim name span = (true, { s with claimed := name :: s.claimed }) :=
  if_neg free

theorem claim_of_mem {s : BindingState} {name : String} (taken : name ∈ s.claimed) (span : Span) :
    s.claim name span = (false, s.report span (.duplicateField name)) :=
  if_pos taken

variable {lib : Library} {owner : StaticType} {ε : Type} [Expression ε]

/-! ### Values -/

theorem bindScalar_eq {info : PropertyInfo} {value : ε} {s : BindingState} {method : Method}
    (found : lib.resolveMethod owner (Naming.setter info.key) [Expression.type value] = .ok method)
    (free : info.qualifiedName ∉ s.claimed) :
    s.bindScalar lib owner info value =
      ({ info with binding := lib.setterBinding owner info.key value },
        lib.adapted owner (Naming.setter info.key) value,
        { s with claimed := info.qualifiedName :: s.claimed, setters := s.setters + 1 }) := by
  simp [bindScalar, Library.lookup_eq_of_ok found, claim_of_notMem free, Library.setterBinding,
    Library.adapted, found]

theorem clean_bindScalar {info : PropertyInfo} {value : ε} {s : BindingState}
    (clean : (s.bindScalar lib owner info value).2.2.Clean) :
    s.Clean ∧ info.qualifiedName ∉ s.claimed ∧
      ∃ method, lib.resolveMethod owner (Naming.setter info.key) [Expression.type value] =
        .ok method := by
  unfold bindScalar at clean
  split at clean
  · exact absurd clean (not_clean_fail s _)
  · exact absurd clean (not_clean_report s _ _)
  · rename_i method found
    by_cases taken : info.qualifiedName ∈ s.claimed
    · rw [claim_of_mem taken] at clean
      exact absurd clean (not_clean_report s _ _)
    · rw [claim_of_notMem taken] at clean
      exact ⟨⟨clean.diagnostics, clean.failure⟩, taken, method,
        Library.resolveMethod_of_lookup found⟩

theorem bindItems_eq {key : String} {items : List ε} {s : BindingState}
    (found : ∀ e ∈ items, ∃ method,
      lib.resolveMethod owner (Naming.adder key) [Expression.type e] = .ok method) :
    bindItems lib owner key items s =
      (items.map (lib.adapted owner (Naming.adder key)), lib.itemMethods owner key items,
        { s with adders := s.adders + items.length }) := by
  induction items generalizing s with
  | nil => rfl
  | cons e rest ih =>
    obtain ⟨method, head⟩ := found e List.mem_cons_self
    have tail := @ih { s with adders := s.adders + 1 } fun other member =>
      found other (List.mem_cons_of_mem e member)
    simp only [bindItems, Library.lookup_eq_of_ok head, tail]
    simp [Library.adapted, Library.itemMethods, head, Except.toOption]
    omega

theorem clean_bindItems {key : String} {items : List ε} {s : BindingState}
    (clean : (bindItems lib owner key items s).2.2.Clean) :
    s.Clean ∧ ∀ e ∈ items, ∃ method,
      lib.resolveMethod owner (Naming.adder key) [Expression.type e] = .ok method := by
  induction items generalizing s with
  | nil => exact ⟨clean, by simp⟩
  | cons e rest ih =>
    unfold bindItems at clean
    split at clean
    · exact absurd clean (not_clean_fail s _)
    -- The visit goes on after a report, and what follows cannot end clean.
    · exact absurd (ih clean).1 (not_clean_report s _ _)
    · rename_i method found
      obtain ⟨before, tail⟩ := ih clean
      refine ⟨⟨before.diagnostics, before.failure⟩, ?_⟩
      intro other member
      rcases List.mem_cons.mp member with rfl | member
      · exact ⟨method, Library.resolveMethod_of_lookup found⟩
      · exact tail other member

theorem bindList_eq {info : PropertyInfo} {items : List ε} {s : BindingState} (clean : s.Clean)
    (found : ∀ e ∈ items, ∃ method,
      lib.resolveMethod owner (Naming.adder info.key) [Expression.type e] = .ok method) :
    s.bindList lib owner info items =
      ({ info with binding := .adders (lib.itemMethods owner info.key items) },
        items.map (lib.adapted owner (Naming.adder info.key)),
        { s with adders := s.adders + items.length }) := by
  simp only [bindList, bindItems_eq found, clean.failure]

theorem snd_bindList (info : PropertyInfo) (items : List ε) (s : BindingState) :
    (s.bindList lib owner info items).2.2 = (bindItems lib owner info.key items s).2.2 := by
  simp only [bindList]
  split <;> rfl

theorem clean_bindList {info : PropertyInfo} {items : List ε} {s : BindingState}
    (clean : (s.bindList lib owner info items).2.2.Clean) :
    s.Clean ∧ ∀ e ∈ items, ∃ method,
      lib.resolveMethod owner (Naming.adder info.key) [Expression.type e] = .ok method := by
  rw [snd_bindList] at clean
  exact clean_bindItems clean

/-! ### Nodes -/

theorem bindConstructed_eq {type : StaticType} {node : NodeInfo} {s : BindingState}
    {constructor : Constructor} (found : lib.defaultConstructor type = some constructor)
    (free : node.qualifiedName ∉ s.claimed) :
    s.bindConstructed lib type node =
      ({ node with binding := lib.constructedBinding type },
        { s with
          claimed := node.qualifiedName :: s.claimed, constructors := s.constructors + 1 }) := by
  simp [bindConstructed, found, claim_of_notMem free, Library.constructedBinding]

theorem clean_bindConstructed {type : StaticType} {node : NodeInfo} {s : BindingState}
    (clean : (s.bindConstructed lib type node).2.Clean) :
    s.Clean ∧ node.qualifiedName ∉ s.claimed ∧
      ∃ constructor, lib.defaultConstructor type = some constructor := by
  unfold bindConstructed at clean
  split at clean
  · exact absurd clean (not_clean_report s _ _)
  · rename_i constructor found
    by_cases taken : node.qualifiedName ∈ s.claimed
    · rw [claim_of_mem taken] at clean
      exact absurd clean (not_clean_report s _ _)
    · rw [claim_of_notMem taken] at clean
      exact ⟨⟨clean.diagnostics, clean.failure⟩, taken, constructor, found⟩

/-- A node that the owner hands out is bound to a getter, and claims nothing. -/
theorem bindNode_of_handsOut {key : String} {type : StaticType} {node : NodeInfo} {s : BindingState}
    (typed : node.type = some type) (handed : lib.handsOut owner key type = true) :
    s.bindNode lib owner key node =
      ({ node with binding := lib.nodeBinding owner key type },
        { s with getters := s.getters + 1 }) := by
  rcases lib.lookupGetter_cases owner key type with ⟨method, found, -⟩ | ⟨-, no, -⟩ | ⟨_, _, no, -⟩
  · simp [bindNode, typed, found, Library.nodeBinding]
  · rw [no] at handed
    cases handed
  · simp [Library.handsOut, no] at handed

/-- A node that the owner does not hand out is created, and claims its name. -/
theorem bindNode_of_not_handsOut {key : String} {type : StaticType} {node : NodeInfo}
    {s : BindingState} {constructor : Constructor} (typed : node.type = some type)
    (unambiguous : ∀ error, lib.resolveMethod owner (Naming.getter key) [] = .error error →
      error.isNotFound = true)
    (kept : lib.handsOut owner key type = false)
    (found : lib.defaultConstructor type = some constructor)
    (free : node.qualifiedName ∉ s.claimed) :
    s.bindNode lib owner key node =
      ({ node with binding := lib.nodeBinding owner key type },
        { s with
          claimed := node.qualifiedName :: s.claimed, constructors := s.constructors + 1 }) := by
  rcases lib.lookupGetter_cases owner key type with ⟨method, _, hit, fit⟩ | ⟨none, -⟩ |
      ⟨error, _, failed, no⟩
  · simp [Library.handsOut, hit, fit] at kept
  · simp [bindNode, typed, none, Library.nodeBinding, bindConstructed_eq found free]
  · rw [unambiguous error failed] at no
    cases no

theorem clean_bindNode {key : String} {type : StaticType} {node : NodeInfo} {s : BindingState}
    (typed : node.type = some type) (clean : (s.bindNode lib owner key node).2.Clean) :
    s.Clean ∧
      (∀ error, lib.resolveMethod owner (Naming.getter key) [] = .error error →
        error.isNotFound = true) ∧
      (lib.handsOut owner key type = false → node.qualifiedName ∉ s.claimed ∧
        ∃ constructor, lib.defaultConstructor type = some constructor) := by
  simp only [bindNode, typed] at clean
  rcases lib.lookupGetter_cases owner key type with ⟨method, found, hit, fit⟩ | ⟨none, -, missing⟩ |
    ⟨error, failed, -⟩
  · rw [found] at clean
    refine ⟨⟨clean.diagnostics, clean.failure⟩, ?_, ?_⟩
    · intro error impossible
      rw [hit] at impossible
      cases impossible
    · intro kept
      simp [Library.handsOut, hit, fit] at kept
  · rw [none] at clean
    obtain ⟨before, free, found⟩ := clean_bindConstructed clean
    exact ⟨before, missing, fun _ => ⟨free, found⟩⟩
  · rw [failed] at clean
    exact absurd clean (not_clean_fail s error)

theorem bindRoot_eq {type : StaticType} {node : NodeInfo} {s : BindingState}
    {constructor : Constructor} (typed : node.type = some type)
    (found : lib.defaultConstructor type = some constructor) :
    s.bindRoot lib node =
      ({ node with binding := lib.constructedBinding type },
        { s with
          claimed := node.qualifiedName :: s.claimed, constructors := s.constructors + 1 }) := by
  simp [bindRoot, typed, found, Library.constructedBinding]

/-! ### What is kept of a node -/

theorem fst_bindConstructed (type : StaticType) (node : NodeInfo) (s : BindingState) :
    (s.bindConstructed lib type node).1 =
      { node with binding := (s.bindConstructed lib type node).1.binding } := by
  unfold bindConstructed
  split
  · rfl
  · split <;> rfl

theorem fst_bindNode (key : String) (node : NodeInfo) (s : BindingState) :
    (s.bindNode lib owner key node).1 =
      { node with binding := (s.bindNode lib owner key node).1.binding } := by
  unfold bindNode
  split
  · rfl
  · split
    · rfl
    · rfl
    · exact fst_bindConstructed _ node s

theorem fst_bindRoot (node : NodeInfo) (s : BindingState) :
    (s.bindRoot lib node).1 = { node with binding := (s.bindRoot lib node).1.binding } := by
  unfold bindRoot
  split
  · rfl
  · dsimp only
    split <;> rfl

/-! ### Earlier reports -/

/-- The state when the given reports were there before. -/
def onTop (before : List Diagnostic) (s : BindingState) : BindingState :=
  { s with diagnostics := before ++ s.diagnostics }

@[simp] theorem failure_onTop (before : List Diagnostic) (s : BindingState) :
    (s.onTop before).failure = s.failure := rfl

section

variable (before : List Diagnostic) (s : BindingState)

theorem report_onTop (span : Span) (problem : Problem) :
    (s.onTop before).report span problem = (s.report span problem).onTop before := by
  simp [report, onTop]

theorem claim_onTop (name : String) (span : Span) :
    (s.onTop before).claim name span =
      ((s.claim name span).1, (s.claim name span).2.onTop before) := by
  by_cases taken : name ∈ s.claimed
  · rw [claim_of_mem taken, claim_of_mem (s := s.onTop before) taken, report_onTop]
  · rw [claim_of_notMem taken, claim_of_notMem (s := s.onTop before) taken]
    rfl

theorem bindScalar_onTop (info : PropertyInfo) (value : ε) :
    (s.onTop before).bindScalar lib owner info value =
      ((s.bindScalar lib owner info value).1, (s.bindScalar lib owner info value).2.1,
        (s.bindScalar lib owner info value).2.2.onTop before) := by
  simp only [bindScalar, claim_onTop, report_onTop]
  split
  · rfl
  · rfl
  · rcases s.claim info.qualifiedName info.span with ⟨free, next⟩
    cases free <;> rfl

theorem bindItems_onTop (key : String) (items : List ε) :
    bindItems lib owner key items (s.onTop before) =
      ((bindItems lib owner key items s).1, (bindItems lib owner key items s).2.1,
        (bindItems lib owner key items s).2.2.onTop before) := by
  induction items generalizing s with
  | nil => rfl
  | cons item rest ih =>
    have counted : { s.onTop before with adders := (s.onTop before).adders + 1 } =
        onTop before { s with adders := s.adders + 1 } := rfl
    simp only [bindItems, report_onTop, counted, ih]
    split <;> rfl

theorem bindList_onTop (info : PropertyInfo) (items : List ε) :
    (s.onTop before).bindList lib owner info items =
      ((s.bindList lib owner info items).1, (s.bindList lib owner info items).2.1,
        (s.bindList lib owner info items).2.2.onTop before) := by
  simp only [bindList, bindItems_onTop, failure_onTop]
  cases (bindItems lib owner info.key items s).2.2.failure <;> rfl

theorem bindConstructed_onTop (type : StaticType) (node : NodeInfo) :
    (s.onTop before).bindConstructed lib type node =
      ((s.bindConstructed lib type node).1, (s.bindConstructed lib type node).2.onTop before) := by
  simp only [bindConstructed, claim_onTop, report_onTop]
  split
  · rfl
  · rcases s.claim node.qualifiedName node.span with ⟨free, next⟩
    cases free <;> rfl

theorem bindNode_onTop (key : String) (node : NodeInfo) :
    (s.onTop before).bindNode lib owner key node =
      ((s.bindNode lib owner key node).1, (s.bindNode lib owner key node).2.onTop before) := by
  simp only [bindNode, bindConstructed_onTop]
  split
  · rfl
  · split <;> rfl

theorem bindRoot_onTop (node : NodeInfo) :
    (s.onTop before).bindRoot lib node =
      ((s.bindRoot lib node).1, (s.bindRoot lib node).2.onTop before) := by
  simp only [bindRoot]
  split
  · rfl
  · split
    · exact Prod.ext rfl
        (report_onTop before { s with claimed := node.qualifiedName :: s.claimed } _ _)
    · rfl

end

end BindingState

variable {lib : Library} {ε : Type} [Expression ε]

namespace Property

mutual

theorem bind_onTop (before : List Diagnostic) :
    ∀ (owner : Option StaticType) (p : Property ε) (s : BindingState),
      p.bind lib owner (s.onTop before) =
        ((p.bind lib owner s).1, (p.bind lib owner s).2.onTop before)
  | none, scalar _ _, _ | none, list _ _, _ | _, reference _ _, _ => rfl
  | some type, scalar info value, s => by
    simp only [bind, BindingState.bindScalar_onTop]
  | some type, list info items, s => by
    simp only [bind, BindingState.bindList_onTop]
  | owner, nested info node properties, s => by
    simp only [bind, bindAll_onTop before node.type properties s, BindingState.failure_onTop,
      BindingState.bindNode_onTop]
    split <;> rfl

/-- Binding properties neither reads nor changes the reports that were there before. -/
theorem bindAll_onTop (before : List Diagnostic) :
    ∀ (owner : Option StaticType) (ps : List (Property ε)) (s : BindingState),
      bindAll lib owner ps (s.onTop before) =
        ((bindAll lib owner ps s).1, (bindAll lib owner ps s).2.onTop before)
  | _, [], _ => rfl
  | owner, p :: rest, s => by
    simp only [bindAll, bind_onTop before owner p s, BindingState.failure_onTop,
      bindAll_onTop before owner rest]
    split <;> rfl

end

end Property

/-- Binding a tree neither reads nor changes the reports that were there before. -/
theorem Tree.bind_onTop (lib : Library) (t : Tree ε) (before : List Diagnostic) :
    t.bind lib before = ((t.bind lib []).1, (t.bind lib []).2.onTop before) := by
  have start : ({ diagnostics := before } : BindingState) =
      BindingState.onTop before { diagnostics := [] } := by
    simp [BindingState.onTop]
  simp only [bind, start, BindingState.bindRoot_onTop, Property.bindAll_onTop]

/-- Binding a tree only adds to the reports. -/
theorem Tree.prefix_bind (lib : Library) (t : Tree ε) (before : List Diagnostic) :
    before <+: (t.bind lib before).2.diagnostics := by
  rw [bind_onTop]
  exact List.prefix_append _ _

end Componentry
