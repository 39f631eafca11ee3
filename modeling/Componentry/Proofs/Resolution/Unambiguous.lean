import Componentry.Proofs.Library.Ambiguity
import Componentry.Proofs.Resolution.Acceptance

/-!
# Resolution that cannot fail

An ambiguous lookup is the only failure of resolution. Binding looks up getters without arguments,
and setters and adders with the type of one value. If the library decides all these lookups, each
step keeps the visit going, and so does the whole visit. In a registry this is so for values that
are primitive.

## Main definitions

* `Literal.isPrimitive` — the literal is neither a string nor null

## Main results

* `Property.failure_bindAll` — binding goes on if the library decides its lookups
* `Context.exists_resolve` — then resolution ends with its reports
* `Registry.resolve_of_primitive` — trees of primitive literals are always resolved
-/

namespace Componentry

variable {ε : Type} [Expression ε] {lib : Library}

/-! ### Lookups -/

namespace Library.Decides

theorem exists_lookup {args : List StaticType} (decides : lib.Decides args) (owner : StaticType)
    (name : String) : ∃ found, lib.lookup owner name args = .ok found := by
  unfold Library.lookup
  split
  · exact ⟨_, rfl⟩
  · rename_i error failed
    rw [if_pos (decides owner name error failed)]
    exact ⟨none, rfl⟩

theorem exists_lookupGetter (decides : lib.Decides []) (owner : StaticType) (key : String)
    (type : StaticType) : ∃ found, lib.lookupGetter owner key type = .ok found := by
  obtain ⟨found, answer⟩ := decides.exists_lookup owner (Naming.getter key)
  rw [Library.lookupGetter, answer]
  exact ⟨_, rfl⟩

end Library.Decides

/-- The library decides every lookup with the value as its argument. -/
def Library.DecidesValue (lib : Library) (e : ε) : Prop := lib.Decides [Expression.type e]

/-! ### Steps -/

namespace BindingState

variable {owner : StaticType}

theorem failure_bindScalar {value : ε} (decides : lib.DecidesValue value) (info : PropertyInfo)
    (s : BindingState) : (s.bindScalar lib owner info value).2.2.failure = s.failure := by
  obtain ⟨found, answer⟩ := decides.exists_lookup owner (Naming.setter info.key)
  cases found with
  | none => simp only [bindScalar, answer, report]
  | some method =>
    by_cases taken : info.qualifiedName ∈ s.claimed
    · simp only [bindScalar, answer, claim_of_mem taken, report]
    · simp only [bindScalar, answer, claim_of_notMem taken]

theorem failure_bindItems {items : List ε} (decides : ∀ item ∈ items, lib.DecidesValue item)
    (key : String) (s : BindingState) :
    (bindItems lib owner key items s).2.2.failure = s.failure := by
  induction items generalizing s with
  | nil => rfl
  | cons item rest ih =>
    rw [List.forall_mem_cons] at decides
    obtain ⟨found, answer⟩ := decides.1.exists_lookup owner (Naming.adder key)
    cases found with
    | none =>
      simp only [bindItems, answer]
      exact ih decides.2 (s.report _ _)
    | some method =>
      simp only [bindItems, answer]
      exact ih decides.2 { s with adders := s.adders + 1 }

theorem failure_bindConstructed (type : StaticType) (node : NodeInfo) (s : BindingState) :
    (s.bindConstructed lib type node).2.failure = s.failure := by
  unfold bindConstructed
  split
  · rfl
  · by_cases taken : node.qualifiedName ∈ s.claimed
    · simp only [claim_of_mem taken, report]
    · simp only [claim_of_notMem taken]

theorem failure_bindNode (getters : lib.Decides []) (key : String) (node : NodeInfo)
    (s : BindingState) : (s.bindNode lib owner key node).2.failure = s.failure := by
  cases typed : node.type with
  | none => simp only [bindNode, typed]
  | some type =>
    obtain ⟨found, answer⟩ := getters.exists_lookupGetter owner key type
    cases found with
    | none =>
      simp only [bindNode, typed, answer]
      exact failure_bindConstructed type node s
    | some method => simp only [bindNode, typed, answer]

/-- A constructor is never ambiguous. -/
theorem failure_bindRoot (node : NodeInfo) (s : BindingState) :
    (s.bindRoot lib node).2.failure = s.failure := by
  unfold bindRoot
  split
  · rfl
  · split <;> rfl

end BindingState

/-! ### The visit -/

namespace Property

mutual

theorem failure_bind (getters : lib.Decides []) :
    ∀ {index : Nat} (owner : Option StaticType) {p : Property ε} (s : BindingState),
      p.Anchored lib.DecidesValue index → (p.bind lib owner s).2.failure = s.failure
  | _, none, scalar _ _, _, _ | _, none, list _ _, _, _ | _, _, reference _ _, _, _ => rfl
  | _, some type, scalar info value, s, decides => BindingState.failure_bindScalar decides info s
  | _, some type, list info items, s, decides => by
    simp only [bind, BindingState.snd_bindList]
    exact BindingState.failure_bindItems decides info.key s
  | _, owner, nested info node properties, s, ⟨_, _, below⟩ => by
    have inside := failure_bindAll getters node.type s below
    simp only [bind]
    split
    · rw [BindingState.failure_bindNode getters]
      exact inside
    · exact inside

/-- No lookup ends the visit of properties if the library decides those that are made. -/
theorem failure_bindAll (getters : lib.Decides []) :
    ∀ {index : Nat} (owner : Option StaticType) {ps : List (Property ε)} (s : BindingState),
      AnchoredAll lib.DecidesValue index ps → (bindAll lib owner ps s).2.failure = s.failure
  | _, _, [], _, _ => rfl
  | _, owner, p :: rest, s, ⟨head, tail⟩ => by
    have first := failure_bind getters owner s head
    simp only [bindAll]
    split
    · exact first
    · exact (failure_bindAll getters owner (p.bind lib owner s).2 tail).trans first

end

mutual

theorem Anchored.typed {ctx : Context} {V W : ε → Prop} (prepared : ∀ e, V e → W (ctx.prepare e)) :
    ∀ {index : Nat} {p : Property ε} (failed : Bool),
      p.Anchored V index → (p.typed ctx failed).Anchored W index
  | _, scalar _ value, _, holds => prepared value holds
  | _, list _ items, _, holds => by
    intro e member
    obtain ⟨item, inside, rfl⟩ := List.mem_map.mp member
    exact prepared item (holds item inside)
  | _, reference _ _, _, unbound => unbound
  | _, nested info node properties, failed, ⟨unbound, parent, below⟩ => by
    have inside := AnchoredAll.typedAll prepared (failed || node.isUnknown ctx) below
    rw [Property.typed, node.typed_eq ctx failed]
    exact ⟨unbound, parent, inside⟩

/-- Properties stay anchored when types are assigned, and their values become those that binding
meets. -/
theorem AnchoredAll.typedAll {ctx : Context} {V W : ε → Prop}
    (prepared : ∀ e, V e → W (ctx.prepare e)) :
    ∀ {index : Nat} {ps : List (Property ε)} (failed : Bool),
      AnchoredAll V index ps → AnchoredAll W index (Property.typedAll ctx failed ps)
  | _, [], _, _ => trivial
  | _, _ :: _, failed, ⟨head, tail⟩ => ⟨head.typed prepared failed, tail.typedAll prepared failed⟩

end

end Property

/-- No lookup ends the visit of a tree if the library decides those that are made. -/
theorem Tree.failure_bind {t : Tree ε} {index : Nat} (getters : lib.Decides [])
    (anchored : Property.AnchoredAll lib.DecidesValue index t.root.properties)
    (before : List Diagnostic) : (t.bind lib before).2.failure = none := by
  simp only [bind]
  rw [Property.failure_bindAll getters _ _ anchored, BindingState.failure_bindRoot]

/-- Resolution ends with its reports if the library decides all lookups that are made. -/
theorem Context.exists_resolve {ctx : Context} {V : ε → Prop} {t : Tree ε} (built : t.WellFormed V)
    (getters : ctx.library.Decides [])
    (values : ∀ e, V e → ctx.library.DecidesValue (ctx.prepare e)) :
    ∃ reports, (ctx.resolve t).2 = .ok reports := by
  have unambiguous : (ctx.binding t).2.failure = none := by
    rw [binding_eq]
    exact Tree.failure_bind getters (built.anchored.typedAll values _) _
  rw [resolve_eq, unambiguous]
  exact ⟨_, rfl⟩

/-! ### Primitive literals -/

namespace Literal

/-- The literal is neither a string nor null. -/
def isPrimitive : Literal → Bool
  | bool _ | char _ | int _ | long _ | float _ | double _ => true
  | string _ | null => false

theorem exists_naturalType {l : Literal} (primitive : l.isPrimitive = true) :
    ∃ kind, l.naturalType = .primitive kind := by
  cases l with
  | bool _ | char _ | int _ | long _ | float _ | double _ => exact ⟨_, rfl⟩
  | string _ | null => cases primitive

end Literal

/-- The literal is primitive and has the type it was written with. -/
def LiteralExpr.IsPlain (e : LiteralExpr) : Prop := e.value.isPrimitive = true ∧ e.IsNatural

theorem Content.holds_isPlain {content : Content (Literal × Span)}
    (primitive : content.Holds fun literal => literal.1.isPrimitive = true) :
    (content.map fun (value, place) => LiteralExpr.ofLiteral value place).Holds
      LiteralExpr.IsPlain := by
  cases content with
  | scalar _ => exact ⟨primitive, rfl⟩
  | list items =>
    intro e member
    obtain ⟨literal, inside, rfl⟩ := List.mem_map.mp member
    exact ⟨primitive literal inside, rfl⟩
  | node _ | reference _ => trivial

namespace Registry

theorem decides_literal (r : Registry) {l : Literal} (primitive : l.isPrimitive = true) :
    r.library.Decides [l.naturalType] := by
  obtain ⟨kind, natural⟩ := Literal.exists_naturalType primitive
  rw [natural]
  exact r.decides_primitive kind

theorem decidesValue_prepare (r : Registry) (options : Options) {e : LiteralExpr}
    (plain : e.IsPlain) : r.library.DecidesValue (Context.prepare ⟨r.library, options⟩ e) := by
  obtain ⟨value, span, type⟩ := e
  obtain ⟨primitive, natural⟩ := plain
  have kept : Context.prepare ⟨r.library, options⟩ (⟨value, span, type⟩ : LiteralExpr) =
      ⟨value, span, type⟩ := by
    cases value with
    | bool _ | char _ | int _ | long _ | float _ | double _ | null => rfl
    | string _ => cases primitive
  have typed : type = value.naturalType := natural
  rw [kept, Library.DecidesValue]
  exact typed ▸ r.decides_literal primitive

/-- Whatever the classes of a registry, a tree that is built from primitive literals is resolved: no
lookup of a getter is ambiguous, and none of a setter or adder for one of these literals. -/
theorem resolve_of_primitive (r : Registry) (options : Options) (name : String) (span : Span)
    (items : List (Item (Literal × Span)))
    (primitive : ∀ item ∈ items, item.content.Holds fun literal => literal.1.isPrimitive = true) :
    (∃ reports, (Context.resolve ⟨r.library, options⟩ (.ofLiterals name span items)).2 =
      .ok reports) ∧
    r.library.Decides [] ∧
    ∀ literal : Literal, literal.isPrimitive = true → r.library.Decides [literal.naturalType] := by
  refine ⟨?_, r.decides_nil, fun _ => r.decides_literal⟩
  have built : (Tree.ofLiterals name span items).WellFormed LiteralExpr.IsPlain := by
    refine (Tree.wellFormed_new _ name span).insertAll fun item member => ?_
    obtain ⟨original, inside, rfl⟩ := List.mem_map.mp member
    exact Content.holds_isPlain (primitive original inside)
  exact Context.exists_resolve built r.decides_nil fun _ => r.decidesValue_prepare options

end Registry

namespace Sample

/-- A class whose levels can be set at three types, and whose marks at two. -/
def scale : ClassEntry where
  name := .topLevel "JScale"
  constructors := [[]]
  methods :=
    [⟨"setLevel", [.primitive .long], .void⟩, ⟨"setLevel", [.primitive .float], .void⟩,
      ⟨"setLevel", [.primitive .double], .void⟩, ⟨"setMark", [.ofClass "Icon"], .void⟩,
      ⟨"setMark", [.ofClass "Image"], .void⟩, ⟨"addStep", [.primitive .int], .void⟩]

/-- What is in a scale: a character for a level, two steps of which one is no number, and another
scale. -/
def scaleItems : List (Item (Literal × Span)) :=
  [⟨0, "level", line 2, .scalar (.char 'x', line 2)⟩,
    ⟨0, "step", line 3, .list [(.int 3, line 3), (.bool true, line 4)]⟩,
    ⟨0, "inner", line 5, .node "scale"⟩,
    ⟨1, "level", line 6, .scalar (.int 7, line 6)⟩]

/-- The scale is resolved although its setter is overloaded. -/
theorem resolve_scale :
    (∀ item ∈ scaleItems, item.content.Holds fun literal => literal.1.isPrimitive = true) ∧
    ∃ reports, (Context.resolve ⟨(Registry.empty.add scale).library, {}⟩
      (.ofLiterals "scale" (line 1) scaleItems)).2 = .ok reports := by
  have primitive : ∀ item ∈ scaleItems,
      item.content.Holds fun literal => literal.1.isPrimitive = true := by
    simp only [scaleItems, List.forall_mem_cons, Content.Holds]
    exact ⟨rfl, ⟨rfl, rfl, List.forall_mem_nil _⟩, trivial, rfl, List.forall_mem_nil _⟩
  exact ⟨primitive,
    ((Registry.empty.add scale).resolve_of_primitive {} "scale" (line 1) scaleItems primitive).1⟩

-- With null for a mark, resolution fails.
example : (Context.resolve ⟨(Registry.empty.add scale).library, {}⟩
    (.ofLiterals "scale" (line 1) [⟨0, "mark", line 2, .scalar (.null, line 2)⟩])).2.toOption =
      none := by
  decide +kernel

end Sample

end Componentry
