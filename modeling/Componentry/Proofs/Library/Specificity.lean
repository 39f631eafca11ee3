import Componentry.Proofs.Library.Ambiguity
import Componentry.Proofs.Library.Distance

/-!
# The most specific method

Among the methods that accept given arguments there may be one whose parameters convert to those of
every other one. Overload resolution looks at the costs of conversions first, and at specificity
only among the cheapest methods. The two agree as long as a class is no nearer to a supertype than
to the classes below that supertype which it also extends. A class that names a remote supertype
once more, as a direct one, is nearer to it: there the cheapest method need not be the most
specific, and two cheapest ones may even be tied.

## Main definitions

* `Hierarchy.Acyclic` — no class can be reached from itself
* `Hierarchy.IsMostSpecific` — a candidate accepts the arguments and is more specific than all
  others that do
* `Hierarchy.Undercuts` — a method accepts the arguments at a lower cost than another
* `Hierarchy.NoShortcuts` — a class is no nearer to a supertype than to what lies in between

## Main results

* `Hierarchy.Acyclic.converts_antisymm` — without cycles, types that convert to each other are the
  same
* `Hierarchy.NoShortcuts.cost_le` — without shortcuts, what is more specific is no more expensive
* `Hierarchy.mostSpecific_eq_singleton` — the most specific method is told apart from all others
* `Hierarchy.Acyclic.noShortcuts` — there are no shortcuts where a class has one direct supertype at
  most
* `Hierarchy.resolve_mostSpecific` — when the most specific method is selected
-/

namespace Componentry

/-! ### Conversions of primitive kinds -/

namespace Primitive

/-- Kinds that convert to each other are the same. -/
theorem conversion_antisymm {source target : Primitive} (there : (source.conversion target).isSome)
    (back : (target.conversion source).isSome) : source = target := by
  revert there back
  cases source <;> cases target <;> decide

/-- Of two kinds that a kind converts to, the one that converts to the other is the cheaper one. -/
theorem cost_conversion_mono {source mid target : Primitive} {c d : Conversion}
    (first : source.conversion mid = some c) (second : source.conversion target = some d)
    (between : (mid.conversion target).isSome) : c.cost ≤ d.cost := by
  have table : ∀ source ∈ all, ∀ mid ∈ all, ∀ target ∈ all, ∀ c ∈ source.conversion mid,
      ∀ d ∈ source.conversion target, (mid.conversion target).isSome → c.cost ≤ d.cost := by
    decide
  exact table source source.mem_all mid mid.mem_all target target.mem_all c first d second between

end Primitive

namespace Hierarchy

variable {h : Hierarchy} {args : List StaticType} {candidates : List Method} {m o : Method}

/-- No class can be reached from itself. -/
def Acyclic (h : Hierarchy) : Prop := ∀ c, ¬ Relation.TransGen h.IsDirect c c

/-- The arguments convert to the parameters of the method, one by one. -/
def Accepts (h : Hierarchy) (args : List StaticType) (m : Method) : Prop :=
  List.Forall₂ (fun arg param => h.converts arg param = true) args m.params

/-- The candidate accepts the arguments, and it is more specific than every other candidate that
does. -/
def IsMostSpecific (h : Hierarchy) (candidates : List Method) (args : List StaticType)
    (m : Method) : Prop :=
  ∃ before after, candidates = before ++ m :: after ∧ h.Accepts args m ∧
    ∀ o ∈ before ++ after, h.Accepts args o → h.moreSpecific m o = true

/-- The first method accepts the arguments at a lower cost than the second. -/
def Undercuts (h : Hierarchy) (args : List StaticType) (o m : Method) : Prop :=
  ∃ a ∈ h.applicable? args o, ∃ b ∈ h.applicable? args m, a.cost < b.cost

instance (h : Hierarchy) (args : List StaticType) (o m : Method) :
    Decidable (h.Undercuts args o m) :=
  inferInstanceAs
    (Decidable (∃ a ∈ h.applicable? args o, ∃ b ∈ h.applicable? args m, a.cost < b.cost))

/-- A class is no nearer to a supertype than to those of its supertypes that are below it. -/
def NoShortcuts (h : Hierarchy) : Prop :=
  ∀ (sub mid sup : ClassName) (near far : Nat), h.distance sub mid = some near →
    h.distance sub sup = some far → h.isSubtype mid sup = true → near ≤ far

/-! ### Conversions of classes -/

theorem isSubtype_refl (h : Hierarchy) (c : ClassName) : h.isSubtype c c = true :=
  isSubtype_iff.mpr .refl

theorem converts_object (sub sup : ClassName) :
    h.converts (.object sub) (.object sup) = h.isSubtype sub sup := by
  by_cases same : sub = sup
  · rw [same, isSubtype_refl, converts, conversion_self]
    rfl
  · simp [converts, conversion, same, isSubtype]

/-- What a class converts to is a class. -/
theorem exists_of_converts_object {sub : ClassName} {target : StaticType}
    (found : h.converts (.object sub) target = true) : ∃ sup, target = .object sup := by
  cases target with
  | object sup => exact ⟨sup, rfl⟩
  | void | null | primitive _ => simp [converts, conversion] at found

/-- What a primitive kind converts to is primitive, and the kinds convert. -/
theorem exists_of_converts_primitive {source : Primitive} {target : StaticType}
    (found : h.converts (.primitive source) target = true) :
    ∃ kind, target = .primitive kind ∧ (source.conversion kind).isSome := by
  obtain ⟨c, conversion⟩ := Option.isSome_iff_exists.mp found
  obtain ⟨kind, rfl, widens⟩ := exists_of_conversion_primitive conversion
  exact ⟨kind, rfl, by rw [widens]; rfl⟩

/-- What converts to a primitive kind is primitive, and the kinds convert. -/
theorem exists_of_converts_to_primitive {source : StaticType} {kind : Primitive}
    (found : h.converts source (.primitive kind) = true) :
    ∃ s, source = .primitive s ∧ (s.conversion kind).isSome := by
  cases source with
  | primitive s =>
    obtain ⟨_, same, widens⟩ := exists_of_converts_primitive found
    cases same
    exact ⟨s, rfl, widens⟩
  | void | null | object _ => simp [converts, conversion] at found

/-- Going up to another class is paid by distance. -/
theorem distance_of_conversion {sub sup : ClassName} {c : Conversion} (other : sub ≠ sup)
    (found : h.conversion (.object sub) (.object sup) = some c) :
    ∃ n, h.distance sub sup = some n ∧ c.cost = 20 + n := by
  rw [conversion, if_neg (by simpa using other)] at found
  obtain ⟨n, near, rfl⟩ := Option.map_eq_some_iff.mp found
  exact ⟨n, near, rfl⟩

/-- Without cycles, types that convert to each other are the same. -/
theorem Acyclic.converts_antisymm (acyclic : h.Acyclic) {s t : StaticType}
    (there : h.converts s t = true) (back : h.converts t s = true) : s = t := by
  cases s with
  | object sub =>
    obtain ⟨sup, rfl⟩ := exists_of_converts_object there
    rw [converts_object, isSubtype_iff] at there back
    rcases Relation.reflTransGen_iff_eq_or_transGen.mp there with equal | chain
    · rw [equal]
    · exact absurd (chain.trans_left back) (acyclic sub)
  | primitive source =>
    obtain ⟨target, rfl, widens⟩ := exists_of_converts_primitive there
    obtain ⟨kind, same, returns⟩ := exists_of_converts_primitive back
    cases same
    rw [Primitive.conversion_antisymm widens returns]
  | void =>
    cases t with
    | void => rfl
    | null | primitive _ | object _ => simp [converts, conversion] at there
  | null =>
    cases t with
    | null => rfl
    | void | primitive _ => simp [converts, conversion] at there
    | object _ => simp [converts, conversion] at back

/-- Without cycles, an argument that matches a parameter exactly matches everything in between
exactly. -/
theorem Acyclic.isExact_of_between (acyclic : h.Acyclic) {arg mid target : StaticType}
    {c d : Conversion} (first : h.conversion arg mid = some c)
    (second : h.conversion arg target = some d) (between : h.converts mid target = true)
    (exact_match : d.isExact = true) : c.isExact = true := by
  have identity : d = .identity := of_decide_eq_true exact_match
  have reached : arg = target := by
    refine eq_of_cost_conversion second ?_
    rw [identity]
    rfl
  rw [← reached] at between
  have same : arg = mid := by
    refine acyclic.converts_antisymm ?_ between
    rw [converts, first]
    rfl
  rw [← same, conversion_self] at first
  rw [← Option.some.inj first]
  rfl

/-- Without shortcuts, of two types that an argument converts to, the one that converts to the other
is the cheaper one. -/
theorem NoShortcuts.cost_conversion_mono (direct : h.NoShortcuts) {arg mid target : StaticType}
    {c d : Conversion} (first : h.conversion arg mid = some c)
    (second : h.conversion arg target = some d) (between : h.converts mid target = true) :
    c.cost ≤ d.cost := by
  by_cases matched : arg = mid
  · rw [matched, conversion_self] at first
    rw [← Option.some.inj first]
    exact Nat.zero_le _
  · cases arg with
    | object sub =>
      obtain ⟨sup, rfl⟩ := exists_of_converts_object (by rw [converts, first]; rfl)
      obtain ⟨top, rfl⟩ := exists_of_converts_object between
      rw [converts_object] at between
      have other : sub ≠ sup := fun same => matched (by rw [same])
      obtain ⟨near, near_eq, cost_eq⟩ := distance_of_conversion other first
      by_cases returns : sub = top
      · -- The way up leads back to the argument's own class, which is at no distance from itself.
        have none : h.distance sub top = some 0 :=
          distance_eq_some_iff.mpr ⟨returns, fun _ less => by omega⟩
        have zero := direct sub sup top near 0 near_eq none between
        obtain rfl : near = 0 := by omega
        exact absurd (distance_eq_some_iff.mp near_eq).1 other
      · obtain ⟨far, far_eq, cost_eq'⟩ := distance_of_conversion returns second
        have le := direct sub sup top near far near_eq far_eq between
        omega
    | primitive source =>
      obtain ⟨kind, rfl, widens⟩ := exists_of_conversion_primitive first
      obtain ⟨kind', rfl, widens'⟩ := exists_of_conversion_primitive second
      obtain ⟨_, same, middle⟩ := exists_of_converts_primitive between
      cases same
      exact Primitive.cost_conversion_mono widens widens' middle
    | void =>
      cases mid with
      | void => exact absurd rfl matched
      | null | primitive _ | object _ => simp [conversion] at first
    | null =>
      cases mid with
      | null => exact absurd rfl matched
      | void | primitive _ => simp [conversion] at first
      | object sup =>
        -- All classes cost the same for null.
        obtain ⟨top, rfl⟩ := exists_of_converts_object between
        simp only [conversion, reduceCtorEq, if_false, Option.some.injEq] at first second
        rw [← first, ← second]

/-! ### Whole argument lists -/

theorem accepts_iff : h.Accepts args m ↔ ∃ a, h.applicable? args m = some a := by
  constructor
  · intro accepted
    have converted : ∃ conversions, h.convertAll args m.params = some conversions := by
      unfold Accepts at accepted
      generalize m.params = params at accepted
      induction accepted with
      | nil => exact ⟨[], rfl⟩
      | cons first _ ih =>
        obtain ⟨c, found⟩ := Option.isSome_iff_exists.mp first
        obtain ⟨cs, rest⟩ := ih
        exact ⟨c :: cs, by rw [convertAll, found, rest]⟩
    obtain ⟨conversions, found⟩ := converted
    exact ⟨⟨m, conversions⟩, by rw [applicable?, found]; rfl⟩
  · rintro ⟨a, applied⟩
    obtain ⟨conversions, converted, -⟩ := Option.map_eq_some_iff.mp applied
    exact forall₂_of_convertAll converted

/-- The conversions of arguments to the parameters of two methods, the first of which is more
specific. -/
theorem forall₂_of_between {params others : List StaticType} {cs ds : List Conversion}
    (first : h.convertAll args params = some cs) (second : h.convertAll args others = some ds)
    (between : (params.zip others).all (fun (p, q) => h.converts p q) = true) :
    List.Forall₂ (fun c d => ∃ arg p q, h.conversion arg p = some c ∧ h.conversion arg q = some d ∧
      h.converts p q = true) cs ds := by
  induction args generalizing params others cs ds with
  | nil =>
    cases params with
    | nil =>
      cases others with
      | nil =>
        cases first
        cases second
        exact .nil
      | cons _ _ => cases second
    | cons _ _ => cases first
  | cons arg args ih =>
    cases params with
    | nil => cases first
    | cons p params =>
      cases others with
      | nil => cases second
      | cons q others =>
        rw [convertAll] at first second
        split at first
        · rename_i c cs here rest
          split at second
          · rename_i d ds here' rest'
            cases first
            cases second
            rw [List.zip_cons_cons, List.all_cons, Bool.and_eq_true] at between
            exact .cons ⟨arg, p, q, here, here', between.1⟩ (ih rest rest' between.2)
          · cases second
        · cases first

theorem forall₂_of_moreSpecific {a b : Applicable} (first : h.applicable? args m = some a)
    (second : h.applicable? args o = some b) (specific : h.moreSpecific m o = true) :
    List.Forall₂ (fun c d => ∃ arg p q, h.conversion arg p = some c ∧ h.conversion arg q = some d ∧
      h.converts p q = true) a.conversions b.conversions := by
  obtain ⟨cs, converted, rfl⟩ := Option.map_eq_some_iff.mp first
  obtain ⟨ds, converted', rfl⟩ := Option.map_eq_some_iff.mp second
  rw [moreSpecific, Bool.and_eq_true] at specific
  exact forall₂_of_between converted converted' specific.2

/-- Without cycles, a method that is more specific than another has at least as many exact
matches. -/
theorem Acyclic.exactness_le (acyclic : h.Acyclic) {a b : Applicable}
    (first : h.applicable? args m = some a) (second : h.applicable? args o = some b)
    (specific : h.moreSpecific m o = true) : b.exactness ≤ a.exactness := by
  have pairs := forall₂_of_moreSpecific first second specific
  unfold Applicable.exactness
  generalize a.conversions = cs at pairs ⊢
  generalize b.conversions = ds at pairs ⊢
  induction pairs with
  | nil => exact Nat.le_refl _
  | @cons c d _ _ head _ ih =>
    obtain ⟨arg, p, q, here, there, between⟩ := head
    have kept := acyclic.isExact_of_between here there between
    rw [List.countP_cons, List.countP_cons]
    by_cases matched : d.isExact = true
    · rw [if_pos matched, if_pos (kept matched)]
      omega
    · rw [if_neg matched]
      omega

/-- Without shortcuts, a method that is more specific than another costs no more. -/
theorem NoShortcuts.cost_le (direct : h.NoShortcuts) {a b : Applicable}
    (first : h.applicable? args m = some a) (second : h.applicable? args o = some b)
    (specific : h.moreSpecific m o = true) : a.cost ≤ b.cost := by
  have pairs := forall₂_of_moreSpecific first second specific
  unfold Applicable.cost
  generalize a.conversions = cs at pairs ⊢
  generalize b.conversions = ds at pairs ⊢
  induction pairs with
  | nil => exact Nat.le_refl _
  | cons head _ ih =>
    obtain ⟨arg, p, q, here, there, between⟩ := head
    have le := direct.cost_conversion_mono here there between
    rw [List.foldr_cons, List.foldr_cons]
    omega

/-- Without cycles, no method is more specific than one that is more specific than it. -/
theorem Acyclic.not_moreSpecific (acyclic : h.Acyclic) (accepted : h.Accepts args m)
    (accepted' : h.Accepts args o) (specific : h.moreSpecific m o = true) :
    h.moreSpecific o m = false := by
  rw [moreSpecific, Bool.and_eq_true, decide_eq_true_eq] at specific
  obtain ⟨differ, there⟩ := specific
  rw [← Bool.not_eq_true, moreSpecific, Bool.and_eq_true, not_and]
  intro _ back
  -- The two lists are as long as that of the arguments, and convert to each other.
  have lengths : m.params.length = o.params.length :=
    accepted.length_eq.symm.trans accepted'.length_eq
  refine differ (List.ext_getElem lengths fun i inside inside' => ?_)
  refine acyclic.converts_antisymm ?_ ?_
  · have pair : (m.params[i], o.params[i]) ∈ m.params.zip o.params :=
      List.mem_iff_getElem.mpr ⟨i, by rw [List.length_zip]; omega, by simp⟩
    exact List.all_eq_true.mp there _ pair
  · have pair : (o.params[i], m.params[i]) ∈ o.params.zip m.params :=
      List.mem_iff_getElem.mpr ⟨i, by rw [List.length_zip]; omega, by simp⟩
    exact List.all_eq_true.mp back _ pair

/-! ### Selection -/

/-- The methods that are more specific than each of the others, by recursion on the list. -/
theorem mostSpecific_cons (a : Applicable) (ms : List Applicable) :
    h.mostSpecific (a :: ms) =
      (if ms.all (fun o => h.moreSpecific a.method o.method) then [a] else []) ++
        (h.mostSpecific ms).filter fun m => h.moreSpecific m.method a.method := by
  let beats (e : Applicable × List Applicable) : Bool :=
    e.2.all fun o => h.moreSpecific e.1.method o.method
  let push (e : Applicable × List Applicable) : Applicable × List Applicable := (e.1, a :: e.2)
  have later : ((picks ms).map push).filter beats =
      (((picks ms).filter beats).filter fun e => h.moreSpecific e.1.method a.method).map push := by
    rw [List.filter_map, List.filter_filter]
    rfl
  change (((a, ms) :: (picks ms).map push).filter beats).map Prod.fst =
    _ ++ (((picks ms).filter beats).map Prod.fst).filter _
  rw [List.filter_cons, later, List.filter_map]
  dsimp only [beats]
  split <;> simp [Function.comp_def, push]

theorem mem_of_mem_mostSpecific {a : Applicable} {ms : List Applicable}
    (member : a ∈ h.mostSpecific ms) : a ∈ ms := by
  obtain ⟨⟨_, _⟩, picked, rfl⟩ := List.mem_map.mp member
  exact mem_of_mem_picks (List.mem_filter.mp picked).1

/-- A method that is more specific than all others, while none of them is more specific than it, is
the only one of this kind. -/
theorem mostSpecific_eq_singleton {a : Applicable} {before after : List Applicable}
    (more : ∀ o ∈ before ++ after, h.moreSpecific a.method o.method = true)
    (less : ∀ o ∈ before ++ after, h.moreSpecific o.method a.method = false) :
    h.mostSpecific (before ++ a :: after) = [a] := by
  induction before with
  | nil =>
    rw [List.nil_append] at more less
    have none_left :
        (h.mostSpecific after).filter (fun m => h.moreSpecific m.method a.method) = [] := by
      refine List.filter_eq_nil_iff.mpr fun o member => ?_
      rw [less o (mem_of_mem_mostSpecific member)]
      exact Bool.false_ne_true
    rw [List.nil_append, mostSpecific_cons, none_left, if_pos (List.all_eq_true.mpr more)]
    rfl
  | cons b before ih =>
    rw [List.cons_append, List.forall_mem_cons] at more less
    have beaten :
        (before ++ a :: after).all (fun o => h.moreSpecific b.method o.method) ≠ true := by
      intro all
      have wins := List.all_eq_true.mp all a (by simp)
      rw [less.1] at wins
      cases wins
    rw [List.cons_append, mostSpecific_cons, ih more.2 less.2, if_neg beaten, List.nil_append]
    simp [more.1]

/-- An element that passes a filter keeps its place among the others that do. -/
theorem exists_filter_eq {α : Type} {p : α → Bool} {x : α} (kept : p x = true)
    (before after : List α) :
    ∃ before' after', (before ++ x :: after).filter p = before' ++ x :: after' ∧
      ∀ y ∈ before' ++ after', y ∈ before ++ after := by
  refine ⟨before.filter p, after.filter p, ?_, fun y member => ?_⟩
  · rw [List.filter_append, List.filter_cons_of_pos kept]
  · rw [← List.filter_append] at member
    exact List.mem_of_mem_filter member

/-- What is left after costs and exact matches, when the given method is best in both respects. -/
theorem exists_rivals_eq {a : Applicable} {before after : List Applicable}
    (cheap : ∀ b ∈ before ++ after, a.cost ≤ b.cost)
    (precise : ∀ b ∈ before ++ after, b.exactness ≤ a.exactness) :
    ∃ before' after', Applicable.mostExact (Applicable.cheapest (before ++ a :: after)) =
      before' ++ a :: after' ∧ ∀ b ∈ before' ++ after', b ∈ before ++ after := by
  have least : (fun m => (before ++ a :: after).all (m.cost ≤ ·.cost)) a = true := by
    refine List.all_eq_true.mpr fun b member => decide_eq_true ?_
    by_cases same : b = a
    · rw [same]
    · exact cheap b (by simpa [same] using member)
  obtain ⟨first, last, cheapest_eq, inside⟩ :=
    exists_filter_eq (p := fun m => (before ++ a :: after).all (m.cost ≤ ·.cost)) least before after
  have most : (fun m => (first ++ a :: last).all (·.exactness ≤ m.exactness)) a = true := by
    refine List.all_eq_true.mpr fun b member => decide_eq_true ?_
    by_cases same : b = a
    · rw [same]
    · exact precise b (inside b (by simpa [same] using member))
  obtain ⟨before', after', rivals_eq, inside'⟩ :=
    exists_filter_eq (p := fun m =>
      (first ++ a :: last).all (·.exactness ≤ m.exactness)) most first last
  refine ⟨before', after', ?_, fun b member => inside b (inside' b member)⟩
  rw [Applicable.cheapest, cheapest_eq, Applicable.mostExact, rivals_eq]

theorem select_eq_best {viable : List Applicable} {winner : Applicable}
    (only : h.mostSpecific (Applicable.mostExact (Applicable.cheapest viable)) = [winner]) :
    h.select viable = .best winner := by
  have some_rival : Applicable.mostExact (Applicable.cheapest viable) ≠ [] := by
    intro none
    rw [none] at only
    cases only
  -- There are rivals, so the first case of the selection is out of the question.
  simp only [select, only]

/-- Without cycles, the most specific candidate is selected if none undercuts it. -/
theorem Acyclic.resolve_eq_ok (acyclic : h.Acyclic) (most : h.IsMostSpecific candidates args m)
    (cheap : ∀ o ∈ candidates, ¬ h.Undercuts args o m) (owner : StaticType) (name : String) :
    h.resolve owner name candidates args = .ok m := by
  obtain ⟨before, after, rfl, accepted, specific⟩ := most
  obtain ⟨a, applied⟩ := accepts_iff.mp accepted
  have method_eq : a.method = m := by
    obtain ⟨_, -, rfl⟩ := Option.map_eq_some_iff.mp applied
    rfl
  -- Any other applicable method belongs to a candidate that is less specific.
  have rival (b : Applicable)
      (member : b ∈ before.filterMap (h.applicable? args) ++ after.filterMap (h.applicable? args)) :
      b.method ∈ before ++ after ∧ h.applicable? args b.method = some b ∧
        h.moreSpecific m b.method = true := by
    rw [← List.filterMap_append] at member
    obtain ⟨o, inside, applied'⟩ := List.mem_filterMap.mp member
    have accepted' := specific o inside (accepts_iff.mpr ⟨b, applied'⟩)
    obtain ⟨_, -, rfl⟩ := Option.map_eq_some_iff.mp applied'
    exact ⟨inside, applied', accepted'⟩
  obtain ⟨before', after', rivals, inside⟩ := exists_rivals_eq (a := a)
    (fun b member => by
      obtain ⟨among, applied', -⟩ := rival b member
      refine Nat.not_lt.mp fun less => cheap b.method ?_ ⟨b, applied', a, applied, less⟩
      simp only [List.mem_append, List.mem_cons] at among ⊢
      tauto)
    (fun b member => by
      obtain ⟨-, applied', more⟩ := rival b member
      exact acyclic.exactness_le applied applied' more)
  have only : h.mostSpecific (before' ++ a :: after') = [a] := by
    refine mostSpecific_eq_singleton (fun b member => ?_) fun b member => ?_
    · rw [method_eq]
      exact (rival b (inside b member)).2.2
    · obtain ⟨-, applied', more⟩ := rival b (inside b member)
      rw [method_eq]
      exact acyclic.not_moreSpecific accepted (accepts_iff.mpr ⟨b, applied'⟩) more
  have viable : (before ++ m :: after).filterMap (h.applicable? args) =
      before.filterMap (h.applicable? args) ++ a :: after.filterMap (h.applicable? args) := by
    rw [List.filterMap_append, List.filterMap_cons, applied]
  rw [← rivals, ← viable] at only
  rw [resolve, select_eq_best only]
  exact congrArg Except.ok method_eq

/-- A candidate that is selected is not undercut. -/
theorem not_undercuts_of_resolve {owner : StaticType} {name : String}
    (found : h.resolve owner name candidates args = .ok m) :
    ∀ o ∈ candidates, ¬ h.Undercuts args o m := by
  rintro o member ⟨a, applied, b, applied', less⟩
  unfold resolve at found
  split at found
  · rename_i winner selected
    cases found
    have cheapest : winner ∈ Applicable.cheapest (candidates.filterMap (h.applicable? args)) :=
      (List.mem_filter.mp (mem_rivals_of_select selected)).1
    obtain ⟨viable, least⟩ := List.mem_filter.mp cheapest
    obtain ⟨candidate, -, accepted⟩ := List.mem_filterMap.mp viable
    obtain ⟨conversions, converted, rfl⟩ := Option.map_eq_some_iff.mp accepted
    have same : b = ⟨candidate, conversions⟩ := Option.some.inj (applied'.symm.trans accepted)
    rw [same] at less
    have le := List.all_eq_true.mp least a (List.mem_filterMap.mpr ⟨o, member, applied⟩)
    exact Nat.not_lt.mpr (of_decide_eq_true le) less
  · cases found
  · cases found

/-! ### Shortcuts -/

/-- Where a class has one direct supertype at most, a chain of edges is determined by its length. -/
theorem ReachesIn.unique (single : ∀ c d e, h.IsDirect c d → h.IsDirect c e → d = e) {n : Nat}
    {a b c : ClassName} (first : h.ReachesIn n a b) (second : h.ReachesIn n a c) : b = c := by
  induction n generalizing b c with
  | zero => exact first.symm.trans second
  | succ n ih =>
    obtain ⟨d, chain, edge⟩ := first
    obtain ⟨e, chain', edge'⟩ := second
    obtain rfl := ih chain chain'
    exact single d b c edge edge'

/-- Where a class has one direct supertype at most, a longer chain goes on from the end of a shorter
one. -/
theorem ReachesIn.drop (single : ∀ c d e, h.IsDirect c d → h.IsDirect c e → d = e) {n k : Nat}
    {a b c : ClassName} (short : h.ReachesIn n a b) (long : h.ReachesIn (n + k) a c) :
    h.ReachesIn k b c := by
  induction k generalizing c with
  | zero => exact ReachesIn.unique single short long
  | succ k ih =>
    obtain ⟨d, chain, edge⟩ := long
    exact ⟨d, ih chain, edge⟩

/-- There are no shortcuts where a class has one direct supertype at most. -/
theorem Acyclic.noShortcuts (acyclic : h.Acyclic)
    (single : ∀ c d e, h.IsDirect c d → h.IsDirect c e → d = e) : h.NoShortcuts := by
  intro sub mid sup near far near_eq far_eq between
  by_contra shorter
  obtain ⟨k, rfl⟩ : ∃ k, near = far + (k + 1) := ⟨near - far - 1, by omega⟩
  -- The chain to the nearer class goes on to the farther one, from which there is a way back.
  obtain ⟨d, chain, edge⟩ := ReachesIn.drop single (distance_eq_some_iff.mp far_eq).1
    (distance_eq_some_iff.mp near_eq).1
  have up : Relation.TransGen h.IsDirect sup mid := .tail' (reflTransGen_iff.mpr ⟨k, chain⟩) edge
  exact acyclic sup (up.trans_left (isSubtype_iff.mp between))

/-- A method of the given name with one class as its parameter. -/
def taking (owner : ClassName) (name : String) (param : ClassName) : Method :=
  ⟨owner, name, [.object param], .void⟩

/-- The method accepts an object of a class below its parameter, at a cost that depends on the
distance. -/
theorem applicable?_taking {sub sup : ClassName} {n : Nat} (near : h.distance sub sup = some n)
    (owner : ClassName) (name : String) :
    ∃ a, h.applicable? [.object sub] (taking owner name sup) = some a ∧
      a.cost = if sub = sup then 0 else 20 + n := by
  by_cases same : sub = sup
  · refine ⟨⟨taking owner name sup, [.identity]⟩, ?_, by rw [if_pos same]; rfl⟩
    simp [applicable?, taking, convertAll, same, conversion_self]
  · refine ⟨⟨taking owner name sup, [.derivedToBase sup n]⟩, ?_, by rw [if_neg same]; rfl⟩
    simp [applicable?, taking, convertAll, conversion, same, near]

/-- Where there is a shortcut, a candidate that is most specific is undercut. -/
theorem exists_undercuts {sub mid sup : ClassName} {near far : Nat}
    (near_eq : h.distance sub mid = some near) (far_eq : h.distance sub sup = some far)
    (between : h.isSubtype mid sup = true) (shorter : far < near) (owner : ClassName)
    (name : String) :
    h.IsMostSpecific [taking owner name mid, taking owner name sup] [.object sub]
      (taking owner name mid) ∧
      h.Undercuts [.object sub] (taking owner name sup) (taking owner name mid) := by
  have other : mid ≠ sup := by
    rintro rfl
    rw [near_eq] at far_eq
    cases far_eq
    omega
  have apart : sub ≠ mid := by
    rintro rfl
    have zero := (distance_eq_some_iff.mp near_eq).unique (n := 0) ⟨rfl, fun _ less => by omega⟩
    omega
  obtain ⟨a, applied, cost_eq⟩ := applicable?_taking near_eq owner name
  obtain ⟨b, applied', cost_eq'⟩ := applicable?_taking far_eq owner name
  refine ⟨⟨[], [taking owner name sup], rfl, accepts_iff.mpr ⟨a, applied⟩, ?_⟩,
    b, applied', a, applied, ?_⟩
  · intro o member _
    obtain rfl := List.mem_singleton.mp member
    simp [moreSpecific, taking, other, converts_object, between]
  · rw [cost_eq, cost_eq', if_neg apart]
    split <;> omega

/-- **When the most specific method is selected.** In a hierarchy without cycles, a candidate that
accepts the arguments and is more specific than every other one that does is selected exactly if
none of them is cheaper. This is so for all candidates and arguments exactly if no class is nearer
to a supertype than to a class between the two; and it is so wherever a class has one direct
supertype at most. -/
theorem resolve_mostSpecific (h : Hierarchy) (acyclic : h.Acyclic) :
    (∀ owner name candidates args m, h.IsMostSpecific candidates args m →
      (h.resolve owner name candidates args = .ok m ↔ ∀ o ∈ candidates, ¬ h.Undercuts args o m)) ∧
    ((∀ owner name candidates args m, h.IsMostSpecific candidates args m →
      h.resolve owner name candidates args = .ok m) ↔ h.NoShortcuts) ∧
    ((∀ c d e, h.IsDirect c d → h.IsDirect c e → d = e) → h.NoShortcuts) := by
  have each {owner : StaticType} {name : String} {candidates : List Method} {args : List StaticType}
      {m : Method} (most : h.IsMostSpecific candidates args m) :
      h.resolve owner name candidates args = .ok m ↔ ∀ o ∈ candidates, ¬ h.Undercuts args o m :=
    ⟨not_undercuts_of_resolve, fun cheap => acyclic.resolve_eq_ok most cheap owner name⟩
  refine ⟨fun owner name candidates args m most => each most, ⟨?_, ?_⟩, acyclic.noShortcuts⟩
  · intro selects sub mid sup near far near_eq far_eq between
    by_contra shorter
    obtain ⟨most, undercut⟩ := exists_undercuts near_eq far_eq between (by omega) sub "add"
    exact (each most).mp (selects (.object sub) "add" _ _ _ most) _ (by simp) undercut
  · intro direct owner name candidates args m most
    refine (each most).mpr ?_
    rintro o member ⟨a, applied, b, applied', less⟩
    obtain ⟨before, after, rfl, accepted, specific⟩ := most
    have accepted' : h.Accepts args o := accepts_iff.mpr ⟨a, applied⟩
    by_cases same : o = m
    · rw [same, applied'] at applied
      cases applied
      omega
    · have inside : o ∈ before ++ after := by simpa [same] using member
      have le := direct.cost_le applied' applied (specific o inside accepted')
      omega

/-- There are no cycles where the edges lead to ever higher ranks. -/
theorem acyclic_of_rank (rank : ClassName → Nat) (rises : ∀ e ∈ h.edges, rank e.1 < rank e.2) :
    h.Acyclic := by
  have climb {c d : ClassName} (chain : Relation.TransGen h.IsDirect c d) : rank c < rank d := by
    induction chain with
    | single edge => exact rises _ edge
    | tail _ edge ih => exact Nat.lt_trans ih (rises _ edge)
  exact fun c cycle => Nat.lt_irrefl _ (climb cycle)

end Hierarchy

namespace Sample

/-- A dial is a gauge, and a gauge is a meter. A meter has a scale and a label, and a dial names
both once more as its direct supertypes. -/
def meters : Hierarchy :=
  ⟨[("Dial", "Gauge"), ("Gauge", "Meter"), ("Meter", "Scaled"), ("Meter", "Labeled"),
    ("Dial", "Scaled"), ("Dial", "Labeled")].map fun (sub, sup) => (.topLevel sub, .topLevel sup)⟩

/-- A method of a panel that takes an object of the given class. -/
def attach (param : String) : Method :=
  Hierarchy.taking (.topLevel "Panel") "attach" (.topLevel param)

theorem acyclic_meters : meters.Acyclic := by
  refine Hierarchy.acyclic_of_rank
    (fun c => ["Dial", "Gauge", "Meter", "Scaled", "Labeled"].idxOf c.name) ?_
  decide

/-- The methods that a panel has for meters and for what has a scale or a label. -/
def attachers : List Method := [attach "Meter", attach "Scaled", attach "Labeled"]

/-- For all kinds of meters, the method that takes a meter is the most specific one. -/
theorem isMostSpecific_attach {c : ClassName}
    (below : meters.converts (.object c) (.object (.topLevel "Meter")) = true) :
    meters.IsMostSpecific attachers [.object c] (attach "Meter") := by
  have specific : ∀ o ∈ [attach "Scaled", attach "Labeled"],
      meters.moreSpecific (attach "Meter") o = true := by
    decide +kernel
  exact ⟨[], _, rfl, .cons below .nil, fun o member _ => specific o member⟩

/-- A dial is nearer to what has a scale or a label than to a meter. So the method that takes a
meter is not selected for a dial, although it is the most specific one: the other two are tied, and
where there is but one of them, that one is selected. -/
theorem attach_dial_tied :
    meters.Acyclic ∧
    meters.IsMostSpecific attachers [.ofClass "Dial"] (attach "Meter") ∧
    meters.resolve (.ofClass "Panel") "attach" attachers [.ofClass "Dial"] =
      .error (.ambiguous "Panel" "attach" "attach(Scaled) and attach(Labeled)") ∧
    meters.resolve (.ofClass "Panel") "attach" [attach "Meter", attach "Scaled"] [.ofClass "Dial"] =
      .ok (attach "Scaled") := by
  refine ⟨acyclic_meters, isMostSpecific_attach ?_, ?_, ?_⟩ <;> decide +kernel

/-- For a gauge, which has no shortcuts, the method that takes a meter is selected. For a dial it is
not, since it is undercut, and so there is a shortcut somewhere. -/
theorem attach_gauge :
    meters.Acyclic ∧
    meters.IsMostSpecific attachers [.ofClass "Gauge"] (attach "Meter") ∧
    meters.resolve (.ofClass "Panel") "attach" attachers [.ofClass "Gauge"] = .ok (attach "Meter") ∧
    meters.Undercuts [.ofClass "Dial"] (attach "Scaled") (attach "Meter") ∧
    ¬ meters.NoShortcuts := by
  obtain ⟨each, whole, -⟩ := Hierarchy.resolve_mostSpecific meters acyclic_meters
  have near : meters.IsMostSpecific attachers [.ofClass "Gauge"] (attach "Meter") :=
    isMostSpecific_attach (by decide +kernel)
  have far : meters.IsMostSpecific attachers [.ofClass "Dial"] (attach "Meter") :=
    isMostSpecific_attach (by decide +kernel)
  have undercut : meters.Undercuts [.ofClass "Dial"] (attach "Scaled") (attach "Meter") := by
    decide +kernel
  refine ⟨acyclic_meters, near, (each _ _ _ _ _ near).mpr (by decide +kernel), undercut,
    fun direct => ?_⟩
  have selected := whole.mpr direct (.ofClass "Panel") "attach" _ _ _ far
  exact (each _ _ _ _ _ far).mp selected (attach "Scaled") (by decide) undercut

end Sample

end Componentry
