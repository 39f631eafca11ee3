import Componentry.Proofs.Library.Substitution

/-!
# The order of candidates

A selection narrows the applicable methods three times: to the cheapest, to those with the most
exact matches, and to those that are more specific than each of the others. Each time a method is
compared with all the others, wherever they stand, so the same methods are left when the candidates
come in another order. A method that is listed twice is one of its own rivals, and no method is
preferred because it comes first.

## Main definitions

* `Selection.Alike` — two selections agree, except for the order in which tied methods are listed

## Main results

* `Applicable.perm_rivals` — cost and exact matches leave the same methods in any order
* `Hierarchy.perm_mostSpecific` — so does specificity
* `Hierarchy.select_alike` — a selection does not depend on the order of the applicable methods
* `Hierarchy.resolve_perm` — overload resolution does not depend on the order of the candidates
-/

namespace Componentry

/-- Two selections agree, except for the order in which tied methods are listed. -/
inductive Selection.Alike : Selection → Selection → Prop where
  | none : Alike .none .none
  | best (winner : Applicable) : Alike (.best winner) (.best winner)
  | tied {rivals others : List Applicable} (perm : rivals.Perm others) :
      Alike (.tied rivals) (.tied others)

/-! ### What is left of methods in another order -/

namespace Applicable

variable {ms ns : List Applicable}

/-- Methods that compare well with all methods of a list are the same in any order of the list. -/
theorem perm_filter_all (compares : Applicable → Applicable → Bool) (perm : ms.Perm ns) :
    (ms.filter fun m => ms.all (compares m)).Perm (ns.filter fun m => ns.all (compares m)) := by
  have same : (fun m => ms.all (compares m)) = fun m => ns.all (compares m) := by
    funext m
    exact perm.all_eq
  rw [same]
  exact perm.filter _

theorem perm_rivals (perm : ms.Perm ns) :
    (mostExact (cheapest ms)).Perm (mostExact (cheapest ns)) := by
  apply perm_filter_all fun m o => decide (o.exactness ≤ m.exactness)
  exact perm_filter_all (fun m o => decide (m.cost ≤ o.cost)) perm

end Applicable

namespace Hierarchy

variable {h : Hierarchy} {args : List StaticType} {candidates shuffled : List Method}
  {ms ns viable viable' : List Applicable}

/-- The most specific of two methods in front of others, one comparison at a time. -/
theorem mostSpecific_cons_cons (a b : Applicable) (ms : List Applicable) :
    h.mostSpecific (a :: b :: ms) =
      (if h.moreSpecific a.method b.method && ms.all (fun o => h.moreSpecific a.method o.method)
        then [a] else []) ++
      ((if h.moreSpecific b.method a.method && ms.all (fun o => h.moreSpecific b.method o.method)
        then [b] else []) ++
      (h.mostSpecific ms).filter fun m =>
        h.moreSpecific m.method a.method && h.moreSpecific m.method b.method) := by
  rw [mostSpecific_cons, mostSpecific_cons, List.filter_append, List.filter_filter, List.all_cons]
  congr 2
  by_cases ahead : ms.all fun o => h.moreSpecific b.method o.method
  · simp [ahead, List.filter_cons]
  · simp [ahead]

/-- Which methods are most specific does not depend on their order. -/
theorem perm_mostSpecific (perm : ms.Perm ns) : (h.mostSpecific ms).Perm (h.mostSpecific ns) := by
  induction perm with
  | nil => exact .refl _
  | cons a perm ih =>
    rw [mostSpecific_cons, mostSpecific_cons, perm.all_eq]
    exact (ih.filter _).append_left _
  | swap a b ms =>
    -- The two methods in front exchange their places, and the others are compared with both in any
    -- case.
    have both :
        (fun m : Applicable =>
          h.moreSpecific m.method b.method && h.moreSpecific m.method a.method) =
        fun m => h.moreSpecific m.method a.method && h.moreSpecific m.method b.method := by
      funext m
      exact Bool.and_comm _ _
    rw [mostSpecific_cons_cons, mostSpecific_cons_cons, both, ← List.append_assoc,
      ← List.append_assoc]
    exact List.perm_append_comm.append_right _
  | trans _ _ first second => exact first.trans second

/-! ### Selections -/

/-- A selection of at least one method: the only most specific one of the rivals, or else all of
them. -/
theorem select_cases (some_viable : viable ≠ []) :
    (∃ winner, h.mostSpecific (Applicable.mostExact (Applicable.cheapest viable)) = [winner] ∧
      h.select viable = .best winner) ∨
    (∀ winner, h.mostSpecific (Applicable.mostExact (Applicable.cheapest viable)) ≠ [winner]) ∧
      h.select viable = .tied (Applicable.mostExact (Applicable.cheapest viable)) := by
  have rivals := Applicable.mostExact_ne_nil (Applicable.cheapest_ne_nil some_viable)
  by_cases single : ∃ winner,
    h.mostSpecific (Applicable.mostExact (Applicable.cheapest viable)) = [winner]
  · obtain ⟨winner, only⟩ := single
    exact Or.inl ⟨winner, only, select_eq_best only⟩
  · rw [not_exists] at single
    refine Or.inr ⟨single, ?_⟩
    -- There are rivals, and not exactly one of them is most specific: only the last case is left.
    simp only [select]

/-- A selection does not depend on the order of the applicable methods. -/
theorem select_alike (perm : viable.Perm viable') : (h.select viable).Alike (h.select viable') := by
  by_cases empty : viable = []
  · rw [empty, List.nil_perm] at perm
    rw [empty, perm]
    exact .none
  · have nonempty : viable' ≠ [] := by
      rintro rfl
      exact empty perm.eq_nil
    have specific := perm_mostSpecific (h := h) (Applicable.perm_rivals perm)
    rcases select_cases (h := h) empty with ⟨winner, only, selected⟩ | ⟨several, selected⟩
    · rw [only, List.singleton_perm] at specific
      rw [selected, select_eq_best specific.symm]
      exact .best winner
    · rcases select_cases (h := h) nonempty with ⟨winner, only, -⟩ | ⟨-, selected'⟩
      · rw [only, List.perm_singleton] at specific
        exact absurd specific (several winner)
      · rw [selected, selected']
        exact .tied (Applicable.perm_rivals perm)

/-! ### Overload resolution -/

/-- No method is found exactly if no candidate accepts the arguments. -/
theorem resolve_eq_notFound_iff {owner : StaticType} {name : String} :
    h.resolve owner name candidates args =
      .error (.notFound owner.text name (StaticType.listText args)) ↔
      ∀ m ∈ candidates, ¬ h.Accepts args m := by
  have lacking :
      (∃ error, h.resolve owner name candidates args = .error error ∧ error.isNotFound = true) ↔
      ∀ m ∈ candidates, ¬ h.Accepts args m := isNotFound_resolve_iff
  rw [← lacking]
  constructor
  · intro missing
    exact ⟨_, missing, rfl⟩
  · rintro ⟨error, failed, missing⟩
    -- Of the two errors that there are, the other one is not of this kind.
    unfold resolve at failed ⊢
    split at failed
    · cases failed
    · rfl
    · cases failed
      cases missing

/-- **The order of candidates does not matter.** The candidates for a call come in two orders; some
of them may be listed repeatedly, or have the same parameters. Then the same method is found in both
cases, or none is found in both cases, or both lookups are ambiguous between the same methods,
listed in some order. A method that is found is a candidate that accepts the arguments, and no
candidate accepts them at a lower cost. That none is found means that no candidate accepts the
arguments. -/
theorem resolve_perm (h : Hierarchy) (owner : StaticType) (name : String) (args : List StaticType)
    (candidates shuffled : List Method) (perm : candidates.Perm shuffled) :
    ((∃ m, h.resolve owner name candidates args = .ok m ∧
      h.resolve owner name shuffled args = .ok m) ∨
      (h.resolve owner name candidates args =
        .error (.notFound owner.text name (StaticType.listText args)) ∧
        h.resolve owner name shuffled args =
          .error (.notFound owner.text name (StaticType.listText args))) ∨
      ∃ rivals others, h.select (candidates.filterMap (h.applicable? args)) = .tied rivals ∧
        h.select (shuffled.filterMap (h.applicable? args)) = .tied others ∧ rivals.Perm others ∧
        h.resolve owner name candidates args = .error (.ambiguous owner.text name
          (" and ".intercalate (rivals.map (·.method.signatureText)))) ∧
        h.resolve owner name shuffled args = .error (.ambiguous owner.text name
          (" and ".intercalate (others.map (·.method.signatureText))))) ∧
    (∀ m, h.resolve owner name candidates args = .ok m →
      m ∈ candidates ∧ h.Accepts args m ∧ ∀ o ∈ candidates, ¬ h.Undercuts args o m) ∧
    (h.resolve owner name candidates args =
      .error (.notFound owner.text name (StaticType.listText args)) ↔
      ∀ m ∈ candidates, ¬ h.Accepts args m) := by
  refine ⟨?_, ?_, resolve_eq_notFound_iff⟩
  · have alike := select_alike (h := h) (perm.filterMap (h.applicable? args))
    unfold resolve
    generalize h.select (candidates.filterMap (h.applicable? args)) = first at alike ⊢
    generalize h.select (shuffled.filterMap (h.applicable? args)) = second at alike ⊢
    cases alike with
    | none => exact Or.inr (Or.inl ⟨rfl, rfl⟩)
    | best winner => exact Or.inl ⟨winner.method, rfl, rfl⟩
    | tied perm => exact Or.inr (Or.inr ⟨_, _, rfl, rfl, perm, rfl, rfl⟩)
  · intro m found
    obtain ⟨member, accepted⟩ := of_resolve found
    exact ⟨member, accepted, not_undercuts_of_resolve found⟩

end Hierarchy

namespace Sample

/-- Candidates for a panel, one of which is listed twice. -/
def crowd : List Method := [attach "Scaled", attach "Meter", attach "Labeled", attach "Scaled"]

/-- The same candidates in another order. -/
def shuffledCrowd : List Method :=
  [attach "Labeled", attach "Scaled", attach "Scaled", attach "Meter"]

/-- For a gauge the method that takes a meter is found in both orders. For a dial the cheaper ones
are tied, and they are listed in different orders. -/
theorem attach_shuffled :
    crowd.Perm shuffledCrowd ∧
    meters.resolve (.ofClass "Panel") "attach" crowd [.ofClass "Gauge"] = .ok (attach "Meter") ∧
    meters.resolve (.ofClass "Panel") "attach" shuffledCrowd [.ofClass "Gauge"] =
      .ok (attach "Meter") ∧
    meters.resolve (.ofClass "Panel") "attach" crowd [.ofClass "Dial"] =
      .error (.ambiguous "Panel" "attach" "attach(Scaled) and attach(Labeled) and attach(Scaled)") ∧
    meters.resolve (.ofClass "Panel") "attach" shuffledCrowd [.ofClass "Dial"] =
      .error (.ambiguous "Panel" "attach" "attach(Labeled) and attach(Scaled) and attach(Scaled)") ∧
    ∃ rivals others,
      meters.select (crowd.filterMap (meters.applicable? [.ofClass "Dial"])) = .tied rivals ∧
      meters.select (shuffledCrowd.filterMap (meters.applicable? [.ofClass "Dial"])) =
        .tied others ∧
      rivals.Perm others := by
  have perm : crowd.Perm shuffledCrowd := by decide
  have first : meters.resolve (.ofClass "Panel") "attach" crowd [.ofClass "Gauge"] =
      .ok (attach "Meter") := by
    decide +kernel
  have tied : meters.resolve (.ofClass "Panel") "attach" crowd [.ofClass "Dial"] =
      .error
        (.ambiguous "Panel" "attach" "attach(Scaled) and attach(Labeled) and attach(Scaled)") := by
    decide +kernel
  have second : meters.resolve (.ofClass "Panel") "attach" shuffledCrowd [.ofClass "Gauge"] =
      .ok (attach "Meter") := by
    rcases (Hierarchy.resolve_perm meters (.ofClass "Panel") "attach" [.ofClass "Gauge"] crowd
      shuffledCrowd perm).1 with ⟨m, found, found'⟩ | ⟨missing, -⟩ | ⟨_, _, -, -, -, failed, -⟩
    · rw [found', ← found, first]
    · rw [first] at missing
      cases missing
    · rw [first] at failed
      cases failed
  refine ⟨perm, first, second, tied, by decide +kernel, ?_⟩
  rcases (Hierarchy.resolve_perm meters (.ofClass "Panel") "attach" [.ofClass "Dial"] crowd
    shuffledCrowd perm).1 with ⟨m, found, -⟩ | ⟨missing, -⟩ |
      ⟨rivals, others, selected, selected', same, -, -⟩
  · rw [tied] at found
    cases found
  · rw [tied] at missing
    cases missing
  · exact ⟨rivals, others, selected, selected', same⟩

end Sample

end Componentry
