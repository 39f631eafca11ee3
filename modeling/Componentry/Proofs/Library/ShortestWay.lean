import Componentry.Proofs.Library.Distance
import Mathlib.Data.List.MinMax

/-!
# Search for the shortest way

How far one class is above another can be found by a search of its own, which keeps a score for each
class that it has met: the least number of steps after which it came there. Classes wait in a queue
until they are settled. The next one is always a waiting class of least score. When it is settled,
its direct supertypes are met, one step further on. The search stops when the class it looks for is
next. Of several classes of least score, any may be next.

Whichever it is, the search comes to an end, and the score it ends with is the distance that is read
off the layers. For on a way to a class that is not settled there is a first class that is not, and
that one waits with no more steps than the way has. So the score of a class that is next to be
settled is the length of a shortest way.

## Main definitions

* `Hierarchy.Search` — the state of a search
* `Hierarchy.Step` — a step of a search for a class
* `Hierarchy.Finds` — a search from one class for another has come to its end
* `Hierarchy.Search.Valid` — what holds in every state of a search

## Main results

* `Hierarchy.Search.Valid.isAt_of_isNext` — what is settled next is at its distance
* `Hierarchy.Search.Valid.step`, `Hierarchy.Search.Valid.run` — what a step and a whole search keep
* `Hierarchy.wellFounded_step`, `Hierarchy.exists_finds` — every search comes to its end
* `Hierarchy.Finds.score?_eq` — a search ends with the distance
-/

namespace Componentry.Hierarchy

variable {h : Hierarchy} {a b c d goal : ClassName} {k n : Nat}

/-- The state of a search. -/
structure Search where
  /-- The least number of steps after which a class was met, if it was. -/
  score? : ClassName → Option Nat
  /-- The classes that wait to be settled, with the number of steps after which they were met. -/
  waiting : List (Nat × ClassName)
  settled : List ClassName

namespace Search

variable {s t u : Search}

/-- The beginning of a search from the given class. -/
def start (a : ClassName) : Search where
  score? c := if c = a then some 0 else none
  waiting := [(0, a)]
  settled := []

/-- The class was met after at most the given number of steps. -/
def Knows (s : Search) (n : Nat) (c : ClassName) : Prop := ∃ m ≤ n, s.score? c = some m

instance (s : Search) (n : Nat) (c : ClassName) : Decidable (s.Knows n c) :=
  decidable_of_iff ((s.score? c).any (· ≤ n) = true) (by
    rw [Knows, Option.any_eq_true]
    simp only [decide_eq_true_eq, and_comm])

/-- The class waits, with the given number of steps for its score. -/
def enqueue (s : Search) (n : Nat) (c : ClassName) : Search where
  score? d := if d = c then some n else s.score? d
  waiting := (n, c) :: s.waiting
  settled := s.settled

/-- The class is met after the given number of steps. It waits with this score, unless it is settled
or was met earlier. -/
def meet (n : Nat) (s : Search) (c : ClassName) : Search :=
  if c ∈ s.settled ∨ s.Knows n c then s else s.enqueue n c

/-- Of all that wait, the class was met after the least number of steps. -/
def IsNext (s : Search) (n : Nat) (c : ClassName) : Prop :=
  (n, c) ∈ s.waiting ∧ ∀ e ∈ s.waiting, n ≤ e.1

/-- The state in which the class is no longer in the queue. -/
def leave (s : Search) (n : Nat) (c : ClassName) : Search :=
  { s with waiting := s.waiting.erase (n, c) }

/-- A search for a class is over when nothing waits, or when the class would be settled next. -/
def IsOver (s : Search) (goal : ClassName) : Prop :=
  s.waiting = [] ∨ goal ∉ s.settled ∧ ∃ n, s.IsNext n goal

end Search

/-- The class is settled: it leaves the queue, and its direct supertypes are met one step further
on. -/
def settle (h : Hierarchy) (s : Search) (n : Nat) (c : ClassName) : Search :=
  (h.supers c).foldl (Search.meet (n + 1)) { s.leave n c with settled := c :: s.settled }

/-- A step of a search for a class. -/
inductive Step (h : Hierarchy) (goal : ClassName) : Search → Search → Prop
  /-- A class that waited more than once and has been settled is passed over. -/
  | skip {s : Search} {n : Nat} {c : ClassName} (next : s.IsNext n c) (old : c ∈ s.settled) :
      h.Step goal s (s.leave n c)
  | settle {s : Search} {n : Nat} {c : ClassName} (next : s.IsNext n c) (new : c ∉ s.settled)
      (other : c ≠ goal) : h.Step goal s (h.settle s n c)

/-- A search from the first class for the second ends in the given state. -/
def Finds (h : Hierarchy) (a goal : ClassName) (s : Search) : Prop :=
  Relation.ReflTransGen (h.Step goal) (.start a) s ∧ s.IsOver goal

namespace Search

variable {s t u : Search}

/-! ### Meeting classes -/

/-- From the first state to the second, scores only get less, and those of settled classes stay. -/
structure Lowers (s t : Search) : Prop where
  settled_eq : t.settled = s.settled
  knows : ∀ n c, s.Knows n c → t.Knows n c
  kept : ∀ c ∈ s.settled, t.score? c = s.score? c

theorem Lowers.refl (s : Search) : Lowers s s :=
  ⟨rfl, fun _ _ known => known, fun _ _ => rfl⟩

theorem Lowers.trans (first : Lowers s t) (second : Lowers t u) : Lowers s u where
  settled_eq := second.settled_eq.trans first.settled_eq
  knows n c known := second.knows n c (first.knows n c known)
  kept c old := (second.kept c (first.settled_eq ▸ old)).trans (first.kept c old)

theorem score?_enqueue_self : (s.enqueue n c).score? c = some n := if_pos rfl

theorem score?_enqueue_of_ne (other : d ≠ c) : (s.enqueue n c).score? d = s.score? d :=
  if_neg other

/-- A class that was not known to be as near gets a lesser score when it waits. -/
theorem lowers_enqueue (new : c ∉ s.settled) (unknown : ¬ s.Knows n c) :
    Lowers s (s.enqueue n c) where
  settled_eq := rfl
  knows k d known := by
    obtain ⟨m, le, scored⟩ := known
    rcases eq_or_ne d c with rfl | other
    · have more : ¬ m ≤ n := fun le => unknown ⟨m, le, scored⟩
      exact ⟨n, by omega, score?_enqueue_self⟩
    · exact ⟨m, le, (score?_enqueue_of_ne other).trans scored⟩
  kept d old := by
    apply score?_enqueue_of_ne
    rintro rfl
    exact new old

theorem lowers_meet (s : Search) (n : Nat) (c : ClassName) : Lowers s (s.meet n c) := by
  unfold meet
  split
  · exact .refl s
  · rename_i unknown
    rw [not_or] at unknown
    exact lowers_enqueue unknown.1 unknown.2

/-- What holds of the scores and of the queue in every state of a search from the class `a`. -/
structure Sound (h : Hierarchy) (a : ClassName) (s : Search) : Prop where
  origin : s.score? a = some 0
  reached : ∀ c n, s.score? c = some n → h.ReachesIn n a c
  queued : ∀ c n, s.score? c = some n → c ∉ s.settled → (n, c) ∈ s.waiting
  known : ∀ e ∈ s.waiting, s.Knows e.1 e.2
  final : ∀ c ∈ s.settled, ∃ n, s.score? c = some n ∧ h.IsAt a n c

theorem score?_start : (start a).score? c = some n ↔ c = a ∧ n = 0 := by
  rw [start, Option.ite_none_right_eq_some, Option.some.injEq, eq_comm (a := 0)]

theorem sound_start (h : Hierarchy) (a : ClassName) : Sound h a (start a) where
  origin := score?_start.mpr ⟨rfl, rfl⟩
  reached c n scored := by
    obtain ⟨rfl, rfl⟩ := score?_start.mp scored
    exact rfl
  queued c n scored _ := by
    obtain ⟨rfl, rfl⟩ := score?_start.mp scored
    exact List.mem_singleton_self _
  known e member := by
    obtain rfl := List.mem_singleton.mp member
    exact ⟨0, Nat.le_refl 0, score?_start.mpr ⟨rfl, rfl⟩⟩
  final _ old := absurd old List.not_mem_nil

namespace Sound

/-- A class that can be reached by a number of steps is known once it was met after as many. -/
theorem knows_meet (sound : Sound h a s) (chain : h.ReachesIn n a c) : (s.meet n c).Knows n c := by
  unfold meet
  split
  · rename_i known
    rcases known with old | known
    · -- A settled class is at its distance, which no chain undercuts.
      obtain ⟨m, scored, near⟩ := sound.final c old
      exact ⟨m, Nat.not_lt.mp fun less => near.2 n less chain, scored⟩
    · exact known
  · exact ⟨n, Nat.le_refl n, score?_enqueue_self⟩

theorem enqueue (sound : Sound h a s) (chain : h.ReachesIn n a c) (new : c ∉ s.settled)
    (unknown : ¬ s.Knows n c) : Sound h a (s.enqueue n c) := by
  have lowers := lowers_enqueue new unknown
  have other : a ≠ c := by
    rintro rfl
    exact unknown ⟨0, Nat.zero_le n, sound.origin⟩
  refine ⟨(score?_enqueue_of_ne other).trans sound.origin, ?_, ?_, ?_, ?_⟩
  · intro d m scored
    rcases eq_or_ne d c with rfl | other
    · obtain rfl : n = m := Option.some.inj (score?_enqueue_self.symm.trans scored)
      exact chain
    · exact sound.reached d m ((score?_enqueue_of_ne other).symm.trans scored)
  · intro d m scored new
    rcases eq_or_ne d c with rfl | other
    · obtain rfl : n = m := Option.some.inj (score?_enqueue_self.symm.trans scored)
      exact List.mem_cons_self
    · have earlier := sound.queued d m ((score?_enqueue_of_ne other).symm.trans scored) new
      exact List.mem_cons_of_mem _ earlier
  · intro e member
    rcases List.mem_cons.mp member with rfl | earlier
    · exact ⟨n, Nat.le_refl n, score?_enqueue_self⟩
    · exact lowers.knows _ _ (sound.known e earlier)
  · intro d old
    obtain ⟨m, scored, near⟩ := sound.final d old
    exact ⟨m, (lowers.kept d old).trans scored, near⟩

theorem meet (sound : Sound h a s) (chain : h.ReachesIn n a c) : Sound h a (s.meet n c) := by
  unfold Search.meet
  split
  · exact sound
  · rename_i unknown
    rw [not_or] at unknown
    exact sound.enqueue chain unknown.1 unknown.2

/-- What holds when several classes were met, all after the same number of steps. -/
theorem meetAll (sound : Sound h a s) {cs : List ClassName} (chains : ∀ c ∈ cs, h.ReachesIn n a c) :
    Sound h a (cs.foldl (Search.meet n) s) ∧ Lowers s (cs.foldl (Search.meet n) s) ∧
      ∀ c ∈ cs, (cs.foldl (Search.meet n) s).Knows n c := by
  induction cs generalizing s with
  | nil => exact ⟨sound, .refl s, List.forall_mem_nil _⟩
  | cons c cs ih =>
    rw [List.forall_mem_cons] at chains
    obtain ⟨later, lowers, known⟩ := ih (sound.meet chains.1) chains.2
    refine ⟨later, (s.lowers_meet n c).trans lowers, ?_⟩
    rw [List.forall_mem_cons]
    exact ⟨lowers.knows n c (sound.knows_meet chains.1), known⟩

end Sound

/-! ### Settling classes -/

/-- What holds in every state of a search from the class `a`. -/
structure Valid (h : Hierarchy) (a : ClassName) (s : Search) : Prop extends Sound h a s where
  /-- The direct supertypes of a settled class have been met. -/
  followed : ∀ c ∈ s.settled, ∀ n, s.score? c = some n → ∀ d, h.IsDirect c d → s.Knows (n + 1) d

theorem valid_start (h : Hierarchy) (a : ClassName) : Valid h a (start a) :=
  ⟨sound_start h a, List.forall_mem_nil _⟩

namespace Valid

/-- If a class is not settled, then no chain to it has less steps than all that wait. -/
theorem exists_waiting (valid : Valid h a s) (chain : h.ReachesIn k a c) (new : c ∉ s.settled) :
    ∃ e ∈ s.waiting, e.1 ≤ k := by
  -- Down the chain, as long as the classes on it are not settled.
  induction k generalizing c with
  | zero =>
    obtain rfl : a = c := chain
    exact ⟨(0, a), valid.queued a 0 valid.origin new, Nat.le_refl 0⟩
  | succ k ih =>
    obtain ⟨d, shorter, edge⟩ := chain
    by_cases old : d ∈ s.settled
    · obtain ⟨n, scored, near⟩ := valid.final d old
      have least : n ≤ k := Nat.not_lt.mp fun less => near.2 k less shorter
      obtain ⟨m, le, met⟩ := valid.followed d old n scored c edge
      exact ⟨(m, c), valid.queued c m met new, Nat.le_trans le (Nat.succ_le_succ least)⟩
    · obtain ⟨e, member, le⟩ := ih shorter old
      exact ⟨e, member, Nat.le_succ_of_le le⟩

/-- A class that is not settled and next to be so is known by the least number of steps to it. -/
theorem isAt_of_isNext (valid : Valid h a s) (next : s.IsNext n c) (new : c ∉ s.settled) :
    s.score? c = some n ∧ h.IsAt a n c := by
  have scored : s.score? c = some n := by
    obtain ⟨m, le, scored⟩ := valid.known (n, c) next.1
    have least : n ≤ m := next.2 (m, c) (valid.queued c m scored new)
    rw [scored, Nat.le_antisymm le least]
  refine ⟨scored, valid.reached c n scored, fun k less chain => ?_⟩
  obtain ⟨e, member, le⟩ := valid.exists_waiting chain new
  have least := next.2 e member
  omega

theorem leave (valid : Valid h a s) (old : c ∈ s.settled) : Valid h a (s.leave n c) where
  origin := valid.origin
  reached := valid.reached
  queued d m scored new := by
    have other : (m, d) ≠ (n, c) := by
      intro same
      rw [Prod.mk.injEq] at same
      exact new (same.2 ▸ old)
    exact (List.mem_erase_of_ne other).mpr (valid.queued d m scored new)
  known e member := valid.known e (List.mem_of_mem_erase member)
  final := valid.final
  followed := valid.followed

theorem settle (valid : Valid h a s) (next : s.IsNext n c) (new : c ∉ s.settled) :
    Valid h a (h.settle s n c) := by
  obtain ⟨scored, near⟩ := valid.isAt_of_isNext next new
  -- First the class leaves the queue, and then its direct supertypes are met.
  have sound : Sound h a { s.leave n c with settled := c :: s.settled } := by
    refine ⟨valid.origin, valid.reached, ?_, ?_, ?_⟩
    · intro d m scored fresh
      rw [List.mem_cons, not_or] at fresh
      have other : (m, d) ≠ (n, c) := fun same => fresh.1 (Prod.mk.inj same).2
      exact (List.mem_erase_of_ne other).mpr (valid.queued d m scored fresh.2)
    · exact fun e member => valid.known e (List.mem_of_mem_erase member)
    · exact List.forall_mem_cons.mpr ⟨⟨n, scored, near⟩, valid.final⟩
  have chains : ∀ d ∈ h.supers c, h.ReachesIn (n + 1) a d :=
    fun d above => ⟨c, near.1, (h.mem_supers c d).mp above⟩
  obtain ⟨later, lowers, met⟩ := sound.meetAll chains
  refine ⟨later, fun d old m found e edge => ?_⟩
  rw [Hierarchy.settle, lowers.settled_eq] at old
  rw [Hierarchy.settle, lowers.kept d old] at found
  rcases List.mem_cons.mp old with rfl | earlier
  · obtain rfl : n = m := Option.some.inj (scored.symm.trans found)
    exact met e ((h.mem_supers d e).mpr edge)
  · exact lowers.knows _ _ (valid.followed d earlier m found e edge)

/-- A step of a search keeps what holds. -/
theorem step (valid : Valid h a s) (stepped : h.Step goal s t) : Valid h a t := by
  cases stepped with
  | skip _ old => exact valid.leave old
  | settle next new _ => exact valid.settle next new

/-- A whole search keeps what holds. -/
theorem run (valid : Valid h a s) (steps : Relation.ReflTransGen (h.Step goal) s t) :
    Valid h a t := by
  induction steps with
  | refl => exact valid
  | tail _ stepped ih => exact ih.step stepped

/-- When a search is over, the class that was looked for is known by its distance. -/
theorem score?_eq (valid : Valid h a s) (ended : s.IsOver goal) :
    s.score? goal = h.distance a goal := by
  rcases ended with done | ⟨new, n, next⟩
  · cases scored : s.score? goal with
    | some n =>
      have old : goal ∈ s.settled := by
        by_contra new
        exact List.not_mem_nil (done ▸ valid.queued goal n scored new)
      obtain ⟨m, same, near⟩ := valid.final goal old
      obtain rfl : n = m := Option.some.inj (scored.symm.trans same)
      exact (distance_eq_some_iff.mpr near).symm
    | none =>
      symm
      rw [Option.eq_none_iff_forall_ne_some]
      intro n found
      have new : goal ∉ s.settled := by
        intro old
        obtain ⟨m, same, -⟩ := valid.final goal old
        cases scored.symm.trans same
      obtain ⟨e, member, -⟩ := valid.exists_waiting (distance_eq_some_iff.mp found).1 new
      exact List.not_mem_nil (done ▸ member)
  · obtain ⟨scored, near⟩ := valid.isAt_of_isNext next new
    rw [scored, distance_eq_some_iff.mpr near]

end Valid

/-! ### The end of a search -/

theorem length_waiting_meetAll (n : Nat) (cs : List ClassName) (s : Search) :
    (cs.foldl (meet n) s).waiting.length ≤ s.waiting.length + cs.length := by
  induction cs generalizing s with
  | nil => exact Nat.le_refl _
  | cons c cs ih =>
    have one : (s.meet n c).waiting.length ≤ s.waiting.length + 1 := by
      unfold meet
      split
      · exact Nat.le_succ _
      · exact Nat.le_refl _
    have rest := ih (s.meet n c)
    rw [List.foldl_cons, List.length_cons]
    omega

theorem settled_meetAll (n : Nat) (cs : List ClassName) (s : Search) :
    (cs.foldl (meet n) s).settled = s.settled := by
  induction cs generalizing s with
  | nil => rfl
  | cons c cs ih => rw [List.foldl_cons, ih, (s.lowers_meet n c).settled_eq]

/-- The edges that start at classes that are not settled. -/
def pending (h : Hierarchy) (s : Search) : List (ClassName × ClassName) :=
  h.edges.filter (·.1 ∉ s.settled)

/-- What is left to be done: the classes that wait, and the edges that have not been followed. -/
def effort (h : Hierarchy) (s : Search) : Nat := s.waiting.length + (s.pending h).length

theorem length_waiting_leave (next : s.IsNext n c) :
    (s.leave n c).waiting.length + 1 = s.waiting.length := by
  have fewer : (s.leave n c).waiting.length = s.waiting.length - 1 :=
    List.length_erase_of_mem next.1
  have nonempty := List.length_pos_of_mem next.1
  omega

/-- When a class is settled, the edges that start at it are followed. -/
theorem length_pending_settle (h : Hierarchy) (n : Nat) (new : c ∉ s.settled) :
    (s.pending h).length = (h.supers c).length + ((h.settle s n c).pending h).length := by
  rw [pending, List.length_eq_length_filter_add (·.1 = c), List.filter_filter, List.filter_filter,
    supers, List.length_map, pending, settle, settled_meetAll]
  congr 2
  · apply List.filter_congr
    intro edge _
    by_cases here : edge.1 = c <;> simp [here, new]
  · apply List.filter_congr
    intro edge _
    simp

end Search

/-- Every step of a search brings the end nearer. -/
theorem Step.effort_lt {s t : Search} (stepped : h.Step goal s t) : t.effort h < s.effort h := by
  cases stepped with
  | @skip n c next _ =>
    have fewer := Search.length_waiting_leave next
    have same : (s.leave n c).pending h = s.pending h := rfl
    rw [Search.effort, Search.effort, same]
    omega
  | @settle n c next new _ =>
    -- As many edges are followed as classes are met.
    have fewer := Search.length_waiting_leave next
    have met : (h.settle s n c).waiting.length ≤
        (s.leave n c).waiting.length + (h.supers c).length :=
      Search.length_waiting_meetAll (n + 1) (h.supers c) _
    have followed := Search.length_pending_settle h n new
    rw [Search.effort, Search.effort]
    omega

/-- No search goes on forever. -/
theorem wellFounded_step (h : Hierarchy) (goal : ClassName) :
    WellFounded fun t s => h.Step goal s t :=
  Subrelation.wf Step.effort_lt (measure (Search.effort h)).wf

/-- As long as a search is not over, it can go on. -/
theorem exists_step {s : Search} (running : ¬ s.IsOver goal) : ∃ t, h.Step goal s t := by
  rw [Search.IsOver, not_or] at running
  obtain ⟨⟨n, c⟩, found⟩ : ∃ e, s.waiting.argmin Prod.fst = some e := by
    rw [← Option.isSome_iff_exists, Option.isSome_iff_ne_none, ne_eq, List.argmin_eq_none]
    exact running.1
  have next : s.IsNext n c :=
    ⟨List.argmin_mem found, fun e member => List.le_of_mem_argmin member found⟩
  by_cases old : c ∈ s.settled
  · exact ⟨_, .skip next old⟩
  · refine ⟨_, .settle next old ?_⟩
    rintro rfl
    exact running.2 ⟨old, n, next⟩

/-- From every class, a search for another one comes to its end. -/
theorem exists_finds (h : Hierarchy) (a goal : ClassName) : ∃ s, h.Finds a goal s := by
  have ends (s : Search) : ∃ t, Relation.ReflTransGen (h.Step goal) s t ∧ t.IsOver goal := by
    induction s using (h.wellFounded_step goal).induction with
    | _ s ih =>
      by_cases ended : s.IsOver goal
      · exact ⟨s, .refl, ended⟩
      · obtain ⟨next, stepped⟩ := exists_step (h := h) ended
        obtain ⟨t, steps, done⟩ := ih next stepped
        exact ⟨t, .head stepped steps, done⟩
  exact ends (.start a)

/-- A search ends with the distance of the class that was looked for, if it has one. -/
theorem Finds.score?_eq {s : Search} (found : h.Finds a goal s) :
    s.score? goal = h.distance a goal :=
  ((Search.valid_start h a).run found.1).score?_eq found.2

end Componentry.Hierarchy
