import Componentry.Proofs.Bytecode.Decoding
import Mathlib.Data.List.Dedup
import Mathlib.Data.Finset.Card

/-!
# How a pool grows

Instructions add what they refer to to the pool, in the order in which they are written. A pool that
starts empty so holds the first of each group of constants that are the same, and its size is the
number of the groups.

## Main definitions

* `Constant.collect` — constants without those that are the same as an earlier one
* `Instruction.constants`, `Instruction.allConstants` — the constants that instructions refer to

## Main results

* `Constant.find?_collect` — of constants that are the same, the first is kept
* `Constant.length_collect` — as many are kept as there are different ones
* `Assembly.constants_run` — the pool of a procedure collects the constants of its instructions
-/

namespace Componentry

namespace Constant

variable {held cs ds : List Constant} {c : Constant}

/-- The constants with one more, unless they have it already. -/
def keep (held : List Constant) (c : Constant) : List Constant :=
  if c.key ∈ held.map key then held else held ++ [c]

/-- The constants with further ones in order, each unless there is one before that is the same. -/
def collect (held cs : List Constant) : List Constant := cs.foldl keep held

@[simp] theorem collect_nil (held : List Constant) : collect held [] = held := rfl

theorem collect_append (held cs ds : List Constant) :
    collect held (cs ++ ds) = collect (collect held cs) ds :=
  List.foldl_append

/-- The first constant with a key is not changed by what is kept after it. -/
theorem find?_keep (held : List Constant) (c : Constant) (k : Key) :
    (keep held c).find? (·.key = k) = (held ++ [c]).find? (·.key = k) := by
  unfold keep
  split
  · rename_i present
    rw [List.find?_append]
    by_cases same : c.key = k
    · -- There is one with this key already, and it is found first.
      obtain ⟨d, inside, key_eq⟩ := List.mem_map.mp present
      have found : (held.find? (·.key = k)).isSome := by
        rw [List.find?_isSome]
        exact ⟨d, inside, by simp [key_eq, same]⟩
      obtain ⟨first, first_eq⟩ := Option.isSome_iff_exists.mp found
      rw [first_eq]
      rfl
    · simp [same]
  · rfl

/-- Of constants that are the same, the first is kept. -/
theorem find?_collect (held cs : List Constant) (k : Key) :
    (collect held cs).find? (·.key = k) = (held ++ cs).find? (·.key = k) := by
  induction cs generalizing held with
  | nil => rw [collect_nil, List.append_nil]
  | cons c cs ih =>
    calc (collect (keep held c) cs).find? (·.key = k)
        = (keep held c ++ cs).find? (·.key = k) := ih _
      _ = (held ++ [c] ++ cs).find? (·.key = k) := by
          rw [List.find?_append, find?_keep, ← List.find?_append]
      _ = (held ++ c :: cs).find? (·.key = k) := by simp

theorem nodup_keep (distinct : (held.map key).Nodup) (c : Constant) :
    ((keep held c).map key).Nodup := by
  unfold keep
  split
  · exact distinct
  · rename_i fresh
    rw [List.map_append, List.nodup_append]
    refine ⟨distinct, List.nodup_singleton _, ?_⟩
    rintro k inside _ last rfl
    rw [List.map_singleton, List.mem_singleton] at last
    exact fresh (last ▸ inside)

theorem mem_keep (held : List Constant) (c : Constant) (k : Key) :
    k ∈ (keep held c).map key ↔ k ∈ (held ++ [c]).map key := by
  unfold keep
  split
  · rename_i present
    simp only [List.map_append, List.mem_append, List.map_singleton, List.mem_singleton]
    refine ⟨Or.inl, ?_⟩
    rintro (inside | rfl)
    · exact inside
    · exact present
  · rfl

/-- No two of the constants that are kept are the same. -/
theorem nodup_collect (distinct : (held.map key).Nodup) (cs : List Constant) :
    ((collect held cs).map key).Nodup := by
  induction cs generalizing held with
  | nil => exact distinct
  | cons c cs ih => exact ih (nodup_keep distinct c)

theorem mem_collect (held cs : List Constant) (k : Key) :
    k ∈ (collect held cs).map key ↔ k ∈ (held ++ cs).map key := by
  induction cs generalizing held with
  | nil => rw [collect_nil, List.append_nil]
  | cons c cs ih =>
    calc k ∈ (collect (keep held c) cs).map key
        ↔ k ∈ (keep held c ++ cs).map key := ih _
      _ ↔ k ∈ (held ++ [c] ++ cs).map key := by
          rw [List.map_append, List.mem_append, mem_keep, ← List.mem_append, ← List.map_append]
      _ ↔ k ∈ (held ++ c :: cs).map key := by simp

/-- As many constants are kept as there are different ones. -/
theorem length_collect (distinct : (held.map key).Nodup) (cs : List Constant) :
    (collect held cs).length = ((held ++ cs).map key).toFinset.card := by
  have same : ((collect held cs).map key).toFinset = ((held ++ cs).map key).toFinset := by
    ext k
    rw [List.mem_toFinset, List.mem_toFinset, mem_collect]
  rw [← same, List.toFinset_card_of_nodup (nodup_collect distinct cs), List.length_map]

theorem length_le_keep (held : List Constant) (c : Constant) :
    held.length ≤ (keep held c).length := by
  unfold keep
  split <;> simp

/-- Nothing that was kept is lost. -/
theorem length_le_collect (held cs : List Constant) : held.length ≤ (collect held cs).length := by
  induction cs generalizing held with
  | nil => exact Nat.le_refl _
  | cons c cs ih => exact Nat.le_trans (length_le_keep held c) (ih _)

end Constant

open Constant

/-! ### Pools -/

namespace Pool

variable {p : Pool} {c : Constant}

/-- The constants of a pool in order. -/
def constants (p : Pool) : List Constant := p.entries.toList

@[simp] theorem constants_empty : empty.constants = [] := rfl

@[simp] theorem length_constants (p : Pool) : p.constants.length = p.size := by
  simp [constants, size]

theorem getElem?_constants (p : Pool) (i : Nat) : p.constants[i]? = p.get? i := by
  simp [constants, get?]

@[simp] theorem constants_nameSymbol (p : Pool) (h : Fingerprint) (name : String) :
    (p.nameSymbol h name).constants = p.constants := rfl

/-- The index finds exactly the keys of the constants. -/
theorem positions_eq_none_iff : p.positions[c.key]? = none ↔ c.key ∉ p.constants.map key := by
  rw [Option.eq_none_iff_forall_ne_some]
  simp [p.positions_eq_some_iff, List.mem_iff_getElem?, constants]

/-- Adding a constant keeps it unless it is there. -/
theorem constants_add (p : Pool) (c : Constant) : (p.add c).1.constants = keep p.constants c := by
  unfold add
  split
  · rename_i i found
    have present : c.key ∈ p.constants.map key := by
      by_contra absent
      rw [positions_eq_none_iff.mpr absent] at found
      cases found
    rw [keep, if_pos present]
  · rename_i absent
    rw [keep, if_neg (positions_eq_none_iff.mp absent)]
    simp [constants, push]

theorem constants_addSymbol (p : Pool) (h : Fingerprint) (name : String) :
    (p.addSymbol h name).1.constants = keep p.constants (.symbol h) := by
  rw [addSymbol, constants_add, constants_nameSymbol]

/-- The constant held in place of a given one is the first that is the same. -/
theorem held_eq_find? (p : Pool) (c : Constant) :
    p.held c = (p.constants.find? (·.key = c.key)).getD c := by
  cases found : p.constants.find? (·.key = c.key) with
  | none =>
    have absent : c.key ∉ p.constants.map key := by
      intro present
      obtain ⟨d, inside, same⟩ := List.mem_map.mp present
      simpa [same] using List.find?_eq_none.mp found d inside
    simp [held, positions_eq_none_iff.mpr absent]
  | some d =>
    obtain ⟨i, inside⟩ := List.mem_iff_getElem?.mp (List.mem_of_find?_eq_some found)
    rw [getElem?_constants] at inside
    exact held_eq inside (by simpa using List.find?_some found)

end Pool

/-! ### Instructions -/

namespace Instruction

/-- The constants that an instruction refers to, in the order in which they are added to the pool.
Zero and one have instructions of their own. -/
def constants : Instruction → List Constant
  | load c => [c]
  | pushInt n => if n = 0 ∨ n = 1 then [] else [.int n]
  | setStatic field _ => [.symbol field]
  | call procedure _ _ => [.symbol procedure]
  | callMethod m => [.symbol m.fingerprint]
  | new k => [.symbol k.owner.fingerprint, .symbol k.fingerprint]
  | pushNull | pushBool _ | pop | dup | getLocal _ | setLocal _ | returnVoid => []

/-- The constants that instructions refer to, in order. -/
def allConstants (is : List Instruction) : List Constant := is.flatMap constants

@[simp] theorem allConstants_nil : allConstants [] = [] := rfl

@[simp] theorem allConstants_cons (i : Instruction) (is : List Instruction) :
    allConstants (i :: is) = i.constants ++ allConstants is := rfl

@[simp] theorem allConstants_append (is js : List Instruction) :
    allConstants (is ++ js) = allConstants is ++ allConstants js :=
  List.flatMap_append

/-- An instruction that is written adds its constants to the pool. -/
theorem constants_encode {pool pool' : Pool} {i : Instruction} {bytes : List UInt8}
    (encoded : i.encode pool = (pool', .ok bytes)) :
    pool'.constants = collect pool.constants i.constants := by
  have grown : (i.encode pool).1 = pool' := congrArg Prod.fst encoded
  cases i with
  | load c =>
    rw [← grown]
    exact pool.constants_add c
  | pushInt n =>
    rw [← grown]
    simp only [encode]
    split
    · rename_i zero
      simp [constants, zero]
    · rename_i nonzero
      split
      · rename_i one
        simp [constants, one]
      · rename_i other
        simp only [constants, nonzero, other, or_self, if_false]
        exact pool.constants_add (.int n)
  | pushNull | pushBool _ | pop | dup | returnVoid | getLocal _ | setLocal _ =>
    rw [← grown]
    rfl
  | setStatic field name | call procedure name args | callMethod m =>
    rw [← grown]
    exact pool.constants_addSymbol _ _
  | new k =>
    -- The pool grows twice, because the symbol of the class fits.
    obtain ⟨rfl, -⟩ := encodeNew_eq_ok encoded
    rw [Pool.constants_addSymbol, Pool.constants_addSymbol]
    rfl

end Instruction

namespace Assembly

theorem constants_step {a b : Assembly} {d : Directive} (h : a.step d = .ok b) :
    b.emitter.pool.constants =
      collect a.emitter.pool.constants (Instruction.allConstants (Directive.instructions [d])) := by
  cases d with
  | line n | enter name type | leave slot =>
    cases h
    rfl
  | abort failure => cases h
  | instruction i =>
    simp only [step, Emitter.emit] at h
    cases encoded : i.encode a.emitter.pool with
    | mk pool result =>
      rw [encoded] at h
      cases result with
      | error failure => cases h
      | ok bytes =>
        cases h
        simpa [Emitter.write] using Instruction.constants_encode encoded

/-- The pool of a procedure collects the constants of its instructions. -/
theorem constants_run {ds : List Directive} {a b : Assembly} (h : a.run ds = .ok b) :
    b.emitter.pool.constants =
      collect a.emitter.pool.constants (Instruction.allConstants (Directive.instructions ds)) := by
  induction ds generalizing a with
  | nil =>
    cases h
    rfl
  | cons d ds ih =>
    rw [run] at h
    split at h
    · rename_i next stepped
      rw [ih h, constants_step stepped, ← collect_append, ← Instruction.allConstants_append,
        ← Directive.instructions_append, List.singleton_append]
    · cases h

end Assembly

end Componentry
