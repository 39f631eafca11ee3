import Componentry.Proofs.Binary.Rounding
import Componentry.Proofs.Bytecode.PoolNames
import Mathlib.Data.Finset.Image

/-!
# What a pool remembers

A pool is filled by additions, one after the other. Constants are added as they are; symbols are
added with a readable name. Whatever the additions were, the pool holds the first of each group of
constants that are the same, in the order in which they came, and the first name that each symbol
was given. So a position in the pool means the same for good, and a symbol that was added with its
name is always shown by that name.

## Main definitions

* `Binary.Datum.Equal`, `Constant.Same` — the same number, and the same constant
* `Pool.Addition`, `Pool.perform`, `Pool.run` — additions, one of them and a sequence of them
  carried out
* `Pool.Remembers` — the constants and names of a pool, told by the additions that it was filled
  with

## Main results

* `Constant.key_eq_iff` — constants have one key exactly if they are the same
* `Constant.collect_eq` — constants without repetitions, the first of each group being kept
* `Pool.constants_run`, `Pool.name?_run` — constants and names after a sequence of additions
* `Pool.remembers_run` — what a pool holds after any sequence of additions
-/

namespace Componentry

/-! ### The same number -/

namespace Binary

/-- A finite datum in units of its format. -/
def signedUnits (negative : Bool) (significand scale : Nat) : Int :=
  if negative then -(significand * 2 ^ scale : Nat) else (significand * 2 ^ scale : Nat)

/-- The data of one format stand for the same number. Both zeros are one number, and whatever is not
a number counts as one too. -/
def Datum.Equal : Datum → Datum → Prop
  | .nan, .nan => True
  | .infinite m, .infinite n => m = n
  | .finite m s e, .finite n t d => signedUnits m s e = signedUnits n t d
  | _, _ => False

theorem Datum.Equal.refl (d : Datum) : d.Equal d := by
  cases d with
  | nan => trivial
  | infinite _ | finite _ _ _ => rfl

theorem signedUnits_zero (negative : Bool) (e : Nat) : signedUnits negative 0 e = 0 := by
  simp [signedUnits]

/-- Numbers other than zero have their signs and their magnitudes in common, if they are the
same. -/
theorem of_signedUnits_eq {m n : Bool} {s e t d : Nat} (nonzero : s ≠ 0)
    (same : signedUnits m s e = signedUnits n t d) : m = n ∧ s * 2 ^ e = t * 2 ^ d := by
  have positive : 0 < s * 2 ^ e := Nat.mul_pos (Nat.pos_of_ne_zero nonzero) (Nat.two_pow_pos e)
  unfold signedUnits at same
  -- What is left is about signs and two magnitudes, the first of which is not zero.
  generalize s * 2 ^ e = x at *
  generalize t * 2 ^ d = y at *
  cases m <;> cases n <;> simp only [if_true, if_false, Bool.false_eq_true] at same <;>
    simp <;> omega

namespace Format

variable {f : Format} {a b : Nat}

/-- Two patterns have one key exactly if they stand for the same number. -/
theorem key_eq_iff (odd : f.decode f.quietNaN = .nan) (zero : f.decode 0 = .finite false 0 0)
    (small : a < 2 * f.signBit) (small' : b < 2 * f.signBit) :
    f.key a = f.key b ↔ (f.decode a).Equal (f.decode b) := by
  constructor
  · intro same
    rcases f.key_eq_cases odd zero same with rfl | ⟨readA, readB⟩ | ⟨m, e, n, d, readA, readB⟩
    · exact .refl _
    · rw [readA, readB]
      trivial
    · rw [readA, readB, Datum.Equal, signedUnits_zero, signedUnits_zero]
  · intro equal
    cases readA : f.decode a <;> cases readB : f.decode b <;> rw [readA, readB] at equal <;>
      simp only [Datum.Equal] at equal
    case nan.nan => simp [key, readA, readB]
    case infinite.infinite m n =>
      rw [f.of_decode_infinite small readA, f.of_decode_infinite small' readB, equal]
    case finite.finite m s e n t d =>
      by_cases null : s = 0
      · -- The other number is a zero as well, whatever its sign.
        have null' : t = 0 := by
          by_contra nonzero
          have magnitudes := (of_signedUnits_eq nonzero equal.symm).2
          simp [null, nonzero] at magnitudes
        simp [key, readA, readB, null, null']
      · obtain ⟨rfl, magnitudes⟩ := of_signedUnits_eq null equal
        obtain ⟨normalA, patternA⟩ := f.of_decode_finite small readA
        obtain ⟨normalB, patternB⟩ := f.of_decode_finite small' readB
        obtain ⟨rfl, rfl⟩ := normalA.unique normalB magnitudes
        rw [patternA, patternB]

end Format

end Binary

theorem Binary32.key_eq_iff {x y : Binary32} : x.key = y.key ↔ x.datum.Equal y.datum :=
  Binary.Format.key_eq_iff (by decide +kernel) (by decide +kernel) x.bits_lt y.bits_lt

theorem Binary64.key_eq_iff {x y : Binary64} : x.key = y.key ↔ x.datum.Equal y.datum :=
  Binary.Format.key_eq_iff (by decide +kernel) (by decide +kernel) x.bits_lt y.bits_lt

/-! ### The same constant -/

namespace Constant

/-- The constants are of one kind and have the same value; floating-point numbers are compared as
numbers. -/
def Same : Constant → Constant → Prop
  | int m, int n => m = n
  | single x, single y => x.datum.Equal y.datum
  | double x, double y => x.datum.Equal y.datum
  | string s, string t => s = t
  | symbol g, symbol h => g = h
  | _, _ => False

/-- Constants have one key exactly if they are the same. -/
theorem key_eq_iff {c d : Constant} : c.key = d.key ↔ c.Same d := by
  cases c <;> cases d <;> simp only [Same]
  case int.int m n => simp [key, Int64.toInt_inj]
  case single.single x y => simp [key, ← Binary32.key_eq_iff]
  case double.double x y => simp [key, ← Binary64.key_eq_iff]
  case string.string s t => simp [key]
  case symbol.symbol g h =>
    constructor
    · intro same
      exact symbol.inj (eq_symbol_of_key same)
    · rintro rfl
      rfl
  all_goals simp [key]

instance : DecidableRel Same := fun _ _ => decidable_of_iff _ key_eq_iff

/-- Being the same is an equivalence. -/
def setoid : Setoid Constant where
  r := Same
  iseqv := {
    refl := fun _ => key_eq_iff.mp rfl
    symm := fun same => key_eq_iff.mp (key_eq_iff.mpr same).symm
    trans := fun first second =>
      key_eq_iff.mp ((key_eq_iff.mpr first).trans (key_eq_iff.mpr second)) }

instance (c d : Constant) : Decidable (setoid.r c d) := inferInstanceAs (Decidable (c.Same d))

/-- The number of different constants in a list. -/
def countDifferent (cs : List Constant) : Nat := (cs.map (Quotient.mk setoid)).toFinset.card

theorem countDifferent_eq (cs : List Constant) :
    countDifferent cs = (cs.map key).toFinset.card := by
  -- Keys are in one-to-one correspondence with groups of constants that are the same.
  let keyOf : Quotient setoid → Key := Quotient.lift key fun _ _ same => key_eq_iff.mpr same
  have injective : Function.Injective keyOf := by
    intro x y
    refine Quotient.inductionOn₂ x y ?_
    intro c d equal
    exact Quotient.sound (key_eq_iff.mp equal)
  have image : ((cs.map (Quotient.mk setoid)).toFinset).image keyOf = (cs.map key).toFinset := by
    ext k
    simp [keyOf]
  rw [countDifferent, ← image, Finset.card_image_of_injective _ injective]

/-- What is kept behind given constants are the first of each group of constants that are the same
as none of them. -/
theorem collect_eq (held cs : List Constant) :
    collect held cs = held ++
      (cs.filter fun c => c.key ∉ held.map key).eraseDupsBy fun c d => decide (c.Same d) := by
  induction cs generalizing held with
  | nil => simp
  | cons c cs ih =>
    have step : collect held (c :: cs) = collect (keep held c) cs := rfl
    rw [step, ih]
    -- The first constant is dropped on both sides if it is held already; else it is kept, and later
    -- ones that are the same are dropped because of it.
    by_cases present : c.key ∈ held.map key
    · rw [keep, if_pos present, List.filter_cons_of_neg (by simpa using present)]
    · rw [keep, if_neg present, List.filter_cons_of_pos (by simpa using present),
        List.eraseDupsBy_cons, List.filter_filter, List.append_assoc, List.singleton_append]
      have rest (d : Constant) : decide (d.key ∉ (held ++ [c]).map key) =
          (decide (decide (d.Same c) = false) && decide (d.key ∉ held.map key)) := by
        rw [Bool.eq_iff_iff]
        simp [← key_eq_iff, and_comm]
      simp only [rest]

end Constant

/-! ### Additions -/

open Constant

namespace Pool

/-- An addition to a pool. Numbers, strings and bare fingerprints are added as the constants that
they are. -/
inductive Addition where
  | constant (value : Constant)
  | symbol (value : Fingerprint) (name : String)
  deriving DecidableEq

/-- The constant that is added. -/
def Addition.value : Addition → Constant
  | constant c => c
  | symbol h _ => .symbol h

/-- The symbol that is named, with its name. -/
def Addition.naming? : Addition → Option (Fingerprint × String)
  | constant _ => none
  | symbol h name => some (h, name)

/-- The pool after an addition, with the position that is given for it. -/
def perform (p : Pool) : Addition → Pool × Nat
  | .constant c => p.add c
  | .symbol h name => p.addSymbol h name

/-- The pool after a sequence of additions. -/
def run (p : Pool) (as : List Addition) : Pool := as.foldl (fun q a => (q.perform a).1) p

variable {p : Pool} {a : Addition} {h : Fingerprint} {i : Nat}

theorem run_append (p : Pool) (as later : List Addition) :
    p.run (as ++ later) = (p.run as).run later :=
  List.foldl_append

theorem run_cons (p : Pool) (a : Addition) (later : List Addition) :
    p.run (a :: later) = (p.perform a).1.run later :=
  rfl

/-- What one addition does to the constants. -/
theorem constants_perform (p : Pool) (a : Addition) :
    (p.perform a).1.constants = keep p.constants a.value := by
  cases a with
  | constant c => exact p.constants_add c
  | symbol h name => exact p.constants_addSymbol h name

theorem constants_run (p : Pool) (as : List Addition) :
    (p.run as).constants = collect p.constants (as.map Addition.value) := by
  induction as generalizing p with
  | nil => rfl
  | cons a as ih =>
    rw [run_cons, ih, constants_perform, List.map_cons, collect, collect, List.foldl_cons]

/-- What one addition does to the names. -/
theorem name?_perform (p : Pool) (a : Addition) (h : Fingerprint) :
    (p.perform a).1.name? h = (p.name? h).or (firstName? ([a].filterMap Addition.naming?) h) := by
  cases a with
  | constant c => exact (p.name?_add c h).trans Option.or_none.symm
  | symbol g name => exact p.name?_addSymbol g name h

theorem name?_run (p : Pool) (as : List Addition) (h : Fingerprint) :
    (p.run as).name? h = (p.name? h).or (firstName? (as.filterMap Addition.naming?) h) := by
  induction as generalizing p with
  | nil => exact Option.or_none.symm
  | cons a as ih =>
    rw [run_cons, ih, name?_perform, Option.or_assoc, ← firstName?_append, ← List.filterMap_append,
      List.singleton_append]

theorem extends_perform (p : Pool) (a : Addition) : p.Extends (p.perform a).1 := by
  cases a with
  | constant c => exact p.extends_add c
  | symbol h name => exact p.extends_addSymbol h name

theorem extends_run (p : Pool) (as : List Addition) : p.Extends (p.run as) := by
  induction as generalizing p with
  | nil => exact .refl p
  | cons a as ih => exact (p.extends_perform a).trans (ih _)

/-- What stands in the pool after an addition stays there. -/
theorem get?_run_of_perform {before : List Addition} {c : Constant}
    (found : ((p.run before).perform a).1.get? i = some c) (later : List Addition) :
    (p.run (before ++ a :: later)).get? i = some c := by
  rw [run_append]
  exact extends_run _ later i c found

/-- The position that is given for an addition holds the same constant as the one that is added. -/
theorem exists_get?_perform (p : Pool) (a : Addition) :
    ∃ c, c.Same a.value ∧ (p.perform a).1.get? (p.perform a).2 = some c := by
  have keys : ((p.perform a).1.get? (p.perform a).2).map Constant.key = some a.value.key := by
    cases a with
    | constant c => exact p.key_get?_add c
    | symbol h name => exact (p.nameSymbol h name).key_get?_add (.symbol h)
  obtain ⟨c, found, same⟩ := Option.map_eq_some_iff.mp keys
  exact ⟨c, Constant.key_eq_iff.mp same, found⟩

/-- The pool was filled with the given additions: its constants and names can be told from them. -/
structure Remembers (p : Pool) (as : List Addition) : Prop where
  /-- No two constants are the same. -/
  distinct : p.constants.Pairwise fun c d => ¬ c.Same d
  /-- The constants are those that were added, in order, without any that is the same as an earlier
  one. -/
  constants_eq : p.constants = (as.map Addition.value).eraseDupsBy fun c d => decide (c.Same d)
  /-- There are as many constants as different ones were added. -/
  size_eq : p.size = countDifferent (as.map Addition.value)
  /-- A symbol has the name that it was first added with. -/
  name?_eq : ∀ h, p.name? h = firstName? (as.filterMap Addition.naming?) h

theorem remembers (as : List Addition) : (empty.run as).Remembers as := by
  have collected : (empty.run as).constants = collect [] (as.map Addition.value) :=
    constants_run empty as
  have fresh : (([] : List Constant).map key).Nodup := List.nodup_nil
  refine ⟨?_, ?_, ?_, ?_⟩
  · have keys : (collect [] (as.map Addition.value)).Pairwise fun c d => c.key ≠ d.key :=
      List.pairwise_map.mp (nodup_collect fresh _)
    rw [collected]
    exact keys.imp fun apart same => apart (key_eq_iff.mpr same)
  · rw [collected, collect_eq]
    simp
  · rw [← length_constants, collected, length_collect fresh, countDifferent_eq, List.nil_append]
  · intro h
    exact name?_run empty as h

/-- A symbol that has a name is among the constants. -/
theorem mem_keys_of_name (as : List Addition) (named : ((empty.run as).name? h).isSome) :
    (Constant.symbol h).key ∈ (empty.run as).constants.map key := by
  rw [(remembers as).name?_eq, isSome_firstName?_iff, List.mem_map] at named
  obtain ⟨⟨g, name⟩, given, rfl⟩ := named
  obtain ⟨a, member, naming⟩ := List.mem_filterMap.mp given
  have added : a.value = .symbol g := by
    cases a with
    | constant c => cases naming
    | symbol g' name' =>
      cases naming
      rfl
  rw [constants_run, mem_collect, ← added]
  exact List.mem_map_of_mem (List.mem_append_right _ (List.mem_map_of_mem member))

/-- A symbol that takes a new position had no name before. -/
theorem name?_eq_none_of_new {before : List Addition} {name : String}
    (new : (empty.run before).get? ((empty.run before).perform (.symbol h name)).2 = none) :
    (empty.run before).name? h = none := by
  by_contra named
  -- Otherwise the symbol was there, and adding it does not change the constants.
  have present := mem_keys_of_name before (Option.isSome_iff_ne_none.mpr named)
  obtain ⟨c, -, found⟩ := (empty.run before).exists_get?_perform (.symbol h name)
  rw [← getElem?_constants, constants_perform, Addition.value, keep, if_pos present,
    getElem?_constants, new] at found
  cases found

/-- **What a pool remembers.** Let a pool be filled by additions in any order, from empty. It then
holds the first of each group of constants that are the same, in the order in which they came, and
as many as there are different ones; no two of its constants are the same, and each symbol has the
name that it was first added with. The position that is given for an addition holds the same
constant as the one that was added, then and whatever is added later. A symbol that is given a new
position together with a name is shown there by this name, then and whatever is added later. -/
theorem remembers_run :
    (∀ as, (empty.run as).Remembers as) ∧
    (∀ before a, ∃ c, c.Same a.value ∧
      ∀ later, (empty.run (before ++ a :: later)).get? ((empty.run before).perform a).2 = some c) ∧
    ∀ before h name,
      (empty.run before).get? ((empty.run before).perform (.symbol h name)).2 = none →
      ∀ later, (empty.run (before ++ .symbol h name :: later)).describe
        ((empty.run before).perform (.symbol h name)).2 = name := by
  refine ⟨remembers, ?_, ?_⟩
  · intro before a
    obtain ⟨c, same, found⟩ := (empty.run before).exists_get?_perform a
    exact ⟨c, same, get?_run_of_perform found⟩
  · intro before h name new later
    have taken : ((empty.run before).perform (.symbol h name)).1.get?
        ((empty.run before).perform (.symbol h name)).2 = some (.symbol h) :=
      (empty.run before).get?_addSymbol h name
    have shown : (empty.run (before ++ .symbol h name :: later)).name? h = some name := by
      rw [run_append, name?_run, name?_eq_none_of_new new]
      simp [Addition.naming?, firstName?]
    simp only [describe, get?_run_of_perform taken later, shown, Option.getD_some]

end Pool

namespace Sample

/-- Both zeros, two patterns that are no numbers, a label that is added first without and then with
its name, and a number. -/
def fillings : List Pool.Addition :=
  [.constant (.double ⟨0⟩), .constant (.double ⟨0x8000000000000000⟩),
    .constant (.single ⟨0x7fc00000⟩), .constant (.single ⟨0xffc00001⟩),
    .constant (.symbol (.ofName "JLabel")), .symbol (.ofName "JLabel") "JLabel",
    .constant (.int 100)]

/-- The pool holds four of the seven constants. A window that is added now takes a new position and
is shown by its name from then on, whereas the text that is shown for the label was another one
before the label had a name. -/
theorem fillings_remembered :
    (Pool.empty.run fillings).size = 4 ∧
    Constant.countDifferent (fillings.map Pool.Addition.value) = 4 ∧
    (Pool.empty.run fillings).get?
      ((Pool.empty.run fillings).perform (.symbol (.ofName "JFrame") "JFrame")).2 = none ∧
    (∀ later,
      (Pool.empty.run (fillings ++ .symbol (.ofName "JFrame") "JFrame" :: later)).describe 4 =
        "JFrame") ∧
    (Pool.empty.run (fillings.take 5)).describe 2 ≠ (Pool.empty.run fillings).describe 2 := by
  obtain ⟨remembers, -, shown⟩ := Pool.remembers_run
  have four : (Pool.empty.run fillings).size = 4 := by decide +kernel
  have new : (Pool.empty.run fillings).get?
      ((Pool.empty.run fillings).perform (.symbol (.ofName "JFrame") "JFrame")).2 = none := by
    decide +kernel
  have position :
      ((Pool.empty.run fillings).perform (.symbol (.ofName "JFrame") "JFrame")).2 = 4 := by
    decide +kernel
  refine ⟨four, (remembers fillings).size_eq.symm.trans four, new, ?_, by decide +kernel⟩
  intro later
  rw [← position]
  exact shown fillings _ _ new later

end Sample

end Componentry
