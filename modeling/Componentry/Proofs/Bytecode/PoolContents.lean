import Componentry.Bytecode.Pool

/-!
# What a pool holds

A pool only grows, and a position in it stands for the same constant for good. Of constants that are
the same it holds the one that was added first; for all constants but floating-point numbers that is
the constant itself.

## Main definitions

* `Pool.Extends` — one pool has all constants of another, at the same positions
* `Pool.held` — the constant that a pool holds in place of a given one

## Main results

* `Pool.key_held` — the constant that is held is the same as the given one
* `Pool.get?_addSymbol` — the position given for a symbol leads to it
-/

namespace Componentry

namespace Constant

/-- A constant that is the same as a whole number is that number. -/
theorem eq_int_of_key {c : Constant} {n : Int64} (h : c.key = (int n).key) : c = int n := by
  cases c with
  | int m => simpa [key, Int64.toInt_inj] using h
  | single _ | double _ | string _ | symbol _ => simp [key] at h

/-- A constant that is the same as a string is that string. -/
theorem eq_string_of_key {c : Constant} {s : String} (h : c.key = (string s).key) :
    c = string s := by
  cases c with
  | string t => simpa [key] using h
  | int _ | single _ | double _ | symbol _ => simp [key] at h

/-- A constant that is the same as a symbol is that symbol. -/
theorem eq_symbol_of_key {c : Constant} {h : Fingerprint} (same : c.key = (symbol h).key) :
    c = symbol h := by
  cases c with
  | symbol g =>
    have numbers : (g.value.toNat : Int) = h.value.toNat := congrArg (·.2.1) same
    have values : g.value = h.value := UInt64.toNat_inj.mp (Int.natCast_inj.mp numbers)
    exact congrArg (fun v => symbol ⟨v⟩) values
  | int _ | single _ | double _ | string _ => simp [key] at same

end Constant

namespace Pool

variable {p q : Pool} {c d : Constant} {i : Nat}

/-- The second pool has all constants of the first, at the same positions. -/
def Extends (p q : Pool) : Prop := ∀ i c, p.get? i = some c → q.get? i = some c

theorem Extends.refl (p : Pool) : p.Extends p := fun _ _ found => found

theorem Extends.trans {r : Pool} (first : p.Extends q) (second : q.Extends r) : p.Extends r :=
  fun i c found => second i c (first i c found)

/-- Adding a constant keeps those that were there. -/
theorem extends_add (p : Pool) (c : Constant) : p.Extends (p.add c).1 := by
  intro i d found
  have inside : i < p.size := by
    rcases Nat.lt_or_ge i p.size with inside | outside
    · exact inside
    · rw [get?, Array.getElem?_eq_none outside] at found
      cases found
  rw [p.get?_add_of_lt c inside, found]

/-- Adding a symbol keeps the constants that were there. -/
theorem extends_addSymbol (p : Pool) (h : Fingerprint) (name : String) :
    p.Extends (p.addSymbol h name).1 :=
  fun i c found => (p.nameSymbol h name).extends_add (.symbol h) i c found

/-- The constant that the pool holds in place of a given one, or the given one if it has none. -/
def held (p : Pool) (c : Constant) : Constant := ((p.positions[c.key]?).bind p.get?).getD c

theorem held_eq (found : p.get? i = some d) (same : d.key = c.key) : p.held c = d := by
  have position : p.positions[c.key]? = some i := by
    rw [p.positions_eq_some_iff, ← get?, found, ← same]
    rfl
  simp [held, position, found]

/-- The pool holds the same constant in place of any given one. -/
theorem key_held (p : Pool) (c : Constant) : (p.held c).key = c.key := by
  cases position : p.positions[c.key]? with
  | none => simp [held, position]
  | some i =>
    have same := (p.positions_eq_some_iff c.key i).mp position
    rw [← get?] at same
    obtain ⟨d, found, key_eq⟩ := Option.map_eq_some_iff.mp same
    rw [held_eq found key_eq, key_eq]

/-- The position given for a symbol leads to it. -/
theorem get?_addSymbol (p : Pool) (h : Fingerprint) (name : String) :
    (p.addSymbol h name).1.get? (p.addSymbol h name).2 = some (.symbol h) := by
  obtain ⟨c, found, same⟩ :=
    Option.map_eq_some_iff.mp ((p.nameSymbol h name).key_get?_add (.symbol h))
  rw [Constant.eq_symbol_of_key same] at found
  exact found

/-- The symbol at a position. -/
def symbol? (p : Pool) (i : Nat) : Option Fingerprint :=
  match p.get? i with
  | some (.symbol h) => some h
  | _ => none

end Pool

end Componentry
