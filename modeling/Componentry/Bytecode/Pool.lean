import Componentry.Bytecode.Constant

/-!
# The constant pool

The constants of a unit, each kept once, in the order in which they were first added. Symbols have a
readable name besides, the one they were first added with.

A position is any natural number. Positions that are kept in 32 bits are the same ones as long as a
pool has no more than `2 ^ 32` constants, and an instruction can name only the first `2 ^ 16` of
them.

## Main definitions

* `Pool` holds the constants with an index from keys to positions
* `Pool.add`, `Pool.addSymbol` give the position of a constant, new or not
* `Pool.describe` shows the constant at a position
-/

namespace Componentry

/-- The constants of a unit. The index answers with a position exactly when the constant there has
the asked key, so no two constants of a pool are the same. -/
structure Pool where
  positions : Std.TreeMap Constant.Key Nat Constant.compareKeys
  entries : Array Constant
  names : Std.TreeMap UInt64 String
  positions_eq_some_iff : ∀ (k : Constant.Key) (i : Nat),
    positions[k]? = some i ↔ (entries[i]?).map Constant.key = some k

namespace Pool

/-- No constants. -/
def empty : Pool := ⟨∅, #[], ∅, by simp⟩

/-- The number of constants. -/
def size (p : Pool) : Nat := p.entries.size

/-- The constant at a position. -/
def get? (p : Pool) (i : Nat) : Option Constant := p.entries[i]?

@[simp] theorem size_empty : empty.size = 0 := rfl

@[simp] theorem get?_empty (i : Nat) : empty.get? i = none := by simp [get?, empty]

/-- The readable name of a symbol. -/
def name? (p : Pool) (h : Fingerprint) : Option String := p.names[h.value]?

/-- The pool with a constant that it does not have yet. -/
def push (p : Pool) (c : Constant) (fresh : p.positions[c.key]? = none) : Pool where
  positions := p.positions.insert c.key p.entries.size
  entries := p.entries.push c
  names := p.names
  positions_eq_some_iff k i := by
    have bound (j : Nat) (h : (p.entries[j]?).map Constant.key = some k) : j < p.entries.size := by
      rcases Nat.lt_or_ge j p.entries.size with hj | hj
      · exact hj
      · simp [Array.getElem?_eq_none hj] at h
    rw [Std.TreeMap.getElem?_insert]
    simp only [Std.LawfulEqCmp.compare_eq_iff_eq]
    split
    · rename_i hk
      subst hk
      constructor
      · intro h
        obtain rfl := Option.some.inj h
        simp
      · intro h
        rw [Array.getElem?_push] at h
        split at h
        · rename_i hi
          rw [hi]
        · have := (p.positions_eq_some_iff c.key i).2 h
          simp [fresh] at this
    · rename_i hk
      rw [p.positions_eq_some_iff, Array.getElem?_push]
      split
      · rename_i hi
        constructor
        · intro h
          have := bound i h
          omega
        · intro h
          exact absurd (Option.some.inj h) hk
      · rfl

/-- A new constant comes behind those that were there. -/
theorem get?_push (p : Pool) (c : Constant) (fresh : p.positions[c.key]? = none) (i : Nat) :
    (p.push c fresh).get? i = if i = p.size then some c else p.get? i := by
  by_cases h : i = p.entries.size <;> simp [get?, push, size, Array.getElem?_push, h]

/-- The position of a constant, which is added at the end if the pool does not have it. -/
def add (p : Pool) (c : Constant) : Pool × Nat :=
  match h : p.positions[c.key]? with
  | some i => (p, i)
  | none =>
    let i := p.entries.size
    (p.push c h, i)

/-- The position given for a constant holds the same constant. -/
theorem key_get?_add (p : Pool) (c : Constant) :
    ((p.add c).1.get? (p.add c).2).map Constant.key = some c.key := by
  unfold add
  split
  · rename_i i h
    exact (p.positions_eq_some_iff c.key i).1 h
  · simp [get?_push, size]

/-- Adding a constant moves none. -/
theorem get?_add_of_lt (p : Pool) (c : Constant) {i : Nat} (h : i < p.size) :
    (p.add c).1.get? i = p.get? i := by
  unfold add
  split
  · rfl
  · simp [get?_push, Nat.ne_of_lt h]

/-- The pool with `count` consecutive numbers from `start` on. -/
def addRange (p : Pool) (start : Int64) : Nat → Pool
  | 0 => p
  | count + 1 => (p.add (.int start)).1.addRange (start + 1) count

/-- The pool with a readable name for a symbol, unless the symbol has one. -/
def nameSymbol (p : Pool) (h : Fingerprint) (name : String) : Pool :=
  { p with names := p.names.insertIfNew h.value name }

@[simp] theorem get?_nameSymbol (p : Pool) (h : Fingerprint) (name : String) (i : Nat) :
    (p.nameSymbol h name).get? i = p.get? i := rfl

/-- The position of a symbol, with a readable name for it. -/
def addSymbol (p : Pool) (h : Fingerprint) (name : String) : Pool × Nat :=
  (p.nameSymbol h name).add (.symbol h)

/-- The constant at a position, a symbol by its readable name if it has one. -/
def describe (p : Pool) (i : Nat) : String :=
  match p.get? i with
  | some (.symbol h) => (p.name? h).getD h.text
  | some c => c.text
  | none => s!"<invalid #{i}>"

end Pool

end Componentry
