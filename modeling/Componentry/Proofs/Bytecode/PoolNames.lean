import Componentry.Proofs.Bytecode.PoolGrowth

/-!
# Names of symbols

Instructions that refer to a symbol give it a readable name. The first name that a symbol is given
stays, so the names in a pool can be told from the instructions that were written over it. A symbol
that is loaded like any other constant would have no name; as long as there are none of these, all
symbols of a pool have one.

## Main definitions

* `Instruction.symbols`, `Instruction.allSymbols` — the symbols that instructions refer to, with
  their names
* `firstName?` — the first name that is given to a symbol
* `Pool.Named` — every symbol of the pool has a name

## Main results

* `Assembly.name?_run` — the names in a pool are the first ones given by its instructions
* `Assembly.named_run` — all symbols have names where only values are loaded
-/

namespace Componentry

/-- The constant is a reference to a type, member, field or procedure. -/
def Constant.isSymbol : Constant → Bool
  | symbol _ => true
  | int _ | single _ | double _ | string _ => false

/-- Constants that are the same are both symbols, or neither is. -/
theorem Constant.isSymbol_congr {c d : Constant} (same : c.key = d.key) :
    c.isSymbol = d.isSymbol := by
  cases d with
  | symbol h => rw [eq_symbol_of_key same]
  | int _ | single _ | double _ | string _ =>
    cases c with
    | symbol h => simp [key] at same
    | int _ | single _ | double _ | string _ => rfl

/-- The first name that is given to a symbol. -/
def firstName? (symbols : List (Fingerprint × String)) (h : Fingerprint) : Option String :=
  (symbols.find? (·.1 = h)).map (·.2)

theorem firstName?_append (xs ys : List (Fingerprint × String)) (h : Fingerprint) :
    firstName? (xs ++ ys) h = (firstName? xs h).or (firstName? ys h) := by
  rw [firstName?, List.find?_append, Option.map_or]
  rfl

theorem isSome_firstName?_iff {symbols : List (Fingerprint × String)} {h : Fingerprint} :
    (firstName? symbols h).isSome ↔ h ∈ symbols.map (·.1) := by
  rw [firstName?, Option.isSome_map, List.find?_isSome, List.mem_map]
  simp

/-! ### Pools -/

namespace Pool

variable {p : Pool} {g h : Fingerprint}

@[simp] theorem name?_add (p : Pool) (c : Constant) (h : Fingerprint) :
    (p.add c).1.name? h = p.name? h := by
  unfold add
  split <;> rfl

/-- A symbol that has no name yet takes the one that it is added with. -/
theorem name?_addSymbol (p : Pool) (g : Fingerprint) (name : String) (h : Fingerprint) :
    (p.addSymbol g name).1.name? h = (p.name? h).or (firstName? [(g, name)] h) := by
  have words : g.value = h.value ↔ g = h := by
    cases g
    cases h
    simp
  rw [addSymbol, name?_add, name?, name?, nameSymbol, Std.TreeMap.getElem?_insertIfNew]
  simp only [Std.LawfulEqCmp.compare_eq_iff_eq, words]
  by_cases same : g = h
  · rw [same]
    cases known : p.names[h.value]? with
    | none =>
      have fresh : h.value ∉ p.names := by simpa using known
      simp [fresh, firstName?]
    | some old =>
      have taken : h.value ∈ p.names := Std.TreeMap.mem_iff_isSome_getElem?.mpr (by rw [known]; rfl)
      simp [taken]
  · simp [same, firstName?]

/-- Every symbol of the pool has a name. -/
def Named (p : Pool) : Prop := ∀ h, .symbol h ∈ p.constants → (p.name? h).isSome

theorem named_empty : empty.Named := fun _ member => by cases member

end Pool

/-! ### Instructions -/

namespace Instruction

/-- The symbols that an instruction refers to, in the order in which they are added to the pool,
with the names that it gives them. -/
def symbols : Instruction → List (Fingerprint × String)
  | setStatic field name => [(field, name)]
  | call procedure name _ => [(procedure, name)]
  | callMethod m => [(m.fingerprint, m.text)]
  | new k => [(k.owner.fingerprint, k.owner.text), (k.fingerprint, k.text)]
  | load _ | pushInt _ | pushNull | pushBool _ | pop | dup | getLocal _ | setLocal _ | returnVoid =>
    []

/-- The symbols that instructions refer to, in order. -/
def allSymbols (is : List Instruction) : List (Fingerprint × String) := is.flatMap symbols

/-- Of an instruction that loads no symbol, all symbols are named. -/
theorem mem_symbols_of_mem_constants {i : Instruction}
    (value : ∀ c, i = .load c → c.isSymbol = false) {h : Fingerprint}
    (member : .symbol h ∈ i.constants) : h ∈ i.symbols.map (·.1) := by
  cases i with
  | load c =>
    rw [constants, List.mem_singleton] at member
    have loaded := value c rfl
    rw [← member] at loaded
    cases loaded
  | pushInt n =>
    simp only [constants] at member
    split at member
    · cases member
    · rw [List.mem_singleton] at member
      cases member
  | pushNull | pushBool _ | pop | dup | getLocal _ | setLocal _ | returnVoid => cases member
  | setStatic _ _ | call _ _ _ | callMethod _ | new _ => simpa [constants, symbols] using member

/-- An instruction that is written names its symbols, unless they have names. -/
theorem name?_encode {pool pool' : Pool} {i : Instruction} {bytes : List UInt8}
    (encoded : i.encode pool = (pool', .ok bytes)) (h : Fingerprint) :
    pool'.name? h = (pool.name? h).or (firstName? i.symbols h) := by
  have grown : (i.encode pool).1 = pool' := congrArg Prod.fst encoded
  have nothing : pool.name? h = (pool.name? h).or (firstName? [] h) := by simp [firstName?]
  cases i with
  | load c =>
    rw [← grown]
    exact (pool.name?_add c h).trans nothing
  | pushInt n =>
    rw [← grown]
    simp only [encode]
    split
    · exact nothing
    · split
      · exact nothing
      · exact (pool.name?_add (.int n) h).trans nothing
  | pushNull | pushBool _ | pop | dup | returnVoid | getLocal _ | setLocal _ =>
    rw [← grown]
    exact nothing
  | setStatic field name | call procedure name args | callMethod m =>
    rw [← grown]
    exact pool.name?_addSymbol _ _ h
  | new k =>
    -- The symbol of the class is named before that of the constructor.
    obtain ⟨rfl, -⟩ := encodeNew_eq_ok encoded
    rw [Pool.name?_addSymbol, Pool.name?_addSymbol, Option.or_assoc, ← firstName?_append]
    rfl

end Instruction

/-! ### Procedures -/

namespace Assembly

open Instruction

variable {a b : Assembly} {ds : List Directive}

theorem name?_step {d : Directive} (stepped : a.step d = .ok b) (h : Fingerprint) :
    b.emitter.pool.name? h =
      (a.emitter.pool.name? h).or (firstName? (allSymbols (Directive.instructions [d])) h) := by
  cases d with
  | line _ | enter _ _ | leave _ =>
    cases stepped
    exact (Option.or_none).symm
  | abort _ => cases stepped
  | instruction i =>
    simp only [step, Emitter.emit] at stepped
    cases encoded : i.encode a.emitter.pool with
    | mk pool result =>
      rw [encoded] at stepped
      cases result with
      | error failure => cases stepped
      | ok bytes =>
        cases stepped
        simpa [Emitter.write, allSymbols] using Instruction.name?_encode encoded h

/-- The names in the pool of a procedure are those that it started with and, for other symbols, the
first ones that its instructions give. -/
theorem name?_run (h : a.run ds = .ok b) (g : Fingerprint) :
    b.emitter.pool.name? g =
      (a.emitter.pool.name? g).or (firstName? (allSymbols (Directive.instructions ds)) g) := by
  induction ds generalizing a with
  | nil =>
    cases h
    exact (Option.or_none).symm
  | cons d ds ih =>
    rw [run] at h
    split at h
    · rename_i next stepped
      rw [ih h, name?_step stepped, Option.or_assoc, ← firstName?_append, allSymbols, allSymbols,
        ← List.flatMap_append, ← Directive.instructions_append, List.singleton_append]
      rfl
    · cases h

/-- Where only values are loaded, all symbols have names. -/
theorem named_run (h : a.run ds = .ok b) (named : a.emitter.pool.Named)
    (values : ∀ i ∈ Directive.instructions ds, ∀ c, i = .load c → c.isSymbol = false) :
    b.emitter.pool.Named := by
  intro g member
  have listed : (Constant.symbol g).key ∈ b.emitter.pool.constants.map Constant.key :=
    List.mem_map_of_mem member
  rw [constants_run h, Constant.mem_collect, List.mem_map] at listed
  obtain ⟨c, inside, same⟩ := listed
  rw [Constant.eq_symbol_of_key same, List.mem_append] at inside
  rw [name?_run h, Option.isSome_or, Bool.or_eq_true]
  rcases inside with old | new
  · exact Or.inl (named g old)
  · -- The symbol comes from an instruction that also gives it a name.
    obtain ⟨i, written, refers⟩ := List.mem_flatMap.mp new
    refine Or.inr (isSome_firstName?_iff.mpr ?_)
    rw [allSymbols, List.map_flatMap, List.mem_flatMap]
    exact ⟨i, written, mem_symbols_of_mem_constants (values i written) refers⟩

end Assembly

end Componentry
