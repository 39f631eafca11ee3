import Componentry.Proofs.Bytecode.RoundTrip
import Componentry.Proofs.Resolution.Acceptance

/-!
# Methods and their fingerprints

A call refers to its method by a fingerprint, and a pool holds each fingerprint once. So two calls
have the same operand exactly if their methods have the same fingerprint. Mixing in the parameters
loses nothing, but the digests of the class and of the method's name are combined without regard to
which is which. A method therefore shares its fingerprint with the one in which the two names have
changed places, and all methods that are named like their classes share one. Apart from such pairs,
two methods with the same parameters agree only if the digests of four different names happen to
cancel out.

## Main definitions

* `Digest.Separates` — different names have different digests

## Main results

* `Fingerprint.mixParameters_inj` — mixing in parameters loses nothing
* `Method.fingerprint_eq_iff` — two methods agree if the digests of their names cancel out
* `Chunk.HasSymbol.word?_eq_iff` — two operands are equal exactly if they stand for the same symbol
* `Method.fingerprint_identity` — which methods a fingerprint tells apart
-/

namespace Componentry

/-! ### Parameters -/

namespace Fingerprint

/-- The separator is odd, so multiplication by it can be undone. -/
theorem mul_separator_inj {a b : UInt64} : a * separator = b * separator ↔ a = b := by
  have inverse : separator * 0xd3f20f0a40208825 = 1 := by decide
  constructor
  · intro same
    have undone := congrArg (· * (0xd3f20f0a40208825 : UInt64)) same
    simpa only [UInt64.mul_assoc, inverse, UInt64.mul_one] using undone
  · rintro rfl
    rfl

theorem mixFrom_inj (i : Nat) {a b : UInt64} (params : List Fingerprint) :
    mixFrom i a params = mixFrom i b params ↔ a = b := by
  induction params generalizing i a b with
  | nil => exact Iff.rfl
  | cons p rest ih => rw [mixFrom, mixFrom, ih, UInt64.add_left_inj, mul_separator_inj]

/-- Mixing the same parameters into different words gives different words. -/
theorem mixParameters_inj {a b : UInt64} (params : List Fingerprint) :
    mixParameters a params = mixParameters b params ↔ a = b :=
  mixFrom_inj 0 params

end Fingerprint

/-! ### Names -/

/-- The digest of a method's class and of its name, combined. -/
def Method.nameDigest (m : Method) : UInt64 := Digest.ofText m.owner.text ^^^ Digest.ofText m.name

/-- Methods with the same parameters have the same fingerprint exactly if the digests of their names
combine to the same word. -/
theorem Method.fingerprint_eq_iff {m n : Method} (params : m.params = n.params) :
    m.fingerprint = n.fingerprint ↔ m.nameDigest = n.nameDigest := by
  simp only [fingerprint, Fingerprint.ofMethod, Fingerprint.mk.injEq, params,
    Fingerprint.mixParameters_inj, ClassName.fingerprint, Fingerprint.ofName, UInt64.xor_assoc,
    UInt64.xor_right_inj, nameDigest]

/-- Of the given texts, different ones have different digests. -/
def Digest.Separates (texts : List String) : Prop :=
  ∀ s ∈ texts, ∀ t ∈ texts, Digest.ofText s = Digest.ofText t → s = t

instance (texts : List String) : Decidable (Digest.Separates texts) :=
  inferInstanceAs (Decidable (∀ s ∈ texts, ∀ t ∈ texts, Digest.ofText s = Digest.ofText t → s = t))

/-- The names of a method and of its class, and those of another. -/
def Method.names (m n : Method) : List String := [m.owner.text, m.name, n.owner.text, n.name]

/-- If different names have different digests, the names of two methods combine to the same word in
four cases only: they are the same, they have changed places, both methods are named like their
classes, or four different digests cancel out. -/
theorem Method.nameDigest_eq_iff {m n : Method} (separates : Digest.Separates (m.names n)) :
    m.nameDigest = n.nameDigest ↔
      (m.owner.text = n.owner.text ∧ m.name = n.name) ∨
      (m.owner.text = n.name ∧ m.name = n.owner.text) ∨
      (m.owner.text = m.name ∧ n.owner.text = n.name) ∨
      ((m.names n).Nodup ∧ m.nameDigest = n.nameDigest) := by
  have same {s t : String} (s_mem : s ∈ m.names n) (t_mem : t ∈ m.names n) :
      Digest.ofText s = Digest.ofText t ↔ s = t :=
    ⟨separates s s_mem t t_mem, congrArg Digest.ofText⟩
  have owner_mem : m.owner.text ∈ m.names n := by simp [names]
  have name_mem : m.name ∈ m.names n := by simp [names]
  have owner_mem' : n.owner.text ∈ m.names n := by simp [names]
  have name_mem' : n.name ∈ m.names n := by simp [names]
  constructor
  · intro equal
    have word : Digest.ofText m.owner.text ^^^ Digest.ofText m.name =
        Digest.ofText n.owner.text ^^^ Digest.ofText n.name := equal
    by_cases owners : m.owner.text = n.owner.text
    · rw [owners, UInt64.xor_right_inj, same name_mem name_mem'] at word
      exact Or.inl ⟨owners, word⟩
    by_cases crossed : m.owner.text = n.name
    · rw [crossed, UInt64.xor_comm, UInt64.xor_left_inj, same name_mem owner_mem'] at word
      exact Or.inr (Or.inl ⟨crossed, word⟩)
    by_cases own : m.owner.text = m.name
    · rw [own, UInt64.xor_self, eq_comm, UInt64.xor_eq_zero_iff, same owner_mem' name_mem'] at word
      exact Or.inr (Or.inr (Or.inl ⟨own, word⟩))
    -- No name is repeated: any pair that is equal would make another pair equal, which was
    -- excluded.
    have crossed' : m.name ≠ n.owner.text := by
      intro met
      rw [met, UInt64.xor_comm, UInt64.xor_right_inj, same owner_mem name_mem'] at word
      exact crossed word
    have names' : m.name ≠ n.name := by
      intro met
      rw [met, UInt64.xor_left_inj, same owner_mem owner_mem'] at word
      exact owners word
    have own' : n.owner.text ≠ n.name := by
      intro met
      rw [met, UInt64.xor_self, UInt64.xor_eq_zero_iff, same owner_mem name_mem] at word
      exact own word
    exact Or.inr (Or.inr (Or.inr ⟨by simp [names, *], equal⟩))
  · rintro (⟨owners, names⟩ | ⟨crossed, crossed'⟩ | ⟨own, own'⟩ | ⟨-, equal⟩)
    · rw [nameDigest, nameDigest, owners, names]
    · rw [nameDigest, nameDigest, crossed, crossed', UInt64.xor_comm]
    · rw [nameDigest, nameDigest, own, own', UInt64.xor_self, UInt64.xor_self]
    · exact equal

/-! ### Operands -/

/-- A pool holds a symbol at one position only. -/
theorem Pool.index_eq_iff {pool : Pool} {i j : Nat} {g h : Fingerprint}
    (first : pool.get? i = some (.symbol g)) (second : pool.get? j = some (.symbol h)) :
    i = j ↔ g = h := by
  constructor
  · rintro rfl
    rw [first] at second
    cases second
    rfl
  · rintro rfl
    have position {k : Nat} (found : pool.get? k = some (.symbol g)) :
        pool.positions[(Constant.symbol g).key]? = some k := by
      rw [pool.positions_eq_some_iff, ← get?, found]
      rfl
    exact Option.some.inj ((position first).symm.trans (position second))

/-- Two operands that stand for symbols in one pool are equal exactly if the symbols are. -/
theorem Chunk.HasSymbol.word?_eq_iff {pool : Pool} {c d : Chunk} {i j : Nat} {g h : Fingerprint}
    (first : c.HasSymbol pool i g) (second : d.HasSymbol pool j h) :
    c.word? i = d.word? j ↔ g = h := by
  obtain ⟨index, read, found⟩ := first
  obtain ⟨index', read', found'⟩ := second
  rw [read, read', Option.some.injEq]
  exact Pool.index_eq_iff found found'

/-- **Which methods a fingerprint tells apart.** Let two methods have the same parameters, and let
different names among those of the methods and their classes have different digests. The methods
have the same fingerprint exactly if their names are the same, or have changed places with those of
their classes, or are those of their classes, or are four different names whose digests cancel out.
Wherever the two are called in code over one pool, the calls have the same operand exactly if the
fingerprints are the same. -/
theorem Method.fingerprint_identity (m n : Method) (params : m.params = n.params)
    (separates : Digest.Separates (m.names n)) :
    (m.fingerprint = n.fingerprint ↔
      (m.owner.text = n.owner.text ∧ m.name = n.name) ∨
      (m.owner.text = n.name ∧ m.name = n.owner.text) ∨
      (m.owner.text = m.name ∧ n.owner.text = n.name) ∨
      ((m.names n).Nodup ∧ m.nameDigest = n.nameDigest)) ∧
    ∀ (pool : Pool) (c d : Chunk) (i j : Nat) (op op' : Opcode),
      (Instruction.callMethod m).StandsAt pool c i op →
      (Instruction.callMethod n).StandsAt pool d j op' →
      (c.word? (i + 1) = d.word? (j + 1) ↔ m.fingerprint = n.fingerprint) := by
  refine ⟨(fingerprint_eq_iff params).trans (nameDigest_eq_iff separates), ?_⟩
  rintro pool c d i j op op' ⟨-, first, -⟩ ⟨-, second, -⟩
  exact first.word?_eq_iff second

/-- The operands of the calls of methods in the code, in order. -/
def Chunk.methodOperands (c : Chunk) : List (Option Nat) :=
  (c.instructions.filter (·.2 = .callMethod)).map fun (offset, _) => c.word? (offset + 1)

namespace Sample

/-- A method that sets an icon, declared by a class that is named like one that sets a text. -/
def iconSetter : Method := ⟨.topLevel "setText", "setIcon", [.primitive .int], .void⟩

/-- A method that sets a text, declared by a class that is named like one that sets an icon. -/
def textSetter : Method := ⟨.topLevel "setIcon", "setText", [.primitive .int], .void⟩

/-- A badge inherits both methods. -/
def badges : Registry :=
  [{ name := iconSetter.owner, methods := [⟨"setIcon", [.primitive .int], .void⟩] },
    { name := textSetter.owner, methods := [⟨"setText", [.primitive .int], .void⟩] },
    { name := .topLevel "JBadge", superclass := some iconSetter.owner,
      interfaces := [textSetter.owner], constructors := [[]] : ClassEntry }].foldl
    Registry.add .empty

/-- A badge with an icon and a text. -/
def badge : Source LiteralExpr where
  name := "Main"
  tree := .ofLiterals "badge" (line 1)
    [⟨0, "icon", line 2, .scalar (.int 2, line 2)⟩, ⟨0, "text", line 3, .scalar (.int 3, line 3)⟩]

/-- The two methods of the badge are different and have the same parameters, and the digests of
their names differ. Yet they have the same fingerprint, and the unit calls both of them with one
operand. -/
theorem badge_calls_alike :
    iconSetter.params = textSetter.params ∧ Digest.Separates (iconSetter.names textSetter) ∧
    iconSetter.owner.text ≠ textSetter.owner.text ∧ iconSetter.name ≠ textSetter.name ∧
    iconSetter.fingerprint = textSetter.fingerprint ∧
    (Context.resolve ⟨badges.library, {}⟩ badge.tree).1.bindings.map (·.2) =
      [[.setter iconSetter, .setter textSetter]] ∧
    ((Context.compile ⟨badges.library, {}⟩ badge).toOption.bind (·.unit)).isSome ∧
    ((Emitter.start .empty).run
      [.emit (.callMethod iconSetter), .emit (.callMethod textSetter)]).chunk.methodOperands =
      [some 0, some 0] := by
  refine ⟨rfl, ?_, ?_, ?_, ?_, ?_, ?_, ?_⟩ <;> decide +kernel

/-- Wherever the two methods of the badge are called in code over one pool, the calls have the same
operand. Two setters of one class are told apart. -/
theorem badge_identity :
    (∀ (pool : Pool) (c d : Chunk) (i j : Nat) (op op' : Opcode),
      (Instruction.callMethod iconSetter).StandsAt pool c i op →
      (Instruction.callMethod textSetter).StandsAt pool d j op' →
      c.word? (i + 1) = d.word? (j + 1)) ∧
    iconSetter.fingerprint ≠ { iconSetter with name := "setFont" }.fingerprint := by
  have swapped := iconSetter.fingerprint_identity textSetter rfl (by decide +kernel)
  have apart :=
    iconSetter.fingerprint_identity { iconSetter with name := "setFont" } rfl (by decide +kernel)
  constructor
  · intro pool c d i j op op' first second
    exact (swapped.2 pool c d i j op op' first second).mpr
      (swapped.1.mpr (Or.inr (Or.inl (by decide +kernel))))
  · exact mt apart.1.mp (by decide +kernel)

end Sample

end Componentry
