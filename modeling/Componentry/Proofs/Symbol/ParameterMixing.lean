import Componentry.Proofs.Symbol.MethodIdentity

/-!
# Parameters in fingerprints

Parameters are mixed into the word of their symbol one after the other. The word so far is
multiplied by an odd number, and the parameter is added under the marker of its position. Such a
step can be undone in the word so far, and in the parameter too. A change of one parameter therefore
changes the word at its position, and every later step carries the change on, however many there
are.

## Main definitions

* `Fingerprint.DifferOnce` — parameter lists of one length that differ at exactly one position

## Main results

* `Fingerprint.mixFrom_set_inj` — with the other parameters fixed, each parameter can be told from
  the word
* `Fingerprint.mixParameters_ne` — lists that differ once are mixed into different words
* `Fingerprint.parameters_told_apart` — what fingerprints of methods and constructors tell apart
-/

namespace Componentry

namespace Fingerprint

variable {p q : Fingerprint} {ps qs : List Fingerprint}

/-- The lists have the same length and differ at exactly one position. -/
def DifferOnce (ps qs : List Fingerprint) : Prop :=
  ps.length = qs.length ∧ ∃! i : Nat, ps[i]? ≠ qs[i]?

theorem value_inj : p.value = q.value ↔ p = q := by
  cases p
  cases q
  simp

/-- What one step adds can be told from the word after it. -/
theorem add_marked_inj (acc marker : UInt64) :
    acc + (marker ^^^ p.value) = acc + (marker ^^^ q.value) ↔ p = q := by
  rw [UInt64.add_right_inj, UInt64.xor_right_inj, value_inj]

/-- With the other parameters fixed, the parameter at a position can be told from the word. -/
theorem mixFrom_set_inj {i k : Nat} {acc : UInt64} (inside : i < ps.length) :
    mixFrom k acc (ps.set i p) = mixFrom k acc (ps.set i q) ↔ p = q := by
  -- Up to the position the two words are the same; behind it, each step keeps them apart.
  induction ps generalizing i k acc with
  | nil => cases inside
  | cons r rest ih =>
    cases i with
    | zero =>
      rw [List.set_cons_zero, List.set_cons_zero, mixFrom, mixFrom, mixFrom_inj, add_marked_inj]
    | succ i => exact ih (Nat.lt_of_succ_lt_succ inside)

/-- Of lists that differ once, the second is the first with another parameter at one position. -/
theorem DifferOnce.exists_set (h : DifferOnce ps qs) :
    ∃ i p q, i < ps.length ∧ p ≠ q ∧ ps = ps.set i p ∧ qs = ps.set i q := by
  obtain ⟨same, i, differ, only⟩ := h
  have inside : i < ps.length := by
    by_contra outside
    rw [List.getElem?_eq_none (by omega), List.getElem?_eq_none (by omega)] at differ
    exact differ rfl
  have inside' : i < qs.length := same ▸ inside
  refine ⟨i, ps[i], qs[i], inside, ?_, (List.set_getElem_self inside).symm, ?_⟩
  · intro equal
    rw [List.getElem?_eq_getElem inside, List.getElem?_eq_getElem inside', equal] at differ
    exact differ rfl
  · apply List.ext_getElem?
    intro j
    by_cases here : j = i
    · rw [here, List.getElem?_set_self inside, List.getElem?_eq_getElem inside']
    · rw [List.getElem?_set_ne (Ne.symm here)]
      by_contra other
      exact here (only j (Ne.symm other))

/-- Lists that differ once are mixed into different words. -/
theorem mixParameters_ne (h : DifferOnce ps qs) (acc : UInt64) :
    mixParameters acc ps ≠ mixParameters acc qs := by
  obtain ⟨i, p, q, inside, apart, first, second⟩ := h.exists_set
  rw [first, second]
  exact fun words => apart ((mixFrom_set_inj inside).mp words)

/-- **What fingerprints tell apart.** Let two parameter lists of any length differ at exactly one
position. Methods of one name and owner that have these parameters have different fingerprints, and
so have constructors of one owner. With the parameters fixed, methods have the same fingerprint
exactly if their owners and the digests of their names combine to the same word, and constructors
exactly if they have the same owner. -/
theorem parameters_told_apart :
    (∀ ps qs : List Fingerprint, DifferOnce ps qs →
      (∀ owner name, ofMethod owner name ps ≠ ofMethod owner name qs) ∧
      ∀ owner, ofConstructor owner ps ≠ ofConstructor owner qs) ∧
    ∀ ps : List Fingerprint,
      (∀ owner owner' name name', ofMethod owner name ps = ofMethod owner' name' ps ↔
        owner.value ^^^ Digest.ofText name = owner'.value ^^^ Digest.ofText name') ∧
      ∀ owner owner', ofConstructor owner ps = ofConstructor owner' ps ↔ owner = owner' := by
  refine ⟨fun ps qs differ => ⟨?_, ?_⟩, fun ps => ⟨?_, ?_⟩⟩
  · intro owner name equal
    exact mixParameters_ne differ _ (congrArg value equal)
  · intro owner equal
    exact mixParameters_ne differ _ (congrArg value equal)
  · intro owner owner' name name'
    rw [ofMethod, ofMethod, mk.injEq, mixParameters_inj, UInt64.xor_assoc, UInt64.xor_assoc,
      UInt64.xor_right_inj]
  · intro owner owner'
    rw [ofConstructor, ofConstructor, mk.injEq, mixParameters_inj, UInt64.xor_right_inj, value_inj]

end Fingerprint

namespace Sample

/-- The type of whole numbers twelve times. -/
def twelveNumbers : List Fingerprint := List.replicate 12 (.ofName "int")

/-- The same with a string at the tenth position, which has no marker of its own. -/
def tenthString : List Fingerprint := twelveNumbers.set 9 (.ofName "String")

theorem differOnce_tenthString : Fingerprint.DifferOnce twelveNumbers tenthString := by
  refine ⟨List.length_set.symm, 9, by decide +kernel, ?_⟩
  intro i differ
  by_contra other
  exact differ (List.getElem?_set_ne (Ne.symm other)).symm

/-- Methods and constructors of a table are told apart by their tenth parameter. -/
theorem table_told_apart :
    Fingerprint.DifferOnce twelveNumbers tenthString ∧
    Fingerprint.ofMethod (.ofName "JTable") "configure" twelveNumbers ≠
      .ofMethod (.ofName "JTable") "configure" tenthString ∧
    Fingerprint.ofConstructor (.ofName "JTable") twelveNumbers ≠
      .ofConstructor (.ofName "JTable") tenthString := by
  obtain ⟨methods, constructors⟩ :=
    Fingerprint.parameters_told_apart.1 twelveNumbers tenthString differOnce_tenthString
  exact ⟨differOnce_tenthString, methods _ _, constructors _⟩

end Sample

end Componentry
