import Componentry.Proofs.Bytecode.PoolNames

/-!
# What is shown of a constant

A listing shows a value as it is written and a symbol by its name. Where a pool has nothing at a
position, or no name for the symbol there, something else stands in: a remark in angle brackets, or
the bare fingerprint. The text of a value is never mistaken for one of these, since a number is
written with digits, a sign, a point and few letters, and a string begins with a quotation mark.

## Main definitions

* `Text.AllNumeral` — a text is written with the characters of numbers only
* `Pool.IsPlaceholder` — a text that stands in for a constant or for a name
* `Pool.ShowsValue`, `Pool.ShowsSymbol` — what a pool has at a position, and shows of it

## Main results

* `Constant.not_isPlaceholder_text` — the text of a value stands in for nothing
* `Pool.showsValue`, `Pool.Named.showsSymbol` — what is shown of values, and of symbols where all
  have names
-/

namespace Componentry

/-! ### Numbers as text -/

namespace Text

/-- The characters that numbers are written with. -/
def isNumeral (c : Char) : Bool := c.isDigit || "-.NaNinf".toList.contains c

theorem isNumeral_of_mem_toDigits {n : Nat} {c : Char} (member : c ∈ Nat.toDigits 10 n) :
    isNumeral c = true := by
  rw [isNumeral, Nat.isDigit_of_mem_toDigits (by decide) (by decide) member, Bool.true_or]

/-- The text is written with the characters of numbers only. -/
def AllNumeral (text : String) : Prop := ∀ c ∈ text.toList, isNumeral c = true

instance (text : String) : Decidable (AllNumeral text) :=
  List.decidableBAll (isNumeral · = true) text.toList

theorem AllNumeral.append {s t : String} (first : AllNumeral s) (second : AllNumeral t) :
    AllNumeral (s ++ t) := by
  intro c member
  rw [String.toList_append, List.mem_append] at member
  exact member.elim (first c) (second c)

theorem allNumeral_toString (n : Int) : AllNumeral (toString n) := by
  have digits (m : Nat) : AllNumeral m.repr := by
    intro c member
    rw [Nat.toList_repr] at member
    exact isNumeral_of_mem_toDigits member
  rw [Int.toString_eq_repr]
  cases n with
  | ofNat m => exact digits m
  | negSucc m =>
    have minus : AllNumeral "-" := by decide
    exact minus.append (digits (m + 1))

end Text

open Text

theorem Decimal.allNumeral_text (d : Decimal) : AllNumeral d.text := by
  have digit {c : Char} {count : Nat}
      (member : c ∈ List.replicate count '0' ++ Nat.toDigits 10 d.significand) : isNumeral c =
        true := by
    rcases List.mem_append.mp member with zero | digit
    · rw [List.eq_of_mem_replicate zero]
      rfl
    · exact isNumeral_of_mem_toDigits digit
  intro c member
  unfold text at member
  dsimp only at member
  split at member
  · rw [String.toList_ofList, List.mem_append, or_comm, ← List.mem_append] at member
    exact digit member
  · rw [String.toList_ofList, List.mem_append, List.mem_cons] at member
    rcases member with whole | rfl | fraction
    · exact digit (List.mem_of_mem_take whole)
    · rfl
    · exact digit (List.mem_of_mem_drop fraction)

theorem Binary.Format.allNumeral_text (f : Format) (bits : Nat) : AllNumeral (f.text bits) := by
  have sign (negative : Bool) : AllNumeral (if negative then "-" else "") := by
    cases negative <;> decide
  unfold text
  split
  · decide
  · rename_i negative _
    have infinite : AllNumeral "inf" := by decide
    exact (sign negative).append infinite
  · rename_i negative significand scale _
    apply (sign negative).append
    split
    · decide
    · exact Decimal.allNumeral_text _

/-! ### Placeholders -/

namespace Pool

/-- The text stands in for a constant that is not there, or for the name of a symbol. -/
def IsPlaceholder (text : String) : Prop :=
  (∃ i : Nat, text = s!"<invalid #{i}>") ∨ ∃ h : Fingerprint, text = h.text

theorem not_isPlaceholder_of_allNumeral {text : String} (numeral : AllNumeral text) :
    ¬ IsPlaceholder text := by
  rintro (⟨i, rfl⟩ | ⟨h, rfl⟩)
  · exact absurd (numeral '<' (by simp [toString])) (by decide)
  · exact absurd (numeral 'x' (by simp [Fingerprint.text])) (by decide)

theorem not_isPlaceholder_quote (s : String) : ¬ IsPlaceholder (quote s) := by
  have quoted : (quote s).toList.head? = some '"' := by
    simp [quote, quoteWith]
  rintro (⟨i, same⟩ | ⟨h, same⟩)
  · rw [same] at quoted
    simp [toString] at quoted
  · rw [same] at quoted
    simp [Fingerprint.text] at quoted

end Pool

/-- The text of a value stands in for nothing. -/
theorem Constant.not_isPlaceholder_text {c : Constant} (value : c.isSymbol = false) :
    ¬ Pool.IsPlaceholder c.text := by
  cases c with
  | int n => exact Pool.not_isPlaceholder_of_allNumeral (allNumeral_toString n.toInt)
  | single x =>
    have suffix : AllNumeral "f" := by decide
    exact Pool.not_isPlaceholder_of_allNumeral ((Binary.Format.allNumeral_text _ _).append suffix)
  | double x => exact Pool.not_isPlaceholder_of_allNumeral (Binary.Format.allNumeral_text _ _)
  | string s => exact Pool.not_isPlaceholder_quote s
  | symbol h => cases value

/-! ### Descriptions -/

namespace Pool

variable {p : Pool} {i : Nat}

theorem lt_size_of_get? {c : Constant} (found : p.get? i = some c) : i < p.size :=
  (Array.getElem?_eq_some_iff.mp found).1

/-- The pool has a value at the position, and shows it as it is written. -/
structure ShowsValue (p : Pool) (i : Nat) : Prop where
  lt_size : i < p.size
  value : ∃ c, p.get? i = some c ∧ c.isSymbol = false ∧ p.describe i = c.text
  not_isPlaceholder : ¬ IsPlaceholder (p.describe i)

/-- The pool has a symbol at the position, and shows it by the name that it has. -/
structure ShowsSymbol (p : Pool) (i : Nat) : Prop where
  lt_size : i < p.size
  symbol : ∃ h name, p.get? i = some (.symbol h) ∧ p.name? h = some name ∧ p.describe i = name

/-- A value is shown as it is written. -/
theorem showsValue {c : Constant} (found : p.get? i = some c) (value : c.isSymbol = false) :
    p.ShowsValue i := by
  have shown : p.describe i = c.text := by
    unfold describe
    rw [found]
    cases c with
    | symbol h => cases value
    | int _ | single _ | double _ | string _ => rfl
  refine ⟨lt_size_of_get? found, ⟨c, found, value, shown⟩, ?_⟩
  rw [shown]
  exact Constant.not_isPlaceholder_text value

/-- Where all symbols have names, a symbol is shown by its name. -/
theorem Named.showsSymbol (named : p.Named) {h : Fingerprint} (found : p.symbol? i = some h) :
    p.ShowsSymbol i := by
  have position : p.get? i = some (.symbol h) := by
    unfold symbol? at found
    split at found
    · rename_i g inside
      rw [inside, Option.some.inj found]
    · cases found
  have member : .symbol h ∈ p.constants := by
    rw [← getElem?_constants] at position
    exact List.mem_of_getElem? position
  obtain ⟨name, given⟩ := Option.isSome_iff_exists.mp (named h member)
  refine ⟨lt_size_of_get? position, h, name, position, given, ?_⟩
  simp [describe, position, given]

end Pool

end Componentry
