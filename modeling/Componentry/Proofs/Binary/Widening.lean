import Componentry.Binary.Number
import Mathlib.Data.Nat.Log
import Mathlib.Tactic.Linarith
import Mathlib.Tactic.Ring

/-!
# Exact conversions

A finite magnitude has one bit pattern, given by a significand and a scale in normal form. A number
that has a normal form in a format is its own rounding, so a single is widened exactly and narrowed
back to itself.

## Main definitions

* `Binary.Format.Normal` — significand and scale of a finite magnitude, as they are read from its
  pattern
* `Binary.SameNumber` — data of two formats that stand for one number, the signs of zeros included
* `Binary32.IsSame`, `Binary64.IsSame` — the same bit pattern, up to what is not a number

## Main results

* `Binary.Format.decode_withSign`, `Binary.Format.of_decode_finite` — normal forms and patterns
* `Binary.Format.round_of_normal` — a number in normal form is its own rounding
* `Binary32.sameNumber_widen` — widening is exact
* `Binary32.isSame_narrow_widen` — narrowing takes it back
* `Binary.Format.same_iff_zeroSign?` — numbers with one key are the same but for the signs of zeros
-/

namespace Componentry

namespace Binary

theorem pow2_eq (k : Nat) : pow2 k = 2 ^ k := rfl

/-- An exact quotient is its own rounding. -/
theorem roundQuotient_mul (q k : Nat) : roundQuotient (q * 2 ^ k) k = q := by
  have positive : 0 < 2 ^ k := Nat.two_pow_pos k
  have quotient : q * 2 ^ k / 2 ^ k = q := Nat.mul_div_cancel q positive
  simp only [roundQuotient, pow2_eq, Nat.mul_mod_left, quotient]
  rw [if_neg]
  omega

namespace Format

variable {f : Format} {s e : Nat}

theorem signBit_eq (f : Format) : f.signBit = f.infinity + 2 ^ f.fractionBits := by
  have positive : 1 ≤ 2 ^ f.exponentBits := Nat.one_le_two_pow
  simp only [signBit, infinity, pow2_eq, pow_add, Nat.sub_one_mul]
  have : 2 ^ f.fractionBits ≤ 2 ^ f.exponentBits * 2 ^ f.fractionBits :=
    Nat.le_mul_of_pos_left _ positive
  rw [mul_comm]
  omega

/-- The significand and the scale of a finite magnitude: the significand has its leading bit, except
at the least scale. The pattern of the magnitude is `e * 2 ^ f.fractionBits + s`. -/
structure Normal (f : Format) (s e : Nat) : Prop where
  small : s < 2 * 2 ^ f.fractionBits
  leading : e = 0 ∨ 2 ^ f.fractionBits ≤ s
  finite : e * 2 ^ f.fractionBits + s < f.infinity

theorem withSign_lt (f : Format) (negative : Bool) {m : Nat} (small : m < f.signBit) :
    f.withSign negative m < 2 * f.signBit := by
  unfold withSign
  split <;> omega

/-- The sign and the magnitude are read back from a pattern. -/
theorem of_withSign (f : Format) (negative : Bool) {m : Nat} (small : m < f.signBit) :
    (f.signBit ≤ f.withSign negative m ↔ negative = true) ∧
    f.withSign negative m % f.signBit = m := by
  cases negative with
  | false => simp [withSign, Nat.mod_eq_of_lt small, small]
  | true => simp [withSign, Nat.mod_eq_of_lt small]

/-- Every pattern has a sign and a magnitude. -/
theorem withSign_mod (f : Format) {bits : Nat} (small : bits < 2 * f.signBit) :
    f.withSign (f.signBit ≤ bits) (bits % f.signBit) = bits := by
  unfold withSign
  by_cases negative : f.signBit ≤ bits
  · have rest : bits % f.signBit = bits - f.signBit := by
      rw [Nat.mod_eq_sub_mod negative, Nat.mod_eq_of_lt (by omega)]
    simp only [negative, decide_true, if_true, rest]
    omega
  · simp [negative, Nat.mod_eq_of_lt (Nat.lt_of_not_le negative)]

/-- A number in normal form is read back from its pattern. -/
theorem decode_withSign (normal : f.Normal s e) (negative : Bool) :
    f.decode (f.withSign negative (e * 2 ^ f.fractionBits + s)) = .finite negative s e := by
  have positive : 0 < 2 ^ f.fractionBits := Nat.two_pow_pos _
  have finite := normal.finite
  have inside : e * 2 ^ f.fractionBits + s < f.signBit := by
    rw [signBit_eq]
    omega
  obtain ⟨sign, magnitude⟩ := f.of_withSign negative inside
  simp only [decode, magnitude, pow2_eq, sign, Bool.decide_eq_true]
  rw [if_neg (by omega), if_neg (by omega)]
  by_cases large : 2 ^ f.fractionBits ≤ s
  · -- The leading bit of the significand is counted by the exponent field.
    obtain ⟨r, rfl⟩ := Nat.exists_eq_add_of_le large
    have fraction : r < 2 ^ f.fractionBits := by
      have := normal.small
      omega
    have split :
        e * 2 ^ f.fractionBits + (2 ^ f.fractionBits + r) = r + 2 ^ f.fractionBits * (e + 1) := by
      ring
    rw [split, Nat.add_mul_div_left _ _ positive, Nat.add_mul_mod_self_left,
      Nat.div_eq_of_lt fraction, Nat.mod_eq_of_lt fraction]
    simp
  · have least : e = 0 := normal.leading.resolve_right large
    rw [least, zero_mul, zero_add, Nat.div_eq_of_lt (by omega), Nat.mod_eq_of_lt (by omega)]
    rfl

/-- A pattern that is read as a finite number is that of the number's normal form. -/
theorem of_decode_finite {bits : Nat} {negative : Bool} (small : bits < 2 * f.signBit)
    (read : f.decode bits = .finite negative s e) :
    f.Normal s e ∧ bits = f.withSign negative (e * 2 ^ f.fractionBits + s) := by
  have whole := f.withSign_mod small
  have positive : 0 < 2 ^ f.fractionBits := Nat.two_pow_pos _
  simp only [decode] at read
  split at read
  · cases read
  · rename_i number
    split at read
    · cases read
    · rename_i different
      split at read
      all_goals
        rename_i exponent
        injection read with sign significand scale
        subst sign significand scale
        simp only [pow2_eq] at exponent ⊢
        generalize bits % f.signBit = m at *
        have finite : m < f.infinity := by omega
        have fields := Nat.div_add_mod m (2 ^ f.fractionBits)
        have fraction : m % 2 ^ f.fractionBits < 2 ^ f.fractionBits := Nat.mod_lt _ positive
      · rw [exponent, mul_zero, zero_add] at fields
        rw [zero_mul, zero_add, fields]
        exact ⟨⟨by omega, Or.inl rfl, by omega⟩, whole.symm⟩
      · obtain ⟨k, larger⟩ := Nat.exists_eq_succ_of_ne_zero exponent
        rw [larger] at fields ⊢
        have magnitude :
            (k.succ - 1) * 2 ^ f.fractionBits + (2 ^ f.fractionBits + m % 2 ^ f.fractionBits) =
            m := by
          rw [Nat.succ_sub_one]
          linarith
        rw [magnitude]
        exact ⟨⟨by omega, Or.inr (by omega), by omega⟩, whole.symm⟩

theorem of_decode_infinite {bits : Nat} {negative : Bool} (small : bits < 2 * f.signBit)
    (read : f.decode bits = .infinite negative) : bits = f.withSign negative f.infinity := by
  have whole := f.withSign_mod small
  simp only [decode] at read
  split at read
  · cases read
  · split at read
    · rename_i magnitude
      injection read with sign
      rw [← sign, ← magnitude, whole]
    · split at read <;> cases read

theorem decode_infinite (f : Format) (negative : Bool) :
    f.decode (f.withSign negative f.infinity) = .infinite negative := by
  have inside : f.infinity < f.signBit := by
    rw [signBit_eq]
    exact Nat.lt_add_of_pos_right (Nat.two_pow_pos _)
  obtain ⟨sign, magnitude⟩ := f.of_withSign negative inside
  simp [decode, magnitude, sign]

/-! ### Rounding -/

theorem log2_mul_two_pow {n : Nat} (positive : n ≠ 0) (j : Nat) :
    (n * 2 ^ j).log2 = n.log2 + j := by
  rw [Nat.log2_eq_iff (Nat.mul_ne_zero positive (Nat.two_pow_pos j).ne')]
  refine ⟨?_, ?_⟩
  · rw [pow_add]
    exact Nat.mul_le_mul_right _ (Nat.log2_self_le positive)
  · rw [Nat.add_right_comm, pow_add]
    exact Nat.mul_lt_mul_of_pos_right Nat.lt_log2_self (Nat.two_pow_pos j)

theorem log2_le_fractionBits (small : s < 2 * 2 ^ f.fractionBits) (positive : s ≠ 0) :
    s.log2 ≤ f.fractionBits := by
  rw [← pow_succ'] at small
  exact Nat.le_of_lt_succ ((Nat.log2_lt positive).mpr small)

/-- A zero has the least scale. -/
theorem Normal.eq_zero_of_eq_zero (normal : f.Normal 0 e) : e = 0 := by
  refine normal.leading.resolve_right fun large => ?_
  exact (Nat.two_pow_pos f.fractionBits).ne' (Nat.le_zero.mp large)

/-- A number in normal form has as many bits as the format has room for. -/
theorem Normal.drop_eq (normal : f.Normal s e) (k : Nat) :
    max ((s * 2 ^ (e + k)).log2 - f.fractionBits) k = e + k := by
  by_cases zero : s = 0
  · subst zero
    simp [normal.eq_zero_of_eq_zero]
  · have fits := log2_le_fractionBits normal.small zero
    rw [log2_mul_two_pow zero]
    rcases normal.leading with least | large
    · omega
    · have full : f.fractionBits ≤ s.log2 := (Nat.le_log2 zero).mpr large
      omega

/-- A number in normal form is its own rounding. -/
theorem round_of_normal (normal : f.Normal s e) (k : Nat) :
    f.round (s * 2 ^ (e + k)) k = e * 2 ^ f.fractionBits + s := by
  simp only [round, pow2_eq, normal.drop_eq, roundQuotient_mul, Nat.add_sub_cancel]
  exact Nat.min_eq_right (Nat.le_of_lt normal.finite)

/-- A number with few enough bits has a normal form. -/
theorem exists_normal {s j : Nat} (small : s < 2 * 2 ^ f.fractionBits)
    (bounded : j + 2 < 2 ^ f.exponentBits) : ∃ t e, t * 2 ^ e = s * 2 ^ j ∧ f.Normal t e := by
  have room : (j + 2) * 2 ^ f.fractionBits ≤ f.infinity :=
    Nat.mul_le_mul_right _ (by rw [pow2_eq]; omega)
  have positive : 0 < 2 ^ f.fractionBits := Nat.two_pow_pos _
  by_cases zero : s = 0
  · refine ⟨0, 0, by simp [zero], by omega, Or.inl rfl, ?_⟩
    have : 0 < (j + 2) * 2 ^ f.fractionBits := by positivity
    omega
  · have fits := log2_le_fractionBits small zero
    -- As much of the scale as there is room for goes to the significand.
    obtain ⟨e, e_eq⟩ : ∃ e, e = s.log2 + j - f.fractionBits := ⟨_, rfl⟩
    obtain ⟨i, rfl⟩ : ∃ i, j = i + e := ⟨j - e, by omega⟩
    have nonzero : s * 2 ^ i ≠ 0 := Nat.mul_ne_zero zero (Nat.two_pow_pos i).ne'
    have log := log2_mul_two_pow zero i
    have below : s * 2 ^ i < 2 * 2 ^ f.fractionBits := by
      rw [← pow_succ', ← Nat.log2_lt nonzero]
      omega
    refine ⟨s * 2 ^ i, e, by rw [mul_assoc, ← pow_add], below, ?_, ?_⟩
    · by_cases least : e = 0
      · exact Or.inl least
      · refine Or.inr ((Nat.le_log2 nonzero).mp ?_)
        omega
    · calc e * 2 ^ f.fractionBits + s * 2 ^ i
          < e * 2 ^ f.fractionBits + 2 * 2 ^ f.fractionBits := Nat.add_lt_add_left below _
        _ = (e + 2) * 2 ^ f.fractionBits := by ring
        _ ≤ (i + e + 2) * 2 ^ f.fractionBits := Nat.mul_le_mul_right _ (by omega)
        _ ≤ f.infinity := room

/-! ### Keys -/

/-- What is no number has a key of its own, so do zeros, and any other pattern is its own key. -/
theorem key_cases (f : Format) (bits : Nat) :
    (f.decode bits = .nan ∧ f.key bits = f.quietNaN) ∨
    (∃ negative e, f.decode bits = .finite negative 0 e ∧ f.key bits = 0) ∨
    (f.decode bits ≠ .nan ∧ (∀ negative e, f.decode bits ≠ .finite negative 0 e) ∧
      f.key bits = bits) := by
  unfold key
  cases read : f.decode bits with
  | nan => exact Or.inl ⟨rfl, rfl⟩
  | infinite negative => exact Or.inr (Or.inr ⟨by simp, by simp, rfl⟩)
  | finite negative s e =>
    by_cases zero : s = 0
    · subst zero
      exact Or.inr (Or.inl ⟨negative, e, rfl, rfl⟩)
    · exact Or.inr (Or.inr ⟨by simp, by simp [zero], if_neg zero⟩)

/-- Numbers with one key have the same pattern, unless both are no numbers or both are zeros. -/
theorem key_eq_cases (odd : f.decode f.quietNaN = .nan) (zero : f.decode 0 = .finite false 0 0)
    {a b : Nat} (same : f.key a = f.key b) :
    a = b ∨ (f.decode a = .nan ∧ f.decode b = .nan) ∨
      ∃ m e n d, f.decode a = .finite m 0 e ∧ f.decode b = .finite n 0 d := by
  have nonzero : f.quietNaN ≠ 0 := by
    intro null
    rw [null, zero] at odd
    cases odd
  rcases f.key_cases a with ⟨readA, keyA⟩ | ⟨m, e, readA, keyA⟩ | ⟨numberA, otherA, keyA⟩ <;>
    rcases f.key_cases b with ⟨readB, keyB⟩ | ⟨n, d, readB, keyB⟩ | ⟨numberB, otherB, keyB⟩ <;>
    rw [keyA, keyB] at same
  · exact Or.inr (Or.inl ⟨readA, readB⟩)
  · exact absurd same nonzero
  · exact absurd (same ▸ odd) numberB
  · exact absurd same.symm nonzero
  · exact Or.inr (Or.inr ⟨m, e, n, d, readA, readB⟩)
  · exact absurd (same ▸ zero) (otherB false 0)
  · exact absurd (same ▸ odd) numberA
  · exact absurd (same ▸ zero) (otherA false 0)
  · exact Or.inl same

end Format

/-- The sign of a zero. -/
def Datum.zeroSign? : Datum → Option Bool
  | .finite negative 0 _ => some negative
  | .nan | .infinite _ | .finite _ (_ + 1) _ => none

theorem Datum.zeroSign?_finite (negative : Bool) (s e : Nat) :
    (finite negative s e).zeroSign? = if s = 0 then some negative else none := by
  cases s <;> rfl

/-- Numbers with one key have the same pattern, or both are no numbers, unless they are zeros with
different signs. -/
theorem Format.same_iff_zeroSign? {f : Format} (odd : f.decode f.quietNaN = .nan)
    (zero : f.decode 0 = .finite false 0 0) {a b : Nat} (small : a < 2 * f.signBit)
    (small' : b < 2 * f.signBit) (same : f.key a = f.key b) :
    (a = b ∨ (f.decode a = .nan ∧ f.decode b = .nan)) ↔
      (f.decode a).zeroSign? = (f.decode b).zeroSign? := by
  refine ⟨?_, fun signs => ?_⟩
  · rintro (rfl | ⟨readA, readB⟩)
    · rfl
    · rw [readA, readB]
  · rcases f.key_eq_cases odd zero same with patterns | odds | ⟨m, e, n, d, readA, readB⟩
    · exact Or.inl patterns
    · exact Or.inr odds
    · -- A zero has the least scale, so its sign is all that is left of its pattern.
      obtain ⟨normalA, patternA⟩ := f.of_decode_finite small readA
      obtain ⟨normalB, patternB⟩ := f.of_decode_finite small' readB
      rw [readA, readB] at signs
      obtain rfl : m = n := Option.some.inj signs
      rw [normalA.eq_zero_of_eq_zero] at patternA
      rw [normalB.eq_zero_of_eq_zero] at patternB
      exact Or.inl (patternA.trans patternB.symm)

/-- Of two numbers with one key, both are zeros or none is. -/
theorem Format.isSome_zeroSign?_of_key {f : Format} (odd : f.decode f.quietNaN = .nan)
    (zero : f.decode 0 = .finite false 0 0) {a b : Nat} (same : f.key a = f.key b) :
    (f.decode a).zeroSign?.isSome = (f.decode b).zeroSign?.isSome := by
  rcases f.key_eq_cases odd zero same with rfl | ⟨readA, readB⟩ | ⟨m, e, n, d, readA, readB⟩
  · rfl
  · rw [readA, readB]
  · rw [readA, readB]
    rfl

/-- The data of two formats stand for one number; zeros have their signs in common too. The units of
the formats differ, so each magnitude is counted in units of the other format. -/
def SameNumber (f g : Format) : Datum → Datum → Prop
  | .nan, .nan => True
  | .infinite m, .infinite n => m = n
  | .finite m s e, .finite n t d =>
    m = n ∧ s * 2 ^ e * 2 ^ g.unitExponent = t * 2 ^ d * 2 ^ f.unitExponent
  | _, _ => False

/-- The same number is a zero with the same sign, if it is one. -/
theorem SameNumber.zeroSign?_eq {f g : Format} {a b : Datum} (same : SameNumber f g a b) :
    a.zeroSign? = b.zeroSign? := by
  cases a <;> cases b <;> simp only [SameNumber] at same
  case nan.nan | infinite.infinite => rfl
  case finite.finite m s e n t d =>
    obtain ⟨rfl, equal⟩ := same
    have zeros : s = 0 ↔ t = 0 := by
      rw [mul_assoc, mul_assoc] at equal
      constructor
      · intro zero
        rw [zero, zero_mul] at equal
        simpa [← pow_add] using equal
      · intro zero
        rw [zero, zero_mul] at equal
        simpa [← pow_add] using equal
    rw [Datum.zeroSign?_finite, Datum.zeroSign?_finite, if_congr zeros rfl rfl]

end Binary

open Binary

namespace Binary32

variable {x y : Binary32}

theorem bits_lt (x : Binary32) : x.bits.toNat < 2 * single.signBit := x.bits.toNat_lt

theorem eq_of_bits {n : Nat} (same : n = x.bits.toNat) : (⟨UInt32.ofNat n⟩ : Binary32) = x := by
  rw [same, UInt32.ofNat_toNat]

/-- The same bit pattern, where all that are not numbers count as one. -/
def IsSame (x y : Binary32) : Prop := x.bits = y.bits ∨ (x.datum = .nan ∧ y.datum = .nan)

theorem IsSame.symm (same : x.IsSame y) : y.IsSame x := same.imp Eq.symm And.symm

theorem IsSame.trans {z : Binary32} (first : x.IsSame y) (second : y.IsSame z) : x.IsSame z := by
  rcases first with bits | ⟨odd, odd'⟩
  · obtain rfl : x = y := congrArg Binary32.mk bits
    exact second
  · rcases second with bits | ⟨-, odd''⟩
    · obtain rfl : y = z := congrArg Binary32.mk bits
      exact Or.inr ⟨odd, odd'⟩
    · exact Or.inr ⟨odd, odd''⟩

theorem IsSame.datum_eq (same : x.IsSame y) : x.datum = y.datum := by
  rcases same with bits | ⟨odd, odd'⟩
  · rw [datum, datum, bits]
  · rw [odd, odd']

theorem isSome_zeroSign?_of_key (same : x.key = y.key) :
    x.datum.zeroSign?.isSome = y.datum.zeroSign?.isSome :=
  Format.isSome_zeroSign?_of_key (by decide +kernel) (by decide +kernel) same

theorem isSame_iff_zeroSign? (same : x.key = y.key) :
    x.IsSame y ↔ x.datum.zeroSign? = y.datum.zeroSign? := by
  rw [IsSame, ← UInt32.toNat_inj]
  exact Format.same_iff_zeroSign? (by decide +kernel) (by decide +kernel) x.bits_lt y.bits_lt same

end Binary32

namespace Binary64

variable {x y : Binary64}

theorem bits_lt (x : Binary64) : x.bits.toNat < 2 * double.signBit := x.bits.toNat_lt

/-- The same bit pattern, where all that are not numbers count as one. -/
def IsSame (x y : Binary64) : Prop := x.bits = y.bits ∨ (x.datum = .nan ∧ y.datum = .nan)

theorem isSome_zeroSign?_of_key (same : x.key = y.key) :
    x.datum.zeroSign?.isSome = y.datum.zeroSign?.isSome :=
  Format.isSome_zeroSign?_of_key (by decide +kernel) (by decide +kernel) same

theorem isSame_iff_zeroSign? (same : x.key = y.key) :
    x.IsSame y ↔ x.datum.zeroSign? = y.datum.zeroSign? := by
  rw [IsSame, ← UInt64.toNat_inj]
  exact Format.same_iff_zeroSign? (by decide +kernel) (by decide +kernel) x.bits_lt y.bits_lt same

theorem IsSame.datum_eq (same : x.IsSame y) : x.datum = y.datum := by
  rcases same with bits | ⟨odd, odd'⟩
  · rw [datum, datum, bits]
  · rw [odd, odd']

theorem datum_ofNat {n : Nat} (small : n < 2 * double.signBit) :
    datum ⟨UInt64.ofNat n⟩ = double.decode n := by
  have bound : n < 2 ^ 64 := small
  rw [datum, UInt64.toNat_ofNat', Nat.mod_eq_of_lt bound]

end Binary64

namespace Binary32

variable {x : Binary32} {negative : Bool} {s e : Nat}

/-- The scale of a single leaves room for the smaller unit of doubles. -/
theorem exists_normal_double (normal : single.Normal s e) :
    ∃ t d, t * 2 ^ d = s * 2 ^ (e + (double.unitExponent - single.unitExponent)) ∧
      double.Normal t d := by
  have small := normal.small
  have finite := normal.finite
  simp only [single, Format.infinity, pow2_eq] at small finite
  apply Format.exists_normal
  · simp only [double]
    omega
  · have units : double.unitExponent - single.unitExponent = 925 := by decide
    rw [units]
    simp only [double]
    omega

/-- A finite single is widened to the same number, in the normal form of doubles. -/
theorem datum_widen (finite : x.datum = .finite negative s e) :
    ∃ t d, t * 2 ^ d = s * 2 ^ (e + (double.unitExponent - single.unitExponent)) ∧
      double.Normal t d ∧ x.widen.datum = .finite negative t d := by
  obtain ⟨normal, -⟩ := Format.of_decode_finite x.bits_lt finite
  obtain ⟨t, d, same, normal'⟩ := exists_normal_double normal
  refine ⟨t, d, same, normal', ?_⟩
  have rounded : double.round (s * 2 ^ (e + (double.unitExponent - single.unitExponent))) 0 =
      d * 2 ^ double.fractionBits + t := by
    rw [← same]
    exact Format.round_of_normal normal' 0
  have inside : d * 2 ^ double.fractionBits + t < double.signBit := by
    rw [Format.signBit_eq]
    exact Nat.lt_add_right _ normal'.finite
  simp only [widen, finite, pow2_eq, rounded]
  rw [Binary64.datum_ofNat (double.withSign_lt negative inside), Format.decode_withSign normal']

theorem datum_widen_infinite (infinite : x.datum = .infinite negative) :
    x.widen.datum = .infinite negative := by
  simp only [widen, infinite]
  rw [Binary64.datum_ofNat (double.withSign_lt negative (by decide)), Format.decode_infinite]

theorem datum_widen_nan (odd : x.datum = .nan) : x.widen.datum = .nan := by
  simp only [widen, odd]
  rw [Binary64.datum_ofNat (by decide)]
  decide +kernel

/-- Widening is exact. -/
theorem sameNumber_widen (x : Binary32) : SameNumber single double x.datum x.widen.datum := by
  cases read : x.datum with
  | nan =>
    rw [datum_widen_nan read]
    trivial
  | infinite negative =>
    rw [datum_widen_infinite read]
    rfl
  | finite negative s e =>
    obtain ⟨t, d, same, -, widened⟩ := datum_widen read
    have units : single.unitExponent ≤ double.unitExponent := by decide
    rw [widened]
    refine ⟨rfl, ?_⟩
    calc s * 2 ^ e * 2 ^ double.unitExponent
        = s * 2 ^ (e + (double.unitExponent - single.unitExponent)) * 2 ^ single.unitExponent := by
          rw [mul_assoc, mul_assoc, ← pow_add, ← pow_add, Nat.add_assoc, Nat.sub_add_cancel units]
      _ = t * 2 ^ d * 2 ^ single.unitExponent := by rw [same]

/-- Narrowing takes a widened single back. -/
theorem isSame_narrow_widen (x : Binary32) : x.widen.narrow.IsSame x := by
  cases read : x.datum with
  | nan =>
    refine Or.inr ⟨?_, read⟩
    simp only [Binary64.narrow, datum_widen_nan read]
    decide +kernel
  | infinite negative =>
    simp only [Binary64.narrow, datum_widen_infinite read]
    exact Or.inl (congrArg bits (eq_of_bits (Format.of_decode_infinite x.bits_lt read).symm))
  | finite negative s e =>
    obtain ⟨normal, pattern⟩ := Format.of_decode_finite x.bits_lt read
    obtain ⟨t, d, same, -, widened⟩ := datum_widen read
    simp only [Binary64.narrow, widened, pow2_eq, same, Format.round_of_normal normal]
    exact Or.inl (congrArg bits (eq_of_bits pattern.symm))

end Binary32

end Componentry
