import Componentry.Proofs.Binary.Widening
import Mathlib.Data.Nat.Dist

/-!
# Integers in binary formats

An integer becomes a double by one rounding, and a single by two: the nearest double is taken first,
and then the single nearest to that. Two roundings can end beside the nearest single. This happens
exactly if the integer is next to the middle of two neighbouring singles, so near that the nearest
double is the middle itself, and the half that is left then goes to the wrong side.

## Main definitions

* `Binary.RoundsTo` — a quotient to the nearest whole number, a half going to the even neighbour
* `Binary.Format.Nearest`, `Binary.Format.IsNearest` — the number of a format nearest to a given one
* `Binary.Format.rounded`, `Binary.Format.roundedInt` — rounded to as many significant bits as a
  format has
* `Binary.Displaced` — where two roundings end beside the nearest single

## Main results

* `Binary.Format.exists_decode_round` — the rounding of a format gives the nearest number
* `Binary.rounded_rounded`, `Binary.Displaced.dist_lt` — two roundings compared with one
* `Binary64.isNearest_ofInt` — the double made from an integer is the nearest one
* `Binary64.isNearest_narrow`, `Binary64.isNearest_narrow_iff` — the single made from an integer
-/

namespace Componentry

namespace Binary

/-! ### Quotients -/

/-- `q` is the whole number nearest to `n / u`, a half going to the even neighbour. -/
structure RoundsTo (n u q : Nat) : Prop where
  low : 2 * (q * u) ≤ 2 * n + u
  high : 2 * n ≤ 2 * (q * u) + u
  even : 2 * (q * u) = 2 * n + u ∨ 2 * n = 2 * (q * u) + u → q % 2 = 0

namespace RoundsTo

variable {n u q j : Nat}

/-- Multiples of the divisor are at least one divisor apart. -/
theorem mul_add_le (less : j < q) (u : Nat) : j * u + u ≤ q * u := by
  rw [← Nat.succ_mul]
  exact Nat.mul_le_mul_right u less

theorem le (positive : 0 < u) (h : RoundsTo n u q) (h' : RoundsTo n u j) : j ≤ q := by
  have ⟨_, high, even⟩ := h
  have ⟨low', _, even'⟩ := h'
  by_contra less
  have apart := mul_add_le (Nat.lt_of_not_le less) u
  -- Both are a half away, so they are neighbours, and yet both are even.
  have next : j = q + 1 := by
    by_contra other
    have further := mul_add_le (show q + 1 < j by omega) u
    rw [Nat.succ_mul] at further
    omega
  have q_even := even (by omega)
  have j_even := even' (by omega)
  omega

/-- There is one nearest whole number. -/
theorem unique (positive : 0 < u) (h : RoundsTo n u q) (h' : RoundsTo n u j) : q = j :=
  Nat.le_antisymm (h'.le positive h) (h.le positive h')

/-- A number is not rounded past a multiple of the divisor above it. -/
theorem le_of_le_mul (positive : 0 < u) (h : RoundsTo n u q) (above : n ≤ j * u) : q ≤ j := by
  have low := h.low
  by_contra larger
  have apart := mul_add_le (Nat.lt_of_not_le larger) u
  omega

/-- A number is not rounded past a multiple of the divisor below it. -/
theorem le_of_mul_le (positive : 0 < u) (h : RoundsTo n u q) (below : j * u ≤ n) : j ≤ q := by
  have high := h.high
  by_contra smaller
  have apart := mul_add_le (Nat.lt_of_not_le smaller) u
  omega

/-- No multiple of the divisor is nearer. -/
theorem dist_le (h : RoundsTo n u q) (j : Nat) : Nat.dist n (q * u) ≤ Nat.dist n (j * u) := by
  have ⟨low, high, _⟩ := h
  unfold Nat.dist
  rcases Nat.lt_trichotomy j q with less | rfl | less
  · have apart := mul_add_le less u
    omega
  · exact Nat.le_refl _
  · have apart := mul_add_le less u
    omega

/-- If another multiple of the divisor is as near, the quotient is even. -/
theorem even_of_dist (h : RoundsTo n u q) (other : j ≠ q)
    (near : Nat.dist n (j * u) = Nat.dist n (q * u)) : q % 2 = 0 := by
  have ⟨low, high, even⟩ := h
  unfold Nat.dist at near
  apply even
  rcases Nat.lt_or_gt_of_ne other with less | less
  · have apart := mul_add_le less u
    omega
  · have apart := mul_add_le less u
    omega

/-- Both sides of a quotient may be multiplied. -/
theorem mul_right (h : RoundsTo n u q) {c : Nat} (positive : 0 < c) :
    RoundsTo (n * c) (u * c) q := by
  have ⟨low, high, even⟩ := h
  have product : q * (u * c) = q * u * c := (Nat.mul_assoc q u c).symm
  refine ⟨?_, ?_, fun half => even ?_⟩
  · rw [product]
    have := Nat.mul_le_mul_right c low
    linarith
  · rw [product]
    have := Nat.mul_le_mul_right c high
    linarith
  · rw [product] at half
    refine half.imp (fun below => ?_) fun above => ?_
    · apply Nat.eq_of_mul_eq_mul_right positive
      linarith
    · apply Nat.eq_of_mul_eq_mul_right positive
      linarith

end RoundsTo

theorem roundsTo_roundQuotient (n k : Nat) : RoundsTo n (2 ^ k) (roundQuotient n k) := by
  have positive : 0 < 2 ^ k := Nat.two_pow_pos k
  have parts : n / 2 ^ k * 2 ^ k + n % 2 ^ k = n := Nat.div_add_mod' n (2 ^ k)
  have rest : n % 2 ^ k < 2 ^ k := Nat.mod_lt n positive
  unfold roundQuotient
  dsimp only
  split
  · rename_i up
    rw [pow2_eq] at up ⊢
    have next : (n / 2 ^ k + 1) * 2 ^ k = n / 2 ^ k * 2 ^ k + 2 ^ k := Nat.add_one_mul _ _
    exact ⟨by omega, by omega, by omega⟩
  · rename_i down
    rw [pow2_eq] at down ⊢
    exact ⟨by omega, by omega, by omega⟩

theorem RoundsTo.roundQuotient_eq {n k q : Nat} (h : RoundsTo n (2 ^ k) q) :
    roundQuotient n k = q :=
  (roundsTo_roundQuotient n k).unique (Nat.two_pow_pos k) h

/-! ### Rounding -/

namespace Format

variable {f : Format} {n s e : Nat}

/-- How many of the bits of a number the format has no room for. -/
def drop (f : Format) (n : Nat) : Nat := n.log2 - f.fractionBits

/-- The number rounded to as many significant bits as the format has. -/
def rounded (f : Format) (n : Nat) : Nat := roundQuotient n (f.drop n) * 2 ^ f.drop n

/-- A finite magnitude of the format is nearest to the given number of units: none is nearer, and if
another one is as near, the significand is even. -/
structure Nearest (f : Format) (n s e : Nat) : Prop where
  normal : f.Normal s e
  le : ∀ t d, f.Normal t d → Nat.dist n (s * 2 ^ e) ≤ Nat.dist n (t * 2 ^ d)
  even : ∀ t d, f.Normal t d → t * 2 ^ d ≠ s * 2 ^ e →
    Nat.dist n (t * 2 ^ d) = Nat.dist n (s * 2 ^ e) → s % 2 = 0

/-- The magnitude of an integer, in units of the format. -/
def units (f : Format) (v : Int) : Nat := v.natAbs * 2 ^ f.unitExponent

/-- The datum is the number of the format nearest to an integer, ties to even. -/
def IsNearest (f : Format) (v : Int) (d : Datum) : Prop :=
  ∃ s e, d = .finite (v < 0) s e ∧ f.Nearest (f.units v) s e

theorem rounded_of_drop {k : Nat} (dropped : f.drop n = k) :
    f.rounded n = roundQuotient n k * 2 ^ k := by
  rw [rounded, dropped]

theorem rounded_of_dvd (divides : 2 ^ f.drop n ∣ n) : f.rounded n = n := by
  obtain ⟨c, multiple⟩ := exists_eq_mul_left_of_dvd divides
  have quotient : roundQuotient n (f.drop n) = c := by
    nth_rewrite 1 [multiple]
    exact roundQuotient_mul c _
  rw [rounded, quotient]
  exact multiple.symm

theorem rounded_of_small (small : n < 2 * 2 ^ f.fractionBits) : f.rounded n = n := by
  apply rounded_of_dvd
  by_cases zero : n = 0
  · exact zero ▸ Nat.dvd_zero _
  · have fits := log2_le_fractionBits small zero
    rw [drop, Nat.sub_eq_zero_of_le fits]
    exact Nat.one_dvd n

/-- Rounding does not depend on the unit. -/
theorem rounded_mul (f : Format) (n k : Nat) : f.rounded (n * 2 ^ k) = f.rounded n * 2 ^ k := by
  by_cases zero : n = 0
  · subst zero
    rw [Nat.zero_mul, rounded_of_dvd (Nat.dvd_zero _), Nat.zero_mul]
  · have log := log2_mul_two_pow zero k
    by_cases full : f.fractionBits ≤ n.log2
    · have shifted : f.drop (n * 2 ^ k) = f.drop n + k := by
        unfold drop
        omega
      have quotient := (roundsTo_roundQuotient n (f.drop n)).mul_right (Nat.two_pow_pos k)
      rw [← pow_add] at quotient
      rw [rounded, rounded, shifted, quotient.roundQuotient_eq, pow_add, mul_assoc]
    · -- There is room for all bits of the number, and the bits after them are zeros.
      have small : n < 2 * 2 ^ f.fractionBits := by
        rw [← pow_succ', ← Nat.log2_lt zero]
        omega
      rw [rounded_of_small small, rounded_of_dvd]
      refine (Nat.pow_dvd_pow 2 ?_).mul_left n
      unfold drop
      omega

/-- A number is below the next power of two that the format has a significand for. -/
theorem lt_mul_drop (f : Format) (n : Nat) : n < 2 * 2 ^ f.fractionBits * 2 ^ f.drop n := by
  rw [← pow_succ', ← pow_add]
  refine Nat.lt_log2_self.trans_le (Nat.pow_le_pow_right (by decide) ?_)
  unfold drop
  omega

/-- If bits are dropped, what is left has as many bits as there is room for. -/
theorem mul_drop_le (drops : f.drop n ≠ 0) : 2 ^ f.fractionBits * 2 ^ f.drop n ≤ n := by
  have nonzero : n ≠ 0 := by
    rintro rfl
    exact drops (by simp [drop])
  rw [← pow_add]
  refine (Nat.pow_le_pow_right (by decide) ?_).trans (Nat.log2_self_le nonzero)
  unfold drop at drops ⊢
  omega

theorem roundQuotient_le (f : Format) (n : Nat) :
    roundQuotient n (f.drop n) ≤ 2 * 2 ^ f.fractionBits :=
  (roundsTo_roundQuotient n (f.drop n)).le_of_le_mul (Nat.two_pow_pos _) (f.lt_mul_drop n).le

theorem le_roundQuotient (drops : f.drop n ≠ 0) : 2 ^ f.fractionBits ≤ roundQuotient n (f.drop n) :=
  (roundsTo_roundQuotient n (f.drop n)).le_of_mul_le (Nat.two_pow_pos _) (mul_drop_le drops)

theorem round_eq (f : Format) (n : Nat) :
    f.round n 0 = min f.infinity (f.drop n * 2 ^ f.fractionBits + roundQuotient n (f.drop n)) := by
  simp only [round, drop, pow2_eq, Nat.max_zero, Nat.sub_zero]

/-- The normal form of a rounded number. A quotient that is rounded up to the next power of two has
one bit too many, and goes to the next scale. -/
theorem exists_normal_rounded (wide : 0 < f.fractionBits)
    (room : f.drop n + 3 < 2 ^ f.exponentBits) :
    ∃ s e, f.Normal s e ∧ f.round n 0 = e * 2 ^ f.fractionBits + s ∧ s * 2 ^ e = f.rounded n ∧
      (roundQuotient n (f.drop n) % 2 = 0 → s % 2 = 0) := by
  have most := f.roundQuotient_le n
  have finite : f.drop n * 2 ^ f.fractionBits + roundQuotient n (f.drop n) < f.infinity := by
    have positive : 0 < 2 ^ f.fractionBits := Nat.two_pow_pos _
    have larger : (f.drop n + 3) * 2 ^ f.fractionBits ≤ f.infinity :=
      Nat.mul_le_mul_right _ (by rw [pow2_eq]; omega)
    rw [Nat.add_mul] at larger
    omega
  have pattern : f.round n 0 = f.drop n * 2 ^ f.fractionBits + roundQuotient n (f.drop n) := by
    rw [round_eq]
    exact Nat.min_eq_right finite.le
  by_cases carries : roundQuotient n (f.drop n) = 2 * 2 ^ f.fractionBits
  · rw [carries] at pattern finite
    have moved : (f.drop n + 1) * 2 ^ f.fractionBits + 2 ^ f.fractionBits =
        f.drop n * 2 ^ f.fractionBits + 2 * 2 ^ f.fractionBits := by ring
    refine ⟨2 ^ f.fractionBits, f.drop n + 1, ⟨?_, Or.inr (Nat.le_refl _), ?_⟩, ?_, ?_, fun _ => ?_⟩
    · have positive : 0 < 2 ^ f.fractionBits := Nat.two_pow_pos _
      omega
    · rw [moved]
      exact finite
    · rw [moved]
      exact pattern
    · rw [rounded, carries, pow_succ]
      ring
    · obtain ⟨k, fraction⟩ := Nat.exists_eq_succ_of_ne_zero wide.ne'
      rw [fraction, pow_succ, Nat.mul_mod_left]
  · refine ⟨roundQuotient n (f.drop n), f.drop n, ⟨by omega, ?_, finite⟩, pattern, rfl, id⟩
    by_cases drops : f.drop n = 0
    · exact Or.inl drops
    · exact Or.inr (le_roundQuotient drops)

/-- A number with few enough bits is no nearer than the rounded one. -/
theorem dist_rounded (t d : Nat) (small : t < 2 * 2 ^ f.fractionBits) :
    Nat.dist n (f.rounded n) ≤ Nat.dist n (t * 2 ^ d) ∧
      (t * 2 ^ d ≠ f.rounded n → Nat.dist n (t * 2 ^ d) = Nat.dist n (f.rounded n) →
        roundQuotient n (f.drop n) % 2 = 0) := by
  have quotient := roundsTo_roundQuotient n (f.drop n)
  by_cases coarse : f.drop n ≤ d
  · -- It is a multiple of the divisor too.
    have multiple : t * 2 ^ d = t * 2 ^ (d - f.drop n) * 2 ^ f.drop n := by
      rw [mul_assoc, ← pow_add, Nat.sub_add_cancel coarse]
    rw [multiple]
    refine ⟨quotient.dist_le _, fun other near => quotient.even_of_dist ?_ near⟩
    rintro same
    exact other (congrArg (· * 2 ^ f.drop n) same)
  · -- It is below the least number with a leading bit, which lies between it and `n`.
    have above : 2 ^ f.fractionBits * 2 ^ f.drop n ≤ n := mul_drop_le (by omega)
    have below : t * 2 ^ d < 2 ^ f.fractionBits * 2 ^ f.drop n := by
      calc t * 2 ^ d < 2 * 2 ^ f.fractionBits * 2 ^ d :=
        Nat.mul_lt_mul_of_pos_right small (Nat.two_pow_pos d)
        _ = 2 ^ f.fractionBits * 2 ^ (d + 1) := by rw [pow_succ]; ring
        _ ≤ 2 ^ f.fractionBits * 2 ^ f.drop n :=
          Nat.mul_le_mul_left _ (Nat.pow_le_pow_right (by decide) (by omega))
    have nearer : Nat.dist n (f.rounded n) < Nat.dist n (t * 2 ^ d) := by
      refine (quotient.dist_le (2 ^ f.fractionBits)).trans_lt ?_
      unfold Nat.dist
      omega
    exact ⟨nearer.le, fun _ near => absurd near nearer.ne'⟩

theorem withSign_round_lt (f : Format) (negative : Bool) (n k : Nat) :
    f.withSign negative (f.round n k) < 2 * f.signBit := by
  apply f.withSign_lt
  rw [signBit_eq]
  exact lt_add_of_le_of_pos (Nat.min_le_left _ _) (Nat.two_pow_pos _)

/-- The rounding of a format gives the nearest number. -/
theorem exists_decode_round (wide : 0 < f.fractionBits) (room : f.drop n + 3 < 2 ^ f.exponentBits)
    (negative : Bool) :
    ∃ s e, f.decode (f.withSign negative (f.round n 0)) = .finite negative s e ∧
      s * 2 ^ e = f.rounded n ∧ f.Nearest n s e := by
  obtain ⟨s, e, normal, pattern, value, parity⟩ := exists_normal_rounded wide room
  refine ⟨s, e, by rw [pattern, decode_withSign normal], value, normal, ?_, ?_⟩
  all_goals
    intro t d other
    rw [value]
  · exact (dist_rounded t d other.small).1
  · exact fun different near => parity ((dist_rounded t d other.small).2 different near)

/-- Rounding to a coarser unit does not depend on the finer one. -/
theorem round_mul (f : Format) (n k : Nat) : f.round (n * 2 ^ k) k = f.round n 0 := by
  by_cases zero : n = 0
  · subst zero
    simp [round, roundQuotient]
  · have drop_eq : max ((n * 2 ^ k).log2 - f.fractionBits) k = f.drop n + k := by
      rw [log2_mul_two_pow zero]
      unfold drop
      omega
    have quotient := (roundsTo_roundQuotient n (f.drop n)).mul_right (Nat.two_pow_pos k)
    rw [← pow_add] at quotient
    rw [round_eq]
    simp only [round, drop_eq, quotient.roundQuotient_eq, Nat.add_sub_cancel, pow2_eq]

/-- A finite magnitude has one normal form. -/
theorem Normal.unique {t d : Nat} (normal : f.Normal s e) (normal' : f.Normal t d)
    (same : s * 2 ^ e = t * 2 ^ d) : s = t ∧ e = d := by
  have patterns : e * 2 ^ f.fractionBits + s = d * 2 ^ f.fractionBits + t :=
    calc e * 2 ^ f.fractionBits + s = f.round (s * 2 ^ e) 0 := (round_of_normal normal 0).symm
      _ = d * 2 ^ f.fractionBits + t := by rw [same]; exact round_of_normal normal' 0
  have read := decode_withSign normal false
  rw [patterns, decode_withSign normal' false] at read
  obtain ⟨-, significands, scales⟩ := Datum.finite.inj read
  exact ⟨significands.symm, scales.symm⟩

theorem rounded_eq {k q : Nat} (least : 2 ^ (k + f.fractionBits) ≤ n)
    (most : n < 2 ^ (k + f.fractionBits + 1)) (quotient : RoundsTo n (2 ^ k) q) :
    f.rounded n = q * 2 ^ k := by
  have nonzero : n ≠ 0 := (Nat.two_pow_pos _).trans_le least |>.ne'
  have dropped : f.drop n = k := by
    rw [drop, (Nat.log2_eq_iff nonzero).mpr ⟨least, most⟩, Nat.add_sub_cancel]
  rw [rounded_of_drop dropped, quotient.roundQuotient_eq]

end Format

/-! ### Two roundings -/

/-- A number that two roundings, first to the bits of doubles and then to those of singles, do not
take to the nearest single. The middle of two neighbouring singles with the significands `q` and `q
+ 1` is `(2 * q + 1) * 2 ^ (j + 29)`, and the middle is the double nearest to whatever is within `2
^ j` of it. The half that is left then goes to the even one of `q` and `q + 1`, and this is the one
on the other side. -/
def Displaced (n : Nat) : Prop :=
  ∃ q j, 2 ^ 23 ≤ q ∧ q < 2 ^ 24 ∧
    (q % 2 = 0 ∧ (2 * q + 1) * 2 ^ (j + 29) < n ∧ n ≤ (2 * q + 1) * 2 ^ (j + 29) + 2 ^ j ∨
      q % 2 = 1 ∧ n < (2 * q + 1) * 2 ^ (j + 29) ∧ (2 * q + 1) * 2 ^ (j + 29) ≤ n + 2 ^ j)

variable {n : Nat}

/-- One rounding takes a displaced number to a nearer single than two do. -/
theorem Displaced.dist_lt (h : Displaced n) :
    Nat.dist n (single.rounded n) < Nat.dist n (single.rounded (double.rounded n)) := by
  obtain ⟨q, j, least, most, sides⟩ := h
  have positive : 0 < 2 ^ j := Nat.two_pow_pos j
  have low : 2 ^ 23 * 2 ^ j ≤ q * 2 ^ j := Nat.mul_le_mul_right _ least
  have high : q * 2 ^ j + 2 ^ j ≤ 2 ^ 24 * 2 ^ j := RoundsTo.mul_add_le most _
  -- All powers are multiples of `2 ^ j`, so that what follows is linear.
  have middle : (2 * q + 1) * 2 ^ (j + 29) = 2 ^ 30 * (q * 2 ^ j) + 2 ^ 29 * 2 ^ j := by ring
  have lower : q * 2 ^ (j + 30) = 2 ^ 30 * (q * 2 ^ j) := by ring
  have upper : (q + 1) * 2 ^ (j + 30) = 2 ^ 30 * (q * 2 ^ j) + 2 ^ 30 * 2 ^ j := by ring
  have binade : 2 ^ (j + 53) = 2 ^ 53 * 2 ^ j ∧ 2 ^ (j + 54) = 2 ^ 54 * 2 ^ j := ⟨by ring, by ring⟩
  have wide : 2 ^ (j + 30) = 2 ^ 30 * 2 ^ j := by ring
  have toMiddle : double.rounded n = (2 * q + 1) * 2 ^ (j + 29) := by
    have product : (2 * q + 1) * 2 ^ 28 * 2 ^ (j + 1) = (2 * q + 1) * 2 ^ (j + 29) := by ring
    have width : 2 ^ (j + 1) = 2 * 2 ^ j := pow_succ' 2 j
    rw [← product]
    apply Format.rounded_eq
    · show 2 ^ (j + 53) ≤ n
      omega
    · show n < 2 ^ (j + 54)
      omega
    · exact ⟨by omega, by omega, by omega⟩
  have single_eq {m p : Nat} (above : 2 ^ (j + 53) ≤ m) (below : m < 2 ^ (j + 54))
      (quotient : RoundsTo m (2 ^ (j + 30)) p) : single.rounded m = p * 2 ^ (j + 30) :=
    Format.rounded_eq above below quotient
  rw [toMiddle]
  rcases sides with ⟨even, above, near⟩ | ⟨odd, below, near⟩
  · rw [single_eq (by omega) (by omega) (⟨by omega, by omega, by omega⟩ : RoundsTo n _ (q + 1)),
      single_eq (by omega) (by omega) (⟨by omega, by omega, by omega⟩ : RoundsTo _ _ q)]
    unfold Nat.dist
    omega
  · rw [single_eq (by omega) (by omega) (⟨by omega, by omega, by omega⟩ : RoundsTo n _ q),
      single_eq (by omega) (by omega) (⟨by omega, by omega, by omega⟩ : RoundsTo _ _ (q + 1))]
    unfold Nat.dist
    omega

/-- A number that is not displaced has the same quotient as the double that it is rounded to. -/
theorem RoundsTo.of_rounded {j q c : Nat} (coarse : RoundsTo n (2 ^ (j + 30)) q)
    (fine : RoundsTo n (2 ^ (j + 1)) c) (low : 2 ^ 23 ≤ q) (high : q ≤ 2 ^ 24)
    (exactly : ¬ Displaced n) : RoundsTo (c * 2 ^ (j + 1)) (2 ^ (j + 30)) q := by
  have ⟨coarseLow, coarseHigh, coarseEven⟩ := coarse
  have ⟨fineLow, fineHigh, _⟩ := fine
  obtain ⟨p, rfl⟩ := Nat.exists_eq_add_of_le' (Nat.one_le_two_pow.trans low)
  have positive : 0 < 2 ^ j := Nat.two_pow_pos j
  have width : 2 ^ (j + 1) = 2 * 2 ^ j := pow_succ' 2 j
  have wide : 2 ^ (j + 30) = 2 ^ 30 * 2 ^ j := by ring
  have multiple : (p + 1) * 2 ^ (j + 30) = 2 ^ 30 * (p * 2 ^ j) + 2 ^ 30 * 2 ^ j := by ring
  -- The middles below and above the quotient are doubles, so the number is not rounded past them.
  have below : (2 * p + 1) * 2 ^ (j + 29) = 2 ^ 30 * (p * 2 ^ j) + 2 ^ 29 * 2 ^ j := by ring
  have above : (2 * (p + 1) + 1) * 2 ^ (j + 29) = 2 ^ 30 * (p * 2 ^ j) + 3 * 2 ^ 29 * 2 ^ j := by
    ring
  have lower : (2 * p + 1) * 2 ^ 28 * 2 ^ (j + 1) = (2 * p + 1) * 2 ^ (j + 29) := by ring
  have upper : (2 * (p + 1) + 1) * 2 ^ 28 * 2 ^ (j + 1) = (2 * (p + 1) + 1) * 2 ^ (j + 29) := by
    ring
  have fromBelow : (2 * p + 1) * 2 ^ 28 * 2 ^ (j + 1) ≤ c * 2 ^ (j + 1) :=
    Nat.mul_le_mul_right _ (fine.le_of_mul_le (Nat.two_pow_pos _) (by omega))
  have fromAbove : c * 2 ^ (j + 1) ≤ (2 * (p + 1) + 1) * 2 ^ 28 * 2 ^ (j + 1) :=
    Nat.mul_le_mul_right _ (fine.le_of_le_mul (Nat.two_pow_pos _) (by omega))
  refine ⟨by omega, by omega, fun half => ?_⟩
  by_contra odd
  -- The double is a middle that the number itself is not, and so the number is displaced.
  apply exactly
  rcases half with half | half
  · exact ⟨p, j, by omega, by omega, Or.inl ⟨by omega, by omega, by omega⟩⟩
  · exact ⟨p + 1, j, low, by omega, Or.inr ⟨by omega, by omega, by omega⟩⟩

/-- Two roundings of a number that is not displaced are one rounding. -/
theorem rounded_rounded (exactly : ¬ Displaced n) :
    single.rounded (double.rounded n) = single.rounded n := by
  by_cases small : n < 2 * 2 ^ 52
  · rw [Format.rounded_of_small (f := double) small]
  · have nonzero : n ≠ 0 := by omega
    obtain ⟨j, log⟩ := Nat.exists_eq_add_of_le' ((Nat.le_log2 (k := 53) nonzero).mpr (by omega))
    have fineDrop : double.drop n = j + 1 := by
      rw [Format.drop, log]
      rfl
    have coarseDrop : single.drop n = j + 30 := by
      rw [Format.drop, log]
      rfl
    have least := Format.le_roundQuotient (f := double) (n := n) (by omega)
    have most := double.roundQuotient_le n
    have low := Format.le_roundQuotient (f := single) (n := n) (by omega)
    have high := single.roundQuotient_le n
    rw [fineDrop] at least most
    rw [coarseDrop] at low high
    have both :=
      (roundsTo_roundQuotient n (j + 30)).of_rounded (roundsTo_roundQuotient n (j + 1)) low high
        exactly
    rw [Format.rounded_of_drop fineDrop, Format.rounded_of_drop coarseDrop]
    by_cases carries : roundQuotient n (j + 1) = 2 * 2 ^ 52
    · -- The double is a power of two, which is a single too.
      have power : 2 * 2 ^ 52 * 2 ^ (j + 1) = 2 ^ 24 * 2 ^ (j + 30) := by ring
      rw [carries, power] at both ⊢
      rw [← both.roundQuotient_eq, roundQuotient_mul, ← pow_add, Format.rounded_of_dvd]
      rw [Format.drop, Nat.log2_two_pow]
      exact Nat.pow_dvd_pow 2 (Nat.sub_le _ _)
    · apply Format.rounded_eq _ _ both
      · calc 2 ^ (j + 53) = 2 ^ 52 * 2 ^ (j + 1) := by ring
          _ ≤ roundQuotient n (j + 1) * 2 ^ (j + 1) := Nat.mul_le_mul_right _ least
      · calc roundQuotient n (j + 1) * 2 ^ (j + 1) < 2 * 2 ^ 52 * 2 ^ (j + 1) :=
            Nat.mul_lt_mul_of_pos_right (lt_of_le_of_ne most carries) (Nat.two_pow_pos _)
          _ = 2 ^ (j + 54) := by ring

/-- Two roundings go astray only for numbers that have more bits than a double. -/
theorem Displaced.le (h : Displaced n) : 2 ^ 53 ≤ n := by
  obtain ⟨q, j, least, -, sides⟩ := h
  have positive : 0 < 2 ^ j := Nat.two_pow_pos j
  have middle : (2 * q + 1) * 2 ^ (j + 29) = 2 ^ 30 * (q * 2 ^ j) + 2 ^ 29 * 2 ^ j := by ring
  have low : 2 ^ 23 * 2 ^ j ≤ q * 2 ^ j := Nat.mul_le_mul_right _ least
  omega

/-! ### Integers -/

namespace Format

variable {f : Format} {v : Int}

/-- The integer rounded to as many significant bits as the format has. -/
def roundedInt (f : Format) (v : Int) : Int := v.sign * f.rounded v.natAbs

/-- The datum is the given integer. -/
def StandsFor (f : Format) (d : Datum) (v : Int) : Prop :=
  ∃ s e, d = .finite (v < 0) s e ∧ s * 2 ^ e = f.units v

theorem rounded_le (f : Format) (n : Nat) : f.rounded n ≤ 2 * n := by
  have nearest := (dist_rounded (n := n) 0 0 (by positivity : 0 < 2 * 2 ^ f.fractionBits)).1
  unfold Nat.dist at nearest
  omega

theorem rounded_pos (nonzero : n ≠ 0) : 0 < f.rounded n := by
  have one : 1 < 2 * 2 ^ f.fractionBits := by
    have := Nat.two_pow_pos f.fractionBits
    omega
  have nearest := (dist_rounded (n := n) 1 0 one).1
  unfold Nat.dist at nearest
  omega

theorem natAbs_roundedInt (f : Format) (v : Int) :
    (f.roundedInt v).natAbs = f.rounded v.natAbs := by
  rw [roundedInt, Int.natAbs_mul, Int.natAbs_sign, Int.natAbs_natCast]
  split
  · rename_i zero
    subst zero
    exact (Nat.zero_mul _).trans (rounded_of_dvd (Nat.dvd_zero _)).symm
  · exact Nat.one_mul _

theorem roundedInt_neg_iff (f : Format) (v : Int) : f.roundedInt v < 0 ↔ v < 0 := by
  by_cases zero : v = 0
  · simp [zero, roundedInt]
  · have positive : (0 : Int) < f.rounded v.natAbs :=
      Int.natCast_pos.mpr (rounded_pos (Int.natAbs_ne_zero.mpr zero))
    rw [roundedInt, ← Int.sign_neg_iff, Int.sign_mul, Int.sign_sign,
      Int.sign_eq_one_of_pos positive, mul_one, Int.sign_neg_iff]

/-- An integer of 64 bits is finite in a format whose exponents go far enough. -/
theorem room_of_le (small : v.natAbs ≤ 2 ^ 64)
    (enough : 64 + f.unitExponent - f.fractionBits + 3 < 2 ^ f.exponentBits) :
    f.drop (f.units v) + 3 < 2 ^ f.exponentBits := by
  refine (Nat.add_le_add_right ?_ 3).trans_lt enough
  by_cases zero : v.natAbs = 0
  · simp [units, zero, drop]
  · have log : v.natAbs.log2 ≤ 64 :=
      (Nat.pow_le_pow_iff_right (by decide)).mp ((Nat.log2_self_le zero).trans small)
    rw [drop, units, log2_mul_two_pow zero]
    omega

/-- The rounding of an integer is the nearest number of the format, and an integer too. -/
theorem isNearest_decode_round (wide : 0 < f.fractionBits) (small : v.natAbs ≤ 2 ^ 64)
    (enough : 64 + f.unitExponent - f.fractionBits + 3 < 2 ^ f.exponentBits) :
    f.IsNearest v (f.decode (f.withSign (v < 0) (f.round (f.units v) 0))) ∧
      f.StandsFor (f.decode (f.withSign (v < 0) (f.round (f.units v) 0))) (f.roundedInt v) := by
  obtain ⟨s, e, read, value, nearest⟩ := exists_decode_round wide (room_of_le small enough) (v < 0)
  refine ⟨⟨s, e, read, nearest⟩, s, e, ?_, ?_⟩
  · simp only [read, roundedInt_neg_iff]
  · rw [value, units, units, rounded_mul, natAbs_roundedInt]

end Format

end Binary

open Binary

theorem Binary32.datum_ofNat {n : Nat} (small : n < 2 * single.signBit) :
    datum ⟨UInt32.ofNat n⟩ = single.decode n := by
  have bound : n < 2 ^ 32 := small
  rw [datum, UInt32.toNat_ofNat', Nat.mod_eq_of_lt bound]

namespace Binary64

variable {v : Int}

/-- The double made from an integer of 64 bits is the nearest one. -/
theorem isNearest_ofInt (small : v.natAbs ≤ 2 ^ 63) :
    double.IsNearest v (ofInt v).datum ∧
    double.StandsFor (ofInt v).datum (double.roundedInt v) := by
  have read : (ofInt v).datum =
      double.decode (double.withSign (v < 0) (double.round (double.units v) 0)) := by
    rw [← datum_ofNat (double.withSign_round_lt _ _ _)]
    simp only [ofInt, Format.units, pow2_eq]
  rw [read]
  exact Format.isNearest_decode_round (by decide) (by omega) (by decide)

/-- The single made from an integer of 64 bits is the one nearest to the nearest double. -/
theorem isNearest_narrow (small : v.natAbs ≤ 2 ^ 63) :
    single.IsNearest (double.roundedInt v) (ofInt v).narrow.datum ∧
      single.StandsFor (ofInt v).narrow.datum (single.roundedInt (double.roundedInt v)) := by
  obtain ⟨s, e, read, value⟩ := (isNearest_ofInt small).2
  -- Both formats count in units, and those of doubles are finer.
  have finer : s * 2 ^ e = single.units (double.roundedInt v) *
      2 ^ (double.unitExponent - single.unitExponent) := by
    rw [value, Format.units, Format.units, mul_assoc, ← pow_add, Nat.add_sub_cancel' (by decide)]
  have narrowed : (ofInt v).narrow.datum = single.decode (single.withSign (double.roundedInt v < 0)
      (single.round (single.units (double.roundedInt v)) 0)) := by
    rw [← Binary32.datum_ofNat (single.withSign_round_lt _ _ _)]
    simp only [narrow, read, pow2_eq, finer, Format.round_mul]
  have bounded : (double.roundedInt v).natAbs ≤ 2 ^ 64 := by
    have := double.rounded_le v.natAbs
    rw [Format.natAbs_roundedInt]
    omega
  rw [narrowed]
  exact Format.isNearest_decode_round (by decide) bounded (by decide)

/-- The single made from an integer of 64 bits is the nearest one exactly if the integer is not
displaced. -/
theorem isNearest_narrow_iff (small : v.natAbs ≤ 2 ^ 63) :
    single.IsNearest v (ofInt v).narrow.datum ↔ ¬ Displaced v.natAbs := by
  obtain ⟨⟨s, e, read, closest⟩, s', e', read', twice⟩ := isNearest_narrow small
  obtain ⟨-, rfl, rfl⟩ := Datum.finite.inj (read.symm.trans read')
  have enough : 64 + single.unitExponent - single.fractionBits + 3 < 2 ^ single.exponentBits := by
    decide
  obtain ⟨t, d, -, once, nearest⟩ := Format.exists_decode_round (f := single) (by decide)
    (Format.room_of_le (v := v) (by omega) enough) (v < 0)
  rw [Format.units, Format.natAbs_roundedInt, Format.natAbs_roundedInt] at twice
  rw [Format.units, Format.rounded_mul] at once
  refine ⟨?_, fun exactly => ?_⟩
  · rintro ⟨s', e', read', nearest'⟩ displaced
    obtain ⟨-, rfl, rfl⟩ := Datum.finite.inj (read.symm.trans read')
    have nearer :=
      Nat.mul_lt_mul_of_pos_right displaced.dist_lt (Nat.two_pow_pos single.unitExponent)
    rw [← Nat.dist_mul_right, ← Nat.dist_mul_right, ← once, ← twice] at nearer
    exact absurd (nearest'.le t d nearest.normal) (Nat.not_le.mpr nearer)
  · rw [rounded_rounded exactly, ← once] at twice
    obtain ⟨rfl, rfl⟩ := closest.normal.unique nearest.normal twice
    refine ⟨s, e, ?_, nearest⟩
    simp only [read, Format.roundedInt_neg_iff]

end Binary64

end Componentry
