import Mathlib
import SinglePass.Binary64.Rounding
import SinglePass.Decimal.Shortest

/-!
# Rounding and reading back

The double nearest to a quotient depends on the quotient alone (`Binary64.nearest_congr`), and a double is the nearest
one to itself (`Binary64.nearest_ratio`).  The shortcuts that are taken for very large and very small decimals give the
same result as the quotient, as far as it is finite (`Binary64.min_nearestDecimal`).

So whether a decimal reads back as a finite double depends on the value of the decimal alone
(`Decimal.readsBack_congr`).  The exact expansion of a double reads back, every neighbour that is taken for it has been
tried, and zeros at the end do not matter; hence the digits that are chosen for a double read back
(`Decimal.readsBack_shortest`).
-/

namespace SinglePass

/-! ### Division rounded to the nearest integer -/

theorem roundDiv_mul {k : Nat} (hk : 0 < k) (num den : Nat) : roundDiv (num * k) (den * k) = roundDiv num den := by
  have hlt : 2 * (num % den * k) < den * k ↔ 2 * (num % den) < den := by
    rw [← Nat.mul_assoc, Nat.mul_lt_mul_right hk]
  have hgt : den * k < 2 * (num % den * k) ↔ den < 2 * (num % den) := by
    rw [← Nat.mul_assoc, Nat.mul_lt_mul_right hk]
  simp only [roundDiv, Nat.mul_div_mul_right _ _ hk, Nat.mul_mod_mul_right, hlt, hgt]

theorem roundDiv_exact {den : Nat} (h : 0 < den) (n : Nat) : roundDiv (n * den) den = n := by
  simp only [roundDiv, Nat.mul_div_cancel _ h, Nat.mul_mod_left]
  rw [if_pos (by omega)]

theorem roundDiv_eq_zero {num den : Nat} (h : 2 * num < den) : roundDiv num den = 0 := by
  have hlt : num < den := by omega
  simp only [roundDiv, Nat.div_eq_of_lt hlt, Nat.mod_eq_of_lt hlt]
  rw [if_pos h]

namespace Binary64

/-! ### Rounding depends on the quotient alone -/

/-- The unit is `2 ^ (-unitExponent)`.  Powers of two with this exponent are not to be computed. -/
@[irreducible]
def unitExponent : Nat := 1074

theorem unitExponent_eq : unitExponent = 1074 := by
  rw [unitExponent]

/-- The number one in units. -/
def oneUnits : Nat := 2 ^ unitExponent

theorem oneUnits_pos : 0 < oneUnits := Nat.two_pow_pos _

theorem nearest_eq (num den : Nat) : nearest num den =
    (Nat.log2 (num * oneUnits / den) - 52) * leadingBit +
      roundDiv (num * oneUnits) (den * 2 ^ (Nat.log2 (num * oneUnits / den) - 52)) := by
  simp only [nearest, oneUnits, ← unitExponent_eq, Nat.pow_eq]

theorem nearest_mul {k : Nat} (hk : 0 < k) (num den : Nat) : nearest (num * k) (den * k) = nearest num den := by
  simp only [nearest_eq, Nat.mul_right_comm num k, Nat.mul_right_comm den k, Nat.mul_div_mul_right _ _ hk,
    roundDiv_mul hk]

theorem nearest_congr {a b a' b' : Nat} (hb : 0 < b) (hb' : 0 < b') (h : (a : ℚ) / b = a' / b') :
    nearest a b = nearest a' b' := by
  have hcross : a * b' = a' * b := by
    rw [div_eq_div_iff (by positivity) (by positivity)] at h
    exact_mod_cast h
  calc nearest a b = nearest (a * b') (b * b') := (nearest_mul hb' a b).symm
    _ = nearest (a' * b) (b' * b) := by rw [hcross, Nat.mul_comm b b']
    _ = nearest a' b' := nearest_mul hb a' b'

/-- A quotient of less than half the smallest double is rounded to zero. -/
theorem nearest_eq_zero {num den : Nat} (h : 2 * (num * oneUnits) < den) : nearest num den = 0 := by
  have hdiv : num * oneUnits / den = 0 := Nat.div_eq_of_lt (by omega)
  simp only [nearest_eq, hdiv, Nat.log2_zero, Nat.zero_sub, Nat.zero_mul, Nat.pow_zero, Nat.mul_one,
    roundDiv_eq_zero h]

/-- A quotient of at least `2 ^ 1025` is beyond all doubles. -/
theorem infinite_le_nearest {num den : Nat} (h : 2099 ≤ Nat.log2 (num * oneUnits / den)) :
    infinite ≤ nearest num den := by
  have hscale : 2047 * leadingBit ≤ (Nat.log2 (num * oneUnits / den) - 52) * leadingBit :=
    Nat.mul_le_mul_right _ (by omega)
  rw [nearest_eq]
  exact hscale.trans (Nat.le_add_right _ _)

/-! ### Doubles are rounded to themselves -/

/-- The absolute value of a finite number. -/
def value (x : Binary64) : ℚ := x.ratio.1 / x.ratio.2

private theorem log2_sub {s e : Nat} (hs : s < 2 ^ 53) (he : e = 0 ∨ 2 ^ 52 ≤ s) : Nat.log2 (s * 2 ^ e) - 52 = e := by
  by_cases hzero : s = 0
  · have he : e = 0 := by omega
    simp [hzero, he]
  have hpos : 0 < 2 ^ e := by positivity
  have hne : s * 2 ^ e ≠ 0 := by positivity
  have hlt : Nat.log2 (s * 2 ^ e) < 53 + e := by
    rw [Nat.log2_lt hne, pow_add]
    exact Nat.mul_lt_mul_of_pos_right hs hpos
  rcases he with rfl | he
  · omega
  · have hle : 52 + e ≤ Nat.log2 (s * 2 ^ e) := by
      rw [Nat.le_log2 hne, pow_add]
      exact Nat.mul_le_mul_right _ he
    omega

theorem nearest_exact {s e : Nat} (hs : s < 2 ^ 53) (he : e = 0 ∨ 2 ^ 52 ≤ s) :
    nearest (s * 2 ^ e) oneUnits = e * leadingBit + s := by
  have hunits : s * 2 ^ e * oneUnits = s * (oneUnits * 2 ^ e) := by
    rw [Nat.mul_assoc, Nat.mul_comm (2 ^ e)]
  have hpos : 0 < oneUnits * 2 ^ e := Nat.mul_pos oneUnits_pos (by positivity)
  rw [nearest_eq, Nat.mul_div_cancel _ oneUnits_pos, log2_sub hs he, hunits, roundDiv_exact hpos]

theorem significand_lt (x : Binary64) : x.significand < 2 ^ 53 := by
  rw [significand, leadingBit]
  split <;> omega

theorem scale_eq_or (x : Binary64) : x.scale = 0 ∨ 2 ^ 52 ≤ x.significand := by
  rw [scale, significand, leadingBit]
  split
  · left
    omega
  · right
    omega

theorem magnitude_eq (x : Binary64) : x.magnitude = x.scale * leadingBit + x.significand := by
  rw [scale, significand, leadingBit]
  split <;> omega

theorem ratio_pos (x : Binary64) : 0 < x.ratio.2 := Nat.two_pow_pos _

theorem ratio_eq (x : Binary64) :
    x.ratio = (x.significand * 2 ^ (x.scale - unitExponent), 2 ^ (unitExponent - x.scale)) := by
  simp only [ratio, ← unitExponent_eq, Nat.pow_eq]

theorem value_eq (x : Binary64) : x.value = (x.significand * 2 ^ x.scale : Nat) / (oneUnits : Nat) := by
  have hexp : x.scale - unitExponent + unitExponent = x.scale + (unitExponent - x.scale) := by omega
  have hcross : x.ratio.1 * oneUnits = x.significand * 2 ^ x.scale * x.ratio.2 := by
    rw [ratio_eq, oneUnits, Nat.mul_assoc, Nat.mul_assoc, ← pow_add, ← pow_add, hexp]
  have hden := x.ratio_pos
  have hone := oneUnits_pos
  rw [value, div_eq_div_iff (by positivity) (by positivity)]
  exact_mod_cast hcross

theorem nearest_ratio (x : Binary64) : nearest x.ratio.1 x.ratio.2 = x.magnitude := by
  rw [nearest_congr x.ratio_pos oneUnits_pos x.value_eq, nearest_exact x.significand_lt x.scale_eq_or, magnitude_eq]

end Binary64

/-! ### Rounding of decimals -/

namespace Decimal

def value (d : Decimal) : ℚ := d.coefficient * 10 ^ d.exponent

theorem value_eq (d : Decimal) : d.value =
    (d.coefficient * 10 ^ d.exponent.toNat : Nat) / (10 ^ (-d.exponent).toNat : Nat) := by
  obtain ⟨n, h | h⟩ := d.exponent.eq_nat_or_neg
  · rw [value, h]
    simp
  · rw [value, h]
    simp [div_eq_mul_inv]

end Decimal

namespace Binary64

theorem two_pow_le_ten_pow (n : Nat) : 2 ^ (3 * n) ≤ 10 ^ n := by
  rw [pow_mul]
  exact Nat.pow_le_pow_left (by norm_num) n

theorem log2_large {c n : Nat} (hc : c ≠ 0) (hn : 400 < n) : 2099 ≤ Nat.log2 (c * 10 ^ n * oneUnits) := by
  have hne : c * 10 ^ n * oneUnits ≠ 0 := by
    have hone := oneUnits_pos
    positivity
  rw [Nat.le_log2 hne]
  have hexp : 2099 ≤ 3 * n + unitExponent := by
    rw [unitExponent_eq]
    omega
  calc 2 ^ 2099 ≤ 2 ^ (3 * n + unitExponent) := Nat.pow_le_pow_right (by norm_num) hexp
    _ = 2 ^ (3 * n) * oneUnits := pow_add _ _ _
    _ ≤ c * 10 ^ n * oneUnits := by
      apply Nat.mul_le_mul_right
      exact (two_pow_le_ten_pow n).trans (Nat.le_mul_of_pos_left _ (Nat.pos_of_ne_zero hc))

theorem lt_ten_pow {c n : Nat} (h : c.log2 + 1100 < 3 * n) : 2 * (c * oneUnits) < 10 ^ n := by
  have hexp : c.log2 + 1 + 1 + unitExponent ≤ 3 * n := by
    rw [unitExponent_eq]
    omega
  calc 2 * (c * oneUnits) < 2 * (2 ^ (c.log2 + 1) * oneUnits) := by
        have hlt := Nat.mul_lt_mul_of_pos_right (@Nat.lt_log2_self c) oneUnits_pos
        omega
    _ = 2 ^ (c.log2 + 1 + 1 + unitExponent) := by
      rw [oneUnits]
      ring
    _ ≤ 2 ^ (3 * n) := Nat.pow_le_pow_right (by norm_num) hexp
    _ ≤ 10 ^ n := two_pow_le_ten_pow n

/-- The shortcuts for large and small decimals do not change the result, as far as it is finite. -/
theorem min_nearestDecimal (coefficient : Nat) (exponent : Int) :
    min infinite (nearestDecimal coefficient exponent) =
      min infinite (nearest (coefficient * 10 ^ exponent.toNat) (10 ^ (-exponent).toNat)) := by
  rw [nearestDecimal]
  split
  · rename_i hzero
    have hsmall : 2 * (coefficient * 10 ^ exponent.toNat * oneUnits) < 10 ^ (-exponent).toNat := by
      simp [hzero]
    rw [nearest_eq_zero hsmall]
  rename_i hne
  split
  · -- beyond all doubles
    rename_i hlarge
    have hzero : (-exponent).toNat = 0 := by omega
    have hinfinite : infinite ≤ nearest (coefficient * 10 ^ exponent.toNat) (10 ^ (-exponent).toNat) := by
      apply infinite_le_nearest
      rw [hzero, pow_zero, Nat.div_one]
      exact log2_large hne (by omega)
    rw [min_self, min_eq_left hinfinite]
  split
  · -- below half the smallest double
    rename_i hsmall
    have hzero : exponent.toNat = 0 := by omega
    rw [hzero, pow_zero, Nat.mul_one, nearest_eq_zero (lt_ten_pow hsmall)]
  · rfl

end Binary64

/-! ### Decimals that read back -/

namespace Decimal

variable {x : Binary64} {d d' : Decimal}

theorem readsBack_iff (hx : x.isFinite = true) (d : Decimal) : readsBack x d = true ↔
    min Binary64.infinite (Binary64.nearest (d.coefficient * 10 ^ d.exponent.toNat) (10 ^ (-d.exponent).toNat)) =
      x.magnitude := by
  have hlt : x.magnitude < Binary64.infinite := of_decide_eq_true hx
  rw [← Binary64.min_nearestDecimal, readsBack, beq_iff_eq]
  omega

/-- Whether a decimal reads back depends on its value alone. -/
theorem readsBack_congr (hx : x.isFinite = true) (h : d.value = d'.value) : readsBack x d = readsBack x d' := by
  rw [value_eq, value_eq] at h
  rw [Bool.eq_iff_iff, readsBack_iff hx, readsBack_iff hx,
    Binary64.nearest_congr (by positivity) (by positivity) h]

theorem readsBack_of_value_eq (hx : x.isFinite = true) (h : d.value = x.value) : readsBack x d = true := by
  have hlt : x.magnitude < Binary64.infinite := of_decide_eq_true hx
  rw [value_eq] at h
  rw [readsBack_iff hx, Binary64.nearest_congr (by positivity) x.ratio_pos h, x.nearest_ratio]
  exact min_eq_right hlt.le

theorem value_trim (d : Decimal) : d.trim.value = d.value := by
  fun_induction trim d with
  | case1 d h => simp [value, h]
  | case2 d h hdvd ih =>
    have hten : (d.coefficient : ℚ) = (d.coefficient / 10 : Nat) * 10 := by
      exact_mod_cast (Nat.div_mul_cancel (Nat.dvd_of_mod_eq_zero hdvd)).symm
    rw [ih, value, value, hten, zpow_add_one₀ (by norm_num)]
    ring
  | case3 => rfl

theorem expansion_eq (x : Binary64) : expansion x =
    ⟨x.ratio.1 * 5 ^ (Binary64.unitExponent - x.scale), -((Binary64.unitExponent - x.scale : Nat) : Int)⟩ := by
  simp only [expansion, ← Binary64.unitExponent_eq, Nat.pow_eq]

theorem value_expansion (x : Binary64) : (expansion x).value = x.value := by
  rw [expansion_eq, value, Binary64.value, x.ratio_eq, zpow_neg, zpow_natCast]
  push_cast
  rw [show (10 : ℚ) = 2 * 5 by norm_num, mul_pow]
  field_simp

theorem readsBack_of_cut? {tie : Tie} {count : Nat} (h : cut? tie x d count = some d') : readsBack x d' = true := by
  simp only [cut?] at h
  split at h
  · rename_i hbelow habove
    split at h
    · cases h
      exact hbelow
    split at h
    · cases h
      exact habove
    · cases h
      split
      · exact habove
      · exact hbelow
  · rename_i hbelow _
    cases h
    exact hbelow
  · rename_i _ habove
    cases h
    exact habove
  · cases h

/-- The digits that are chosen for a finite number are rounded to it. -/
theorem readsBack_shortest (hx : x.isFinite = true) (tie : Tie) : readsBack x (shortest tie x) = true := by
  rw [shortest, readsBack_congr hx (value_trim _)]
  generalize hfound : List.findSome? _ _ = found
  cases found with
  | none => exact readsBack_of_value_eq hx (value_expansion x)
  | some d =>
    obtain ⟨n, -, hcut⟩ := List.exists_of_findSome?_eq_some hfound
    exact readsBack_of_cut? hcut

end Decimal

end SinglePass
