import Mathlib.Algebra.Group.Nat.Defs
import Mathlib.Order.Nat

/-!
# Rounding up to a power of two

`(v + a - 1) & ~(a - 1)` is the least multiple of `a` that is at least `v`, as
long as the sum fits into a word.  `roundUp` is the number, `roundUpWord` is
what a 64-bit machine computes, and `toNat_roundUpWord` joins them.
-/

namespace Alignment

/-- The least multiple of `a` from `v` on. -/
def roundUp (v a : Nat) : Nat :=
  (v + a - 1) / a * a

/-- The same by a mask, for a power of two. -/
def roundUpWord (v a : UInt64) : UInt64 :=
  (v + a - 1) &&& ~~~(a - 1)

section RoundUp

variable {v w a : Nat}

theorem roundUp_mod (v a : Nat) : roundUp v a % a = 0 :=
  Nat.mul_mod_left _ _

theorem le_roundUp (ha : 0 < a) : v ≤ roundUp v a := by
  have hdiv := Nat.div_add_mod (v + a - 1) a
  have hmod := Nat.mod_lt (v + a - 1) ha
  rw [Nat.mul_comm] at hdiv
  unfold roundUp
  omega

theorem roundUp_lt (ha : 0 < a) : roundUp v a < v + a := by
  have hle := Nat.div_mul_le_self (v + a - 1) a
  unfold roundUp
  omega

theorem roundUp_mono (h : v ≤ w) : roundUp v a ≤ roundUp w a :=
  Nat.mul_le_mul_right a (Nat.div_le_div_right (by omega))

/-- Every multiple of `a` that is at least `v` is at least `roundUp v a`. -/
theorem roundUp_le (ha : 0 < a) (hle : v ≤ w) (hmod : w % a = 0) :
    roundUp v a ≤ w := by
  obtain ⟨k, rfl⟩ := Nat.dvd_of_mod_eq_zero hmod
  have hdiv : (v + a - 1) / a ≤ k := by
    apply Nat.le_of_lt_succ
    rw [Nat.div_lt_iff_lt_mul ha, Nat.succ_mul, Nat.mul_comm k a]
    omega
  calc roundUp v a ≤ k * a := Nat.mul_le_mul_right a hdiv
    _ = a * k := Nat.mul_comm k a

end RoundUp

/-- A mask that clears the low bits rounds down. -/
theorem toNat_and_not_mask (x a : UInt64) {k : Nat} (ha : a.toNat = 2 ^ k) :
    (x &&& ~~~(a - 1)).toNat = x.toNat / a.toNat * a.toNat := by
  have hk : 2 ^ k < 2 ^ 64 := by
    rw [← ha]
    exact a.toNat_lt
  have hpred : (a - 1).toNat = 2 ^ k - 1 := by
    rw [UInt64.toNat_sub_of_le, ha]
    · rfl
    · rw [UInt64.le_iff_toNat_le, ha]
      exact Nat.two_pow_pos k
  have hmask : (~~~(a - 1)).toNat = 2 ^ 64 - (2 ^ k - 1 + 1) := by
    rw [UInt64.toNat_not, hpred]
    simp only [UInt64.size]
    omega
  rw [UInt64.toNat_and, hmask, ha]
  apply Nat.eq_of_testBit_eq
  intro i
  rw [Nat.testBit_and, Nat.testBit_two_pow_sub_succ (by omega),
    Nat.testBit_two_pow_sub_one, Nat.testBit_mul_two_pow,
    Nat.testBit_div_two_pow]
  by_cases hlow : k ≤ i
  · rw [Nat.sub_add_cancel hlow]
    by_cases hword : i < 64
    · simp [hlow, hword, Nat.not_lt.mpr hlow]
    · rw [Nat.testBit_lt_two_pow (Nat.lt_of_lt_of_le x.toNat_lt
        (Nat.pow_le_pow_right (by decide) (Nat.not_lt.mp hword)))]
      simp
  · have hlt : i < k := Nat.lt_of_not_le hlow
    simp [hlow, hlt]

/-- No word overflows as long as the sum that is masked fits. -/
theorem toNat_roundUpWord (v a : UInt64) {k : Nat} (ha : a.toNat = 2 ^ k)
    (hfits : v.toNat + a.toNat < 2 ^ 64) :
    (roundUpWord v a).toNat = roundUp v.toNat a.toNat := by
  have hsum : (v + a).toNat = v.toNat + a.toNat := by
    rw [UInt64.toNat_add]
    exact Nat.mod_eq_of_lt hfits
  have hpred : (v + a - 1).toNat = v.toNat + a.toNat - 1 := by
    rw [UInt64.toNat_sub_of_le, hsum]
    · rfl
    · rw [UInt64.le_iff_toNat_le, hsum, ha]
      exact Nat.le_trans (Nat.two_pow_pos k) (Nat.le_add_left _ _)
  rw [roundUpWord, toNat_and_not_mask _ _ ha, hpred, roundUp]

end Alignment
