import Mathlib.Algebra.Group.Nat.Defs
import Mathlib.Data.Nat.Bitwise
import Mathlib.Tactic.Common

/-! Tests and masks of the bits of a number, as programs write them. -/
namespace IntelPt.Bits

theorem and_shift_ne_zero (x i : Nat) : (x &&& (1 <<< i) != 0) = x.testBit i := by
  rw [Nat.one_shiftLeft]
  cases h : x.testBit i with
  | true =>
    rw [bne_iff_ne]
    intro h0
    have := congrArg (Nat.testBit · i) h0
    simp [Nat.testBit_and, h, Nat.testBit_two_pow_self] at this
  | false =>
    have h0 : x &&& 2 ^ i = 0 := by
      apply Nat.eq_of_testBit_eq
      intro j
      rw [Nat.testBit_and, Nat.testBit_two_pow, Nat.zero_testBit]
      by_cases hj : i = j
      · rw [← hj, h, Bool.false_and]
      · simp [hj]
    simp [h0]

theorem or_field {k low : Nat} (h : low < 2 ^ k) (field : Nat) :
    field * 2 ^ k ||| low = field * 2 ^ k + low := by
  rw [← Nat.shiftLeft_eq, Nat.shiftLeft_add_eq_or_of_lt h]

def highMask (w k : Nat) : Nat := (2 ^ (w - k) - 1) <<< k

theorem highMask_testBit (w k i : Nat) :
    (highMask w k).testBit i = (decide (k ≤ i) && decide (i < w)) := by
  rw [highMask, Nat.testBit_shiftLeft, Nat.testBit_two_pow_sub_one]
  by_cases h : k ≤ i
  · have : i - k < w - k ↔ i < w := by omega
    simp [h, this]
  · simp [h]

theorem testBit_of_lt {w x i : Nat} (hx : x < 2 ^ w) (hi : w ≤ i) : x.testBit i = false :=
  Nat.testBit_lt_two_pow (hx.trans_le (Nat.pow_le_pow_right (by decide) hi))

/-- The high bits of a number that agrees on them, and the low bits of its own. -/
theorem merge_high_low {w k x y : Nat} (hx : x < 2 ^ w) (h : x >>> k = y >>> k) :
    (y &&& highMask w k ||| Nat.ldiff (x % 2 ^ k) (highMask w k)) = x := by
  apply Nat.eq_of_testBit_eq
  intro i
  rw [Nat.testBit_or, Nat.testBit_and, Nat.testBit_ldiff, highMask_testBit,
    Nat.testBit_mod_two_pow]
  by_cases hk : k ≤ i
  · have hi : x.testBit i = y.testBit i := by
      have := congrArg (Nat.testBit · (i - k)) h
      simpa [Nat.testBit_shiftRight, Nat.add_sub_of_le hk] using this
    by_cases hw : i < w
    · simp [hk, hw, hi, Nat.not_lt.mpr hk]
    · simp [hw, testBit_of_lt hx (Nat.le_of_not_lt hw), Nat.not_lt.mpr hk]
  · simp [hk, Nat.lt_of_not_le hk]

theorem signExtend {w k x : Nat} (hx : x < 2 ^ w) (hpos : 0 < k)
    (h : ∀ i < w, k ≤ i → x.testBit i = x.testBit (k - 1)) :
    (if (x % 2 ^ k).testBit (k - 1) then x % 2 ^ k ||| highMask w k
      else x % 2 ^ k &&& (2 ^ k - 1)) = x := by
  have hbit : (x % 2 ^ k).testBit (k - 1) = x.testBit (k - 1) := by
    rw [Nat.testBit_mod_two_pow, decide_eq_true (by omega), Bool.true_and]
  rw [hbit]
  apply Nat.eq_of_testBit_eq
  intro i
  cases hs : x.testBit (k - 1) with
  | true =>
    rw [if_pos rfl, Nat.testBit_or, Nat.testBit_mod_two_pow, highMask_testBit]
    by_cases hik : k ≤ i
    · by_cases hw : i < w
      · rw [h i hw hik, hs]
        simp [hik, hw]
      · rw [testBit_of_lt hx (Nat.le_of_not_lt hw)]
        simp [hw]
    · simp [hik, Nat.lt_of_not_le hik]
  | false =>
    rw [if_neg Bool.false_ne_true, Nat.testBit_and, Nat.testBit_mod_two_pow,
      Nat.testBit_two_pow_sub_one]
    by_cases hik : k ≤ i
    · have hx0 : x.testBit i = false := by
        by_cases hw : i < w
        · rw [h i hw hik, hs]
        · exact testBit_of_lt hx (Nat.le_of_not_lt hw)
      simp [hx0]
    · simp [Nat.lt_of_not_le hik]

end IntelPt.Bits
