import Mathlib.Data.Nat.Bitwise
import Mathlib.Tactic.Ring

namespace Zephyr.Lib

-- Bit `i` of `2^j * (2m + 1)`: zero below `j`, one at `j`, then `m`.
theorem testBit_two_pow_mul_odd (j m i : Nat) :
    (2 ^ j * (2 * m + 1)).testBit i = if i < j + 1 then decide (j = i) else m.testBit (i - (j + 1)) := by
  rw [show 2 ^ j * (2 * m + 1) = 2 ^ (j + 1) * m + 2 ^ j by rw [Nat.pow_succ]; ring,
    Nat.testBit_two_pow_mul_add m (Nat.pow_lt_pow_right (by decide) (Nat.lt_succ_self j)),
    Nat.testBit_two_pow]

-- The same number less one: ones below `j`, zero at `j`, then `m`.
theorem testBit_two_pow_mul_odd_pred (j m i : Nat) :
    (2 ^ (j + 1) * m + (2 ^ j - 1)).testBit i =
      if i < j + 1 then decide (i < j) else m.testBit (i - (j + 1)) := by
  have hlt : 2 ^ j - 1 < 2 ^ (j + 1) := by
    have := Nat.pow_lt_pow_right (a := 2) (by decide) (Nat.lt_succ_self j); omega
  rw [Nat.testBit_two_pow_mul_add m hlt, Nat.testBit_two_pow_sub_one]

-- `x &&& (2^w - x)` is `x & -x` on w-bit words: the lowest set bit of `x`.
theorem and_two_pow_sub {w j m : Nat} (hx : 2 ^ j * (2 * m + 1) < 2 ^ w) :
    2 ^ j * (2 * m + 1) &&& (2 ^ w - 2 ^ j * (2 * m + 1)) = 2 ^ j := by
  have hy : 2 ^ j * (2 * m + 1) = (2 ^ (j + 1) * m + (2 ^ j - 1)) + 1 := by
    have := Nat.one_le_two_pow (n := j)
    rw [Nat.pow_succ]; ring_nf; omega
  have hjw : j < w := by
    by_contra hle
    have := Nat.pow_le_pow_right (n := 2) (by decide) (Nat.le_of_not_lt hle)
    have := Nat.le_mul_of_pos_right (2 ^ j) (Nat.succ_pos (2 * m))
    omega
  apply Nat.eq_of_testBit_eq
  intro i
  rw [Nat.testBit_and, testBit_two_pow_mul_odd, hy, Nat.testBit_two_pow_sub_succ (by omega),
    testBit_two_pow_mul_odd_pred, Nat.testBit_two_pow]
  by_cases hi : i < j + 1
  · by_cases hij : j = i
    · subst hij; simp [hjw]
    · simp [hi, hij]
  · simp only [hi, if_false]
    cases m.testBit (i - (j + 1)) <;> simp <;> omega

theorem min_two_pow_dvd (j q : Nat) :
    min (2 ^ j) (2 ^ q) ∣ 2 ^ j ∧ min (2 ^ j) (2 ^ q) ∣ 2 ^ q := by
  rcases le_total j q with hjq | hqj
  · rw [min_eq_left (Nat.pow_le_pow_right (by decide) hjq)]
    exact ⟨dvd_rfl, Nat.pow_dvd_pow 2 hjq⟩
  · rw [min_eq_right (Nat.pow_le_pow_right (by decide) hqj)]
    exact ⟨Nat.pow_dvd_pow 2 hqj, dvd_rfl⟩

-- Clearing the low k bits of a w-bit number rounds it down to a multiple of 2^k.
theorem and_two_pow_sub_two_pow {x w k : Nat} (hk : k ≤ w) (hx : x < 2 ^ w) :
    x &&& (2 ^ w - 2 ^ k) = x - x % 2 ^ k := by
  have hmask : 2 ^ w - 2 ^ k = (2 ^ (w - k) - 1) <<< k := by
    rw [Nat.shiftLeft_eq, Nat.sub_one_mul, ← Nat.pow_add, Nat.sub_add_cancel hk]
  have hdown : x - x % 2 ^ k = (x >>> k) <<< k := by
    have := Nat.mod_add_div x (2 ^ k)
    rw [Nat.shiftLeft_eq, Nat.shiftRight_eq_div_pow, Nat.mul_comm]
    omega
  apply Nat.eq_of_testBit_eq
  intro i
  rw [Nat.testBit_and, hmask, hdown, Nat.testBit_shiftLeft, Nat.testBit_shiftLeft,
    Nat.testBit_two_pow_sub_one, Nat.testBit_shiftRight]
  by_cases hik : k ≤ i
  · rw [Nat.add_sub_cancel' hik]
    by_cases hiw : i < w
    · simp [hik, show i - k < w - k by omega]
    · have hb : x.testBit i = false :=
        Nat.testBit_eq_false_of_lt (lt_of_lt_of_le hx (Nat.pow_le_pow_right (by decide) (by omega)))
      simp [hb]
  · simp [hik]

end Zephyr.Lib
