import Mathlib.Tactic.Linarith
import Mathlib.Tactic.Ring

namespace Zephyr.Lib

-- C integer semantics: `/` and `%` truncate toward zero, conversions wrap.

-- `(y >= 0 ? y : y - (d - 1)) / d` is the floor quotient of `y` by `d`.
theorem tdiv_floor (y : Int) {c d : Int} (hd : 0 < d) (hc : c = d - 1) :
    Int.tdiv (if 0 ≤ y then y else y - c) d = y / d := by
  subst hc
  split_ifs with hy
  · exact Int.tdiv_eq_ediv_of_nonneg hy
  have hr := Int.emod_nonneg y hd.ne'
  have hr' := Int.emod_lt_of_pos y hd
  have hyq := Int.emod_add_mul_ediv y d
  rw [Int.tdiv_eq_ediv, Int.sign_eq_one_of_pos hd]
  by_cases hdvd : d ∣ y - (d - 1)
  · obtain ⟨k, hk⟩ := hdvd
    rw [if_pos (Or.inr ⟨k, hk⟩), hk, Int.mul_ediv_cancel_left _ hd.ne', add_zero]
    exact ((Int.ediv_emod_unique (r := d - 1) hd).2 ⟨by linarith, by linarith, by linarith⟩).1.symm
  · rw [if_neg (by rintro (h | h) <;> [omega; exact hdvd h])]
    have hne : y % d ≠ d - 1 := fun he => hdvd ⟨y / d, by linarith⟩
    have hq : (y - (d - 1)) / d = y / d - 1 :=
      ((Int.ediv_emod_unique (r := y % d + 1) hd).2 ⟨by linarith, by omega, by omega⟩).1
    rw [hq]; ring

theorem UInt32.toNat_ofInt_of_lt {x : Int} (h0 : 0 ≤ x) (h1 : x < 2 ^ 32) :
    (UInt32.ofInt x).toNat = x.toNat := by
  unfold UInt32.ofInt
  rw [UInt32.toNat_ofNat', Int.emod_eq_of_lt h0 h1]
  exact Nat.mod_eq_of_lt (by omega)

-- The remainder `y - y / d * d` of a floored division, stored in an unsigned int.
theorem UInt32.toNat_ofInt_sub_ediv_mul (y : Int) {d : Int} (hd : 0 < d) (hd32 : d ≤ 2 ^ 32) :
    (UInt32.ofInt (y - y / d * d)).toNat = (y % d).toNat := by
  have hmod : y - y / d * d = y % d := by rw [Int.emod_def, mul_comm]
  have h0 := Int.emod_nonneg y hd.ne'
  have h1 := Int.emod_lt_of_pos y hd
  rw [hmod, UInt32.toNat_ofInt_of_lt h0 (by omega)]

theorem UInt32.toNat_add_of_lt {a b : UInt32} (h : a.toNat + b.toNat < 2 ^ 32) :
    (a + b).toNat = a.toNat + b.toNat := by
  rw [UInt32.toNat_add, Nat.mod_eq_of_lt h]

theorem UInt32.toNat_mul_of_lt {a b : UInt32} (h : a.toNat * b.toNat < 2 ^ 32) :
    (a * b).toNat = a.toNat * b.toNat := by
  rw [UInt32.toNat_mul, Nat.mod_eq_of_lt h]

theorem UInt32.toNat_sub_of_toNat_le {a b : UInt32} (h : b.toNat ≤ a.toNat) :
    (a - b).toNat = a.toNat - b.toNat :=
  UInt32.toNat_sub_of_le a b (UInt32.le_iff_toNat_le.2 h)

-- `1 << s` for a shift below the width.
theorem UInt32.toNat_one_shiftLeft {s : Nat} (hs : s < 32) : ((1 : UInt32) <<< s.toUInt32).toNat = 2 ^ s := by
  have hs' : (UInt32.ofNat s).toNat = s := UInt32.toNat_ofNat_of_lt (by simp only [UInt32.size]; omega)
  rw [UInt32.toNat_shiftLeft, Nat.toUInt32_eq, hs', Nat.mod_eq_of_lt hs, UInt32.toNat_one,
    Nat.one_shiftLeft, Nat.mod_eq_of_lt (Nat.pow_lt_pow_right (by decide) hs)]

-- `(1 << s) - 1` is the mask of the `s` low bits.
theorem UInt32.toNat_one_shiftLeft_sub_one {s : Nat} (hs : s < 32) :
    (((1 : UInt32) <<< s.toUInt32) - 1).toNat = 2 ^ s - 1 := by
  have hle : (1 : UInt32) ≤ (1 : UInt32) <<< s.toUInt32 := by
    rw [UInt32.le_iff_toNat_le, UInt32.toNat_one_shiftLeft hs, UInt32.toNat_one]
    exact Nat.one_le_two_pow
  rw [UInt32.toNat_sub_of_le _ _ hle, UInt32.toNat_one_shiftLeft hs, UInt32.toNat_one]

-- An unsigned value converted to `int` keeps its value when it fits.
theorem Int32.toInt_ofNat_of_lt {n : Nat} (h : n < 2 ^ 31) : (Int32.ofNat n).toInt = n := by
  rw [Int32.toInt_ofNat']
  exact Int.bmod_eq_of_le (by simp only [Int32.size]; omega) (by simp only [Int32.size]; omega)

end Zephyr.Lib
