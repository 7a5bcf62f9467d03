import Mathlib.Data.BitVec
import Mathlib.Tactic.Ring

namespace Zephyr.Lib

-- A w-bit index that wraps tracks an unbounded counter: it is the counter's
-- cast, and differences of two casts read back exactly while they fit.

variable {w : Nat}

theorem toNat_natCast_of_lt {n : Nat} (h : n < 2 ^ w) : ((n : BitVec w)).toNat = n := by
  rw [BitVec.natCast_eq_ofNat, BitVec.toNat_ofNat, Nat.mod_eq_of_lt h]

theorem add_natCast_sub (v : BitVec w) {a b : Nat} (h : b ≤ a) :
    v + (a : BitVec w) - (v + (b : BitVec w)) = ((a - b : Nat) : BitVec w) := by
  rw [Nat.cast_sub h]; ring

theorem add_natCast_add (v : BitVec w) (a b : Nat) :
    v + (a : BitVec w) + (b : BitVec w) = v + ((a + b : Nat) : BitVec w) := by
  push_cast; ring

theorem toNat_add_natCast_sub (v : BitVec w) {a b : Nat} (h : b ≤ a) (hw : a - b < 2 ^ w) :
    (v + (a : BitVec w) - (v + (b : BitVec w))).toNat = a - b := by
  rw [add_natCast_sub v h, toNat_natCast_of_lt hw]

-- Positions less than one period apart fall on different residues.
theorem mod_ne_of_lt_of_lt_add {p q N : Nat} (hpq : p < q) (hq : q < p + N) : p % N ≠ q % N := by
  intro h
  have hd : (q - p) % N = 0 := Nat.sub_mod_eq_zero_of_mod_eq h.symm
  rw [Nat.mod_eq_of_lt (by omega)] at hd
  omega

theorem add_mod_of_mod_add_lt {t j N : Nat} (h : t % N + j < N) : (t + j) % N = t % N + j := by
  rw [Nat.add_mod, Nat.mod_eq_of_lt (show j < N by omega), Nat.mod_eq_of_lt h]

end Zephyr.Lib
