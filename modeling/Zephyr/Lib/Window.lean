import Mathlib

namespace Zephyr.Lib

/-! A window of a ring buffer: the cells of a ring of L cells from a start position on -/

variable {α : Type}

-- The h cells of a ring of L cells from position s on, oldest first.
def window (d : Nat → α) (L s h : Nat) : List α := (List.range h).map fun i => d ((s + i) % L)

@[simp] theorem length_window (d : Nat → α) (L s h : Nat) : (window d L s h).length = h := by
  simp [window]

@[simp] theorem getElem_window (d : Nat → α) (L s h i : Nat) (hi : i < (window d L s h).length) :
    (window d L s h)[i] = d ((s + i) % L) := by
  simp [window]

-- Two positions less than one turn apart are different cells.
theorem add_mod_ne_of_lt {a b L : Nat} (hb : 0 < b) (hbL : b < L) : (a + b) % L ≠ a % L := by
  intro h
  have hdvd : L ∣ a + b - a := Nat.dvd_of_mod_eq_zero (Nat.sub_mod_eq_zero_of_mod_eq h)
  rw [Nat.add_sub_cancel_left] at hdvd
  exact absurd (Nat.le_of_dvd hb hdvd) (by omega)

-- Within one turn a position wraps at most once.
theorem add_mod_of_lt {e j L : Nat} (he : e < L) (hj : j < L) :
    (e + j) % L = if e + j < L then e + j else e + j - L := by
  rw [Nat.add_mod_eq_ite, Nat.mod_eq_of_lt he, Nat.mod_eq_of_lt hj]
  by_cases h : e + j < L
  · rw [if_neg (by omega), if_pos h]
  · rw [if_pos (by omega), if_neg h]

-- Going back b cells from the end of a window of h cells from s.
theorem add_mod_add_sub {s h b L : Nat} (hs : s < L) (hh : h < L) (hb : b ≤ h) :
    ((s + h) % L + L - b) % L = (s + (h - b)) % L := by
  rw [add_mod_of_lt hs hh]
  split
  · rw [show s + h + L - b = s + (h - b) + L by omega, Nat.add_mod_right]
  · rw [show s + h - L + L - b = s + (h - b) by omega]

-- The distance from a window's start to its end is its length.
theorem add_mod_add_sub_self {s h L : Nat} (hs : s < L) (hh : h < L) : ((s + h) % L + L - s) % L = h := by
  rw [add_mod_of_lt hs hh]
  split
  · rw [show s + h + L - s = h + L by omega, Nat.add_mod_right, Nat.mod_eq_of_lt hh]
  · rw [show s + h - L + L - s = h by omega, Nat.mod_eq_of_lt hh]

-- A window whose end is its start is empty.
theorem eq_zero_of_add_mod_eq {s h L : Nat} (hs : s < L) (hh : h < L) (heq : (s + h) % L = s) : h = 0 := by
  by_contra hne
  exact add_mod_ne_of_lt (Nat.pos_of_ne_zero hne) hh (heq.trans (Nat.mod_eq_of_lt hs).symm)

-- Cutting the front off a window and then off the data appended behind it.
theorem drop_append_drop (S W : List α) {a b k : Nat} (ha : a ≤ S.length) (hb : b = 0 ∨ S.length ≤ a + k) :
    (S.drop a ++ W.drop b).drop k = (S ++ W).drop (a + b + k) := by
  rw [List.drop_append, List.drop_append, List.drop_drop, List.drop_drop, List.length_drop]
  rcases hb with rfl | hb
  · congr 2
    omega
  · have h1 : S.drop (a + k) = [] := List.drop_eq_nil_of_le (by omega)
    have h2 : S.drop (a + b + k) = [] := List.drop_eq_nil_of_le (by omega)
    rw [h1, h2]
    congr 2
    omega

variable {d d' : Nat → α} {L s h : Nat}

-- The cells of a window from its m-th on are the window from m cells later.
theorem window_sub {m n : Nat} (hmn : m + n ≤ h) :
    window d L ((s + m) % L) n = ((window d L s h).drop m).take n := by
  apply List.ext_getElem
  · simp only [length_window, List.length_take, List.length_drop]
    omega
  · intro i h1 h2
    simp only [getElem_window, List.getElem_take, List.getElem_drop, Nat.mod_add_mod, Nat.add_assoc]

-- Writing W into the cells after a window and moving its start k cells on: the window is
-- the old one with W appended and its first k cells dropped, as long as it stays within
-- one turn of the ring.
theorem window_write {k : Nat} {W : List α} (hk : k ≤ h) (hfit : h + W.length ≤ L + k)
    (hnew : ∀ j (hj : j < W.length), d' ((s + h + j) % L) = W[j])
    (hold : ∀ q < L, (∀ j < W.length, (s + h + j) % L ≠ q) → d' q = d q) :
    window d' L ((s + k) % L) (h + W.length - k) = (window d L s h ++ W).drop k := by
  apply List.ext_getElem
  · simp only [length_window, List.length_drop, List.length_append]
  · intro i h1 h2
    simp only [length_window] at h1
    rw [getElem_window, List.getElem_drop, Nat.mod_add_mod, Nat.add_assoc]
    by_cases hi : k + i < h
    · -- a cell of the old window, which the write did not reach
      rw [List.getElem_append_left (by simpa using hi), getElem_window]
      have hL : 0 < L := by omega
      refine hold _ (Nat.mod_lt _ hL) fun j hj heq => ?_
      have hpos : 0 < h + j - (k + i) := by omega
      have hlt : h + j - (k + i) < L := by omega
      have hsum : s + h + j = s + (k + i) + (h + j - (k + i)) := by omega
      exact add_mod_ne_of_lt hpos hlt (hsum ▸ heq)
    · -- a cell the write filled
      have hj : k + i - h < W.length := by
        simp only [List.length_drop, List.length_append, length_window] at h2
        omega
      rw [List.getElem_append_right (by simpa using hi)]
      have hpos : s + (k + i) = s + h + (k + i - h) := by omega
      simp only [length_window, hpos]
      exact hnew _ hj

end Zephyr.Lib
