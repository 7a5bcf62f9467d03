import Mathlib.Logic.Function.Iterate

namespace Zephyr.Lib

/-! Walks of a cursor through a successor function, from a start until the cursor is back
at a home position, with at most a given number of steps. -/

section Walk

variable {α β : Type} [DecidableEq α] (next : α → α) (home : α)

-- The positions a walk reads from a: a, next a, ..., up to the one whose successor is home.
def walk : Nat → α → List α
  | 0, _ => []
  | fuel + 1, a => a :: if next a = home then [] else walk fuel (next a)

-- The walk from a is back home within fuel steps.
def walkEnds : Nat → α → Bool
  | 0, _ => false
  | fuel + 1, a => decide (next a = home) || walkEnds fuel (next a)

-- A walk that counts the positions that hit, until the count is full or the cursor is back
-- home. It gives the cursor, the last position read and the count.
def countWalk (hit : α → Bool) (bump : β → β) (full : β → Bool) : Nat → α → α → β → α × α × β
  | 0, a, last, c => (a, last, c)
  | fuel + 1, a, _, c =>
    let c := if hit a then bump c else c
    if full c = true ∨ next a = home then (next a, a, c)
    else countWalk hit bump full fuel (next a) a c

theorem walk_succ (fuel : Nat) (a : α) :
    walk next home (fuel + 1) a = a :: if next a = home then [] else walk next home fuel (next a) := rfl

theorem getElem_walk {fuel j : Nat} {a : α} (hj : j < (walk next home fuel a).length) :
    (walk next home fuel a)[j] = next^[j] a := by
  induction fuel generalizing a j with
  | zero => simp [walk] at hj
  | succ fuel ih =>
    cases j with
    | zero => simp [walk]
    | succ j =>
      by_cases hn : next a = home
      · simp [walk, hn] at hj
      · simp only [walk_succ, hn, if_false, List.getElem_cons_succ]
        rw [ih, Function.iterate_succ_apply]

theorem length_walk_le (fuel : Nat) (a : α) : (walk next home fuel a).length ≤ fuel := by
  induction fuel generalizing a with
  | zero => simp [walk]
  | succ fuel ih =>
    rw [walk_succ, List.length_cons]
    by_cases hn : next a = home
    · simp [hn]
    · rw [if_neg hn]
      exact Nat.succ_le_succ (ih _)

-- Inside the walk no step leads home.
theorem iterate_ne_home_of_lt_length {fuel j : Nat} {a : α}
    (hj : j + 1 < (walk next home fuel a).length) : next^[j + 1] a ≠ home := by
  induction fuel generalizing a j with
  | zero => simp [walk] at hj
  | succ fuel ih =>
    by_cases hn : next a = home
    · simp [walk, hn] at hj
    · rw [Function.iterate_succ_apply]
      cases j with
      | zero => exact hn
      | succ j =>
        simp only [walk_succ, hn, if_false, List.length_cons] at hj
        exact ih (by omega)

-- The walk from a position k steps in ends with the fuel that is left.
theorem walkEnds_iterate {k f : Nat} {a : α} (hk : ∀ j < k, next^[j + 1] a ≠ home)
    (h : walkEnds next home (k + f) a = true) : walkEnds next home f (next^[k] a) = true := by
  induction k generalizing a with
  | zero => simpa using h
  | succ k ih =>
    rw [Nat.add_right_comm, walkEnds] at h
    have hn : next a ≠ home := by simpa using hk 0 (by omega)
    simp only [hn, decide_false, Bool.false_or] at h
    rw [Function.iterate_succ_apply]
    refine ih (fun j hj => ?_) h
    rw [← Function.iterate_succ_apply]
    exact hk (j + 1) (by omega)

variable (hit : α → Bool) (bump : β → β) (full : β → Bool)

-- The position last read only matters to a walk that reads nothing.
theorem countWalk_last (f : Nat) (a l l' : α) (c : β) :
    countWalk next home hit bump full (f + 1) a l c = countWalk next home hit bump full (f + 1) a l' c := rfl

-- Positions that neither hit nor lead home can be skipped.
theorem countWalk_skip {k : Nat} {a : α} {c : β} (hc : full c = false)
    (hk : ∀ j < k, hit (next^[j] a) = false ∧ next^[j + 1] a ≠ home) (f : Nat) (l l' : α) :
    countWalk next home hit bump full (f + 1 + k) a l c =
      countWalk next home hit bump full (f + 1) (next^[k] a) l' c := by
  induction k generalizing a l with
  | zero => exact countWalk_last next home hit bump full f a l l' c
  | succ k ih =>
    obtain ⟨hh, hn⟩ := hk 0 (by omega)
    have hn' : next a ≠ home := by simpa using hn
    rw [← Nat.add_assoc, countWalk]
    simp only [Function.iterate_zero_apply] at hh
    simp only [hh, Bool.false_eq_true, if_false, hc, false_or]
    rw [if_neg hn', Function.iterate_succ_apply]
    refine ih (fun j hj => ?_) a
    simpa only [← Function.iterate_succ_apply] using hk (j + 1) (by omega)

-- Fuel beyond the end of the walk changes nothing.
theorem countWalk_fuel {f : Nat} {a : α} (hf : walkEnds next home f a = true) (m : Nat) (l : α) (c : β) :
    countWalk next home hit bump full (f + m) a l c = countWalk next home hit bump full f a l c := by
  induction f generalizing a l c with
  | zero => simp [walkEnds] at hf
  | succ f ih =>
    rw [Nat.add_right_comm, countWalk, countWalk]
    by_cases hs : full (if hit a = true then bump c else c) = true ∨ next a = home
    · rw [if_pos hs, if_pos hs]
    · have hn : next a ≠ home := fun h => hs (Or.inr h)
      simp only [walkEnds, hn, decide_false, Bool.false_or] at hf
      rw [if_neg hs, if_neg hs]
      exact ih hf _ _

-- A walk without a hit runs to its end and keeps the count.
theorem countWalk_of_no_hit {f : Nat} {a : α} {c : β} (hc : full c = false)
    (hf : walkEnds next home f a = true) (hno : ∀ x ∈ walk next home f a, hit x = false) (l : α) :
    (countWalk next home hit bump full f a l c).1 = home ∧
      (countWalk next home hit bump full f a l c).2.1 ∈ walk next home f a ∧
      (countWalk next home hit bump full f a l c).2.2 = c := by
  induction f generalizing a l with
  | zero => simp [walkEnds] at hf
  | succ f ih =>
    have hh : hit a = false := hno a (by simp [walk])
    rw [countWalk]
    simp only [hh, Bool.false_eq_true, if_false, hc, false_or]
    by_cases hn : next a = home
    · simp [hn, walk]
    · simp only [walkEnds, hn, decide_false, Bool.false_or] at hf
      have hsub : ∀ x ∈ walk next home f (next a), hit x = false := fun x hx =>
        hno x (by simp [walk, hn, hx])
      obtain ⟨h1, h2, h3⟩ := ih hf hsub a
      rw [if_neg hn]
      exact ⟨h1, by simp [walk, hn, h2], h3⟩

-- A walk that ends within its fuel gives the same result from any of its positions that
-- no hit comes before.
theorem countWalk_eq_of_lt_length {F k : Nat} {a : α} {c : β} (hc : full c = false)
    (hends : walkEnds next home F a = true) (hk : k < (walk next home F a).length)
    (hno : ∀ j < k, hit (next^[j] a) = false) (l l' : α) :
    countWalk next home hit bump full F a l c = countWalk next home hit bump full F (next^[k] a) l' c := by
  obtain ⟨g, hg⟩ : ∃ g, F = g + 1 + k := ⟨F - k - 1, by have := length_walk_le next home F a; omega⟩
  have hstep : ∀ j < k, next^[j + 1] a ≠ home := fun j hj =>
    iterate_ne_home_of_lt_length next home (show j + 1 < (walk next home F a).length by omega)
  have hends' : walkEnds next home (g + 1) (next^[k] a) = true :=
    walkEnds_iterate next home hstep (by rw [Nat.add_comm k, ← hg]; exact hends)
  subst hg
  rw [countWalk_skip next home hit bump full hc (fun j hj => ⟨hno j hj, hstep j hj⟩) g l l',
    countWalk_fuel next home hit bump full hends' k l' c]

end Walk

end Zephyr.Lib
