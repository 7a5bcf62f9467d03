import Mathlib.Data.List.TakeDrop

namespace Zephyr.Lib

variable {α : Type}

/-! Stores of consecutive bytes into memory -/

-- Store the list at positions p, p + 1, ...
def writeList (m : Nat → α) (p : Nat) : List α → Nat → α
  | [] => m
  | b :: bs => writeList (Function.update m p b) (p + 1) bs

theorem writeList_apply (m : Nat → α) (p : Nat) (bs : List α) (i : Nat) :
    writeList m p bs i = if h : p ≤ i ∧ i - p < bs.length then bs[i - p] else m i := by
  induction bs generalizing m p with
  | nil => simp [writeList]
  | cons b bs ih =>
    rw [writeList, ih]
    by_cases hi : i = p
    · subst hi
      rw [dif_neg (by omega), Function.update_self, dif_pos (by simp)]
      simp
    · by_cases hp : p + 1 ≤ i ∧ i - (p + 1) < bs.length
      · have hsub : i - p = i - (p + 1) + 1 := by omega
        rw [dif_pos hp, dif_pos (by simp only [List.length_cons]; omega)]
        simp [hsub]
      · rw [dif_neg hp, dif_neg (by simp only [List.length_cons]; omega), Function.update_of_ne hi]

theorem writeList_append (m : Nat → α) (p : Nat) (as bs : List α) :
    writeList m p (as ++ bs) = writeList (writeList m p as) (p + as.length) bs := by
  induction as generalizing m p with
  | nil => simp [writeList]
  | cons a as ih =>
    rw [List.cons_append, writeList, writeList, ih, List.length_cons]
    congr 1
    omega

/-! The longest common prefix -/

-- The length of the longest common prefix of two lists.
def prefixLen [DecidableEq α] : List α → List α → Nat
  | a :: as, b :: bs => if a = b then prefixLen as bs + 1 else 0
  | _, _ => 0

variable [DecidableEq α]

theorem prefixLen_le_left (as bs : List α) : prefixLen as bs ≤ as.length := by
  induction as generalizing bs with
  | nil => simp [prefixLen]
  | cons a as ih =>
    cases bs with
    | nil => simp [prefixLen]
    | cons b bs =>
      simp only [prefixLen, List.length_cons]
      split_ifs
      · exact Nat.succ_le_succ (ih bs)
      · exact Nat.zero_le _

-- Lists of equal lengths compared piece by piece.
theorem prefixLen_append {as bs : List α} (cs ds : List α) (h : as.length = bs.length) :
    prefixLen (as ++ cs) (bs ++ ds) =
      if prefixLen as bs = as.length then as.length + prefixLen cs ds else prefixLen as bs := by
  induction as generalizing bs with
  | nil =>
    obtain rfl : bs = [] := List.eq_nil_of_length_eq_zero (by simpa using h.symm)
    simp [prefixLen]
  | cons a as ih =>
    cases bs with
    | nil => simp at h
    | cons b bs =>
      simp only [List.cons_append, prefixLen, List.length_cons]
      by_cases hab : a = b
      · simp only [hab, if_true, ih (by simpa using h)]
        split_ifs <;> omega
      · simp [hab]

-- Only as much of the second list as the first one is long matters.
theorem prefixLen_take (as bs : List α) : prefixLen as (bs.take as.length) = prefixLen as bs := by
  induction as generalizing bs with
  | nil => simp [prefixLen]
  | cons a as ih =>
    cases bs with
    | nil => simp
    | cons b bs => simp [prefixLen, ih]

end Zephyr.Lib
