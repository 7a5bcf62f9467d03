import Mathlib

namespace Zephyr.Lib

variable {α : Type}

def waitqAdd (prio : α → Int) (t : α) : List α → List α
  | [] => [t]
  | x :: xs => if prio t < prio x then t :: x :: xs else x :: waitqAdd prio t xs

def waitqBest : List α → Option α
  | [] => none
  | x :: _ => some x

theorem mem_waitqAdd (prio : α → Int) (t x : α) (l : List α) :
    x ∈ waitqAdd prio t l ↔ x = t ∨ x ∈ l := by
  induction l with
  | nil => simp [waitqAdd]
  | cons y ys ih =>
    unfold waitqAdd
    split
    · simp
    · simp [ih]
      tauto

theorem length_waitqAdd (prio : α → Int) (t : α) (l : List α) :
    (waitqAdd prio t l).length = l.length + 1 := by
  induction l with
  | nil => rfl
  | cons y ys ih =>
    unfold waitqAdd
    split <;> simp [ih]

theorem perm_waitqAdd (prio : α → Int) (t : α) (l : List α) : (waitqAdd prio t l).Perm (t :: l) := by
  induction l with
  | nil => rfl
  | cons y ys ih =>
    unfold waitqAdd
    split
    · rfl
    · exact (ih.cons y).trans (List.Perm.swap t y ys)

theorem pairwise_waitqAdd {r : α → α → Prop} (prio : α → Int) (t : α) (l : List α)
    (hl : l.Pairwise r) (hmono : ∀ x y, r x y → prio x ≤ prio y)
    (hle : ∀ x ∈ l, prio x ≤ prio t → r x t) (hlt : ∀ x ∈ l, prio t < prio x → r t x) :
    (waitqAdd prio t l).Pairwise r := by
  induction l with
  | nil => simp [waitqAdd]
  | cons y ys ih =>
    rw [List.pairwise_cons] at hl
    unfold waitqAdd
    split
    · next hty =>
      refine List.pairwise_cons.2 ⟨fun z hz => ?_, List.pairwise_cons.2 hl⟩
      rcases List.mem_cons.1 hz with rfl | hz
      · exact hlt z List.mem_cons_self hty
      · exact hlt z (List.mem_cons_of_mem _ hz) (lt_of_lt_of_le hty (hmono _ _ (hl.1 z hz)))
    · next hty =>
      have ih' := ih hl.2 (fun x hx => hle x (List.mem_cons_of_mem _ hx))
        (fun x hx => hlt x (List.mem_cons_of_mem _ hx))
      refine List.pairwise_cons.2 ⟨fun z hz => ?_, ih'⟩
      rcases (mem_waitqAdd prio t z ys).1 hz with rfl | hz
      · exact hle y List.mem_cons_self (not_lt.1 hty)
      · exact hl.1 z hz

end Zephyr.Lib
