import Mathlib.Data.List.Nodup

namespace Zephyr.Lib

variable {α : Type} (next : α → α) (null : α)

-- The list read from a head pointer by following next until null: a singly
-- linked list threaded through the nodes themselves.
inductive Slist : α → List α → Prop where
  | nil : Slist null []
  | cons {p : α} {l : List α} : p ≠ null → Slist (next p) l → Slist p (p :: l)

variable {next null}

theorem Slist.null_iff {p : α} {l : List α} (h : Slist next null p l) : p = null ↔ l = [] := by
  cases h with
  | nil => simp
  | cons hp _ => simp [hp]

theorem Slist.not_mem_null {p : α} {l : List α} (h : Slist next null p l) : null ∉ l := by
  induction h with
  | nil => simp
  | cons hp _ ih =>
    rw [List.mem_cons, not_or]
    exact ⟨Ne.symm hp, ih⟩

-- The head pointer determines the list.
theorem Slist.unique {p : α} {l l' : List α} (h : Slist next null p l) (h' : Slist next null p l') :
    l = l' := by
  induction h generalizing l' with
  | nil => exact ((h'.null_iff).1 rfl).symm
  | cons hp _ ih =>
    cases h' with
    | nil => exact absurd rfl hp
    | cons _ ht => rw [ih ht]

-- Only the links of the listed nodes matter.
theorem Slist.frame {next' : α → α} {p : α} {l : List α} (h : Slist next null p l)
    (hf : ∀ x ∈ l, next' x = next x) : Slist next' null p l := by
  induction h with
  | nil => exact .nil
  | cons hp _ ih =>
    refine .cons hp ?_
    rw [hf _ List.mem_cons_self]
    exact ih fun x hx => hf x (List.mem_cons_of_mem _ hx)

-- Pushing a node that is not on the list: its link is set to the old head.
theorem Slist.push [DecidableEq α] {p h : α} {l : List α} (hl : Slist next null h l) (hp : p ≠ null)
    (hpl : p ∉ l) : Slist (Function.update next p h) null p (p :: l) := by
  refine .cons hp ?_
  rw [Function.update_self]
  exact hl.frame fun x hx => Function.update_of_ne (by rintro rfl; exact hpl hx) _ _

-- A list from a head that is not null starts with the head.
theorem Slist.eq_cons {p : α} {l : List α} (h : Slist next null p l) (hp : p ≠ null) : ∃ l', l = p :: l' := by
  cases h with
  | nil => exact absurd rfl hp
  | cons _ _ => exact ⟨_, rfl⟩

-- Popping the head: the rest of the list starts at the head's link.
theorem Slist.pop {p : α} {l : List α} (h : Slist next null p (p :: l)) : Slist next null (next p) l := by
  cases h with
  | cons _ ht => exact ht

end Zephyr.Lib
