import Mathlib.Logic.Basic

namespace Zephyr.Lib

variable {α : Type} {p : α → Prop} {l l' l'' : List α} {a : α}

-- The log l' is l with newer entries in front, each of which satisfies p.
def Grows (p : α → Prop) (l l' : List α) : Prop := ∃ t, l' = t ++ l ∧ ∀ a ∈ t, p a

theorem Grows.refl (p : α → Prop) (l : List α) : Grows p l l := ⟨[], rfl, by simp⟩

theorem Grows.trans (h : Grows p l l') (h' : Grows p l' l'') : Grows p l l'' := by
  obtain ⟨t, rfl, ht⟩ := h
  obtain ⟨t', rfl, ht'⟩ := h'
  refine ⟨t' ++ t, by simp, ?_⟩
  intro a ha
  rcases List.mem_append.mp ha with ha | ha
  · exact ht' a ha
  · exact ht a ha

theorem Grows.cons (ha : p a) : Grows p l (a :: l) := ⟨[a], rfl, by simpa⟩

-- Every entry of the longer log is an old one or satisfies p.
theorem Grows.mem (h : Grows p l l') (ha : a ∈ l') : a ∈ l ∨ p a := by
  obtain ⟨t, rfl, ht⟩ := h
  rcases List.mem_append.mp ha with ha | ha
  · exact Or.inr (ht a ha)
  · exact Or.inl ha

end Zephyr.Lib
