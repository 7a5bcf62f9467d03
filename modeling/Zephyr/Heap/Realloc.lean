import Zephyr.Heap.Aligned
import Zephyr.Heap.Run

namespace Zephyr.Heap

open Zephyr.Lib

-- What a failed allocation leaves behind: the heap as it was, except that the
-- head of one bucket may have moved to another chunk of that bucket's list.
def Rotated (h h' : ZHeap) (L : Nat → List Nat) : Prop :=
  ∃ b d, (d = h.buckets b ∨ d ∈ L b) ∧ h' = { h with buckets := Function.update h.buckets b d }

variable {cfg : HeapConfig} {h : ZHeap} {cs : List Nat} {L : Nat → List Nat}

theorem Rotated.refl (h : ZHeap) (L : Nat → List Nat) : Rotated h h L :=
  ⟨0, h.buckets 0, .inl rfl, by simp⟩

theorem mergeChunks_used_false {lc rc d : Nat} (hd : (h.chunks d).used = false) :
    ((mergeChunks h lc rc).chunks d).used = false := by
  by_cases e : d = lc
  · subst e; simp [mergeChunks, setChunkSize, setLeftChunkSize]
  · rw [(mergeChunks_agree lc rc d (by simpa using e)).2, hd]

@[simp] theorem freeChunk_endChunk (c : Nat) : (freeChunk cfg h c).endChunk = h.endChunk := by
  unfold freeChunk
  dsimp only
  split_ifs <;> simp

@[simp] theorem freeChunk_base (c : Nat) : (freeChunk cfg h c).base = h.base := by
  unfold freeChunk
  dsimp only
  split_ifs <;> simp

@[simp] theorem inplaceRealloc_base (p bytes : Nat) : (inplaceRealloc cfg h p bytes).1.base = h.base := by
  unfold inplaceRealloc
  dsimp only
  split_ifs <;> simp

end Zephyr.Heap
