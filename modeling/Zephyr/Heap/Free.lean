import Zephyr.Heap.Realloc

namespace Zephyr.Heap

open Zephyr.Lib

variable {cfg : HeapConfig} {h h' : ZHeap} {cs : List Nat} {L : Nat → List Nat} {P Q : List Nat}

-- Exemptions of chunks that have left the layout can be dropped.
theorem HeapWf.shrink (w : HeapWf cfg h cs L P) (hQP : ∀ d ∈ Q, d ∈ P) (hPQ : ∀ d ∈ P, d ∈ cs → d ∈ Q) :
    HeapWf cfg h cs L Q := by
  refine ⟨w.tiling, w.buckets, w.used0, w.usedEnd, fun c hc hcQ hf hs => ?_,
    fun d hd => w.unlisted d (hQP d hd), ?_, w.usedOk⟩
  · exact w.listed c hc (fun hcP => hcQ (hPQ c hcP hc)) hf hs
  · refine w.noAdj.imp_of_mem_imp fun p q hp hq hpq => ?_
    rcases hpq with hpq | hpq | hpq | hpq
    · exact Or.inl (hPQ p hpq hp)
    · exact Or.inr (Or.inl (hPQ q hpq hq))
    · exact Or.inr (Or.inr (Or.inl hpq))
    · exact Or.inr (Or.inr (Or.inr hpq))

-- A step of free_chunk seen from outside: the chunks in use, their bytes,
-- chunk 0 and the statistics stay, only free chunks are rewritten.
structure FreeFrame (cfg : HeapConfig) (h : ZHeap) (cs : List Nat) (h' : ZHeap) (cs' : List Nat) : Prop where
  endChunk : h'.endChunk = h.endChunk
  base : h'.base = h.base
  size0 : (h'.chunks 0).size = (h.chunks 0).size
  allocated : h'.allocatedBytes = h.allocatedBytes
  usedChunks : usedChunks h' cs' = usedChunks h cs
  usedBytes : usedBytes cfg h' cs' = usedBytes cfg h cs

namespace FreeFrame

theorem trans {h₂ h₃ : ZHeap} {cs₂ cs₃ : List Nat} (a : FreeFrame cfg h cs h₂ cs₂)
    (b : FreeFrame cfg h₂ cs₂ h₃ cs₃) : FreeFrame cfg h cs h₃ cs₃ :=
  ⟨b.endChunk.trans a.endChunk, b.base.trans a.base, b.size0.trans a.size0, b.allocated.trans a.allocated,
    b.usedChunks.trans a.usedChunks, b.usedBytes.trans a.usedBytes⟩

theorem of_sameLayout (hl : SameLayout h h') (cs : List Nat) : FreeFrame cfg h cs h' cs :=
  ⟨hl.endChunk, hl.base, hl.size 0, hl.allocatedBytes, hl.usedChunks cs, hl.usedBytes cs⟩

-- The free segment M of the layout becomes M'.
theorem of_agree {T A B M M' : List Nat} (a : Agree h h' T) (e : h'.endChunk = h.endChunk)
    (eb : h'.base = h.base) (ea : h'.allocatedBytes = h.allocatedBytes) (h0 : 0 ∉ T)
    (hT : ∀ d ∈ A ++ B, d ∉ T) (hM : ∀ d ∈ M, chunkUsed h d = false)
    (hM' : ∀ d ∈ M', chunkUsed h' d = false) : FreeFrame cfg h (A ++ M ++ B) h' (A ++ M' ++ B) :=
  ⟨e, eb, (a 0 h0).1, ea, usedChunks_free_frame a hT hM hM', usedBytes_free_frame a e hT hM hM'⟩

end FreeFrame

/-! free_chunk, cut at its two merges -/

section FreeChunk

variable (cfg)

-- Merge with a free right neighbour.
def freeChunkRight (h : ZHeap) (c : Nat) : ZHeap :=
  let rc := rightChunk h c
  if !chunkUsed h rc then mergeChunks (freeListRemove cfg h rc) c rc else h

-- Merge with a free left neighbour, and list what is left.
def freeChunkLeft (h : ZHeap) (c : Nat) : ZHeap :=
  let lc := leftChunk h c
  if !chunkUsed h lc then freeListAdd cfg (mergeChunks (freeListRemove cfg h lc) lc c) lc
  else freeListAdd cfg h c

theorem freeChunk_eq (h : ZHeap) (c : Nat) : freeChunk cfg h c = freeChunkLeft cfg (freeChunkRight cfg h c) c :=
  rfl

variable {cfg} {A B : List Nat} {c : Nat}

theorem freeChunkRight_spec (w : HeapWf cfg h (A ++ c :: B) L [c]) (hu : chunkUsed h c = false) :
    ∃ B' L', HeapWf cfg (freeChunkRight cfg h c) (A ++ c :: B') L' [c] ∧
      FreeFrame cfg h (A ++ c :: B) (freeChunkRight cfg h c) (A ++ c :: B') ∧
      chunkUsed (freeChunkRight cfg h c) c = false ∧
      chunkUsed (freeChunkRight cfg h c) (rightChunk (freeChunkRight cfg h c) c) = true ∧
      Agree h (freeChunkRight cfg h c) [c] ∧
      ((freeChunkRight cfg h c).chunks c).leftSize = (h.chunks c).leftSize := by
  have t := w.tiling
  obtain ⟨r, Y, hY, hr⟩ := t.right_eq
  have hpos := t.pos c (by simp)
  unfold freeChunkRight
  dsimp only
  by_cases hru : chunkUsed h (rightChunk h c) = true
  · rw [if_neg (by rw [hru]; decide)]
    exact ⟨B, L, w, .of_sameLayout (.refl h) _, hu, hru, (SameLayout.refl h).agree.mono (by simp), rfl⟩
  have hrf : chunkUsed h (rightChunk h c) = false := by simpa using hru
  rw [if_pos (by rw [hrf]; rfl)]
  -- the free right neighbour is the next chunk of the layout, not the end marker
  obtain ⟨B', rfl⟩ : ∃ B', B = rightChunk h c :: B' := by
    cases B with
    | nil =>
      rw [List.nil_append, List.cons.injEq] at hY
      rw [hr, ← hY.1] at hrf
      rw [w.usedEnd] at hrf
      cases hrf
    | cons r' B' =>
      rw [List.cons_append, List.cons.injEq] at hY
      exact ⟨B', by rw [hr, hY.1]⟩
  generalize hrc : rightChunk h c = rc at hrf hru w t ⊢
  have hcr : rc ≠ c := by simp only [rightChunk, chunkSize] at hrc hpos; omega
  obtain ⟨L1, w1⟩ := w.remove (c := rc) (by simp) (by simp [hcr]) hrf
  have w2 := w1.merge (by simp) (by simp)
  have hnd := t.nodup
  simp only [List.nodup_append, List.nodup_cons, List.mem_cons, not_or] at hnd
  have hrcs : rc ∉ A ++ c :: B' := by
    simp only [List.mem_append, List.mem_cons, not_or]
    exact ⟨fun hm => hnd.2.2 rc hm rc (by simp) rfl, hcr, hnd.2.1.2.1⟩
  have a : Agree h (mergeChunks (freeListRemove cfg h rc) c rc) [c] :=
    ((freeListRemove_sameLayout cfg h rc).agree.trans (mergeChunks_agree c rc)).mono (by simp)
  have hnd' : c ∉ A ∧ c ∉ B' := ⟨fun hm => hnd.2.2 c hm c (by simp) rfl, hnd.2.1.1.2⟩
  refine ⟨B', L1, w2.shrink (by simp) fun d hd hdcs => ?_, ?_, ?_, ?_, a, ?_⟩
  · rcases List.mem_cons.1 hd with rfl | hd
    · exact absurd hdcs hrcs
    · exact hd
  · have f : FreeFrame cfg h (A ++ [c, rc] ++ B') (mergeChunks (freeListRemove cfg h rc) c rc) (A ++ [c] ++ B') :=
      FreeFrame.of_agree a (by simp) (by simp)
        (by simp) (by rw [List.mem_singleton]; exact (t.pos_of_mem (c := c) (by simp)).ne) (fun d hd hdc => by
          rw [List.mem_singleton] at hdc
          subst hdc
          exact (List.mem_append.1 hd).elim hnd'.1 hnd'.2)
        (fun d hd => by
          simp only [List.mem_cons, List.not_mem_nil, or_false] at hd
          rcases hd with rfl | rfl
          · exact hu
          · exact hrf)
        (fun d hd => by
          rw [List.mem_singleton.1 hd]
          exact mergeChunks_used_false (by rw [(freeListRemove_sameLayout cfg h _).used]; exact hu))
    simpa using f
  · exact mergeChunks_used_false (by rw [(freeListRemove_sameLayout cfg h _).used]; exact hu)
  · -- the merged chunk ends where the right neighbour ended, at a chunk in use
    have hsz : ((mergeChunks (freeListRemove cfg h rc) c rc).chunks c).size = (h.chunks c).size + (h.chunks rc).size := by
      rw [mergeChunks_size _ _ hcr, if_pos rfl, (freeListRemove_sameLayout cfg h rc).size,
        (freeListRemove_sameLayout cfg h rc).size]
    have hy := w.right_used (c := rc) (by simp) (by simp [hcr]) hrf
    have hyc : rightChunk h rc ≠ c := by simp only [rightChunk, chunkSize] at hrc ⊢; omega
    have hyu : chunkUsed h (rightChunk h rc) = true := by
      rcases hy with hy | hy
      · exact absurd (List.mem_singleton.1 hy) hyc
      · exact hy
    have e : rightChunk (mergeChunks (freeListRemove cfg h rc) c rc) c = rightChunk h rc := by
      simp only [rightChunk, chunkSize, hsz] at hrc ⊢
      omega
    rw [e, chunkUsed, (a _ (by simpa using hyc)).2]
    exact hyu
  · have hne : c ≠ rc + (h.chunks rc).size := by simp only [rightChunk, chunkSize] at hrc; omega
    rw [mergeChunks_leftSize _ _ hcr, (freeListRemove_sameLayout cfg h rc).size, if_neg hne,
      (freeListRemove_sameLayout cfg h rc).leftSize]

theorem freeChunkLeft_spec (w : HeapWf cfg h (A ++ c :: B) L [c]) (hu : chunkUsed h c = false)
    (hr : chunkUsed h (rightChunk h c) = true) :
    ∃ cs' L', HeapWf cfg (freeChunkLeft cfg h c) cs' L' [] ∧
      FreeFrame cfg h (A ++ c :: B) (freeChunkLeft cfg h c) cs' := by
  have t := w.tiling
  have hleq := t.left_eq
  have hlt := t.left_lt
  unfold freeChunkLeft
  dsimp only
  by_cases hlu : chunkUsed h (leftChunk h c) = true
  · rw [if_neg (by rw [hlu]; decide)]
    obtain ⟨L', w'⟩ := w.add (Q := []) List.not_mem_nil (by simp) hu (Or.inr hlu) (Or.inr hr)
    exact ⟨_, L', w', .of_sameLayout (freeListAdd_sameLayout cfg h c) _⟩
  have hlf : chunkUsed h (leftChunk h c) = false := Bool.eq_false_iff.2 hlu
  rw [if_pos (by rw [hlf]; rfl)]
  -- the free left neighbour is the last chunk before `c`, not chunk 0
  obtain ⟨A', rfl⟩ : ∃ A', A = A' ++ [leftChunk h c] := by
    rcases List.eq_nil_or_concat' A with rfl | ⟨A', l, rfl⟩
    · rw [hleq] at hlf
      exact absurd w.used0 (by simpa using hlf)
    · exact ⟨A', by rw [hleq]; simp⟩
  generalize hlc : leftChunk h c = lc at hlf hlu w t hlt hleq ⊢
  have e : A' ++ [lc] ++ c :: B = A' ++ lc :: c :: B := by simp
  rw [e] at w t
  have hcl : lc ≠ c := Nat.ne_of_lt hlt
  obtain ⟨L1, w1⟩ := w.remove (c := lc) (by simp) (by simp [hcl]) hlf
  have w2 := w1.merge (by simp) (by simp)
  have hnd := t.nodup
  simp only [List.nodup_append, List.nodup_cons, List.mem_cons, not_or] at hnd
  have hccs : c ∉ A' ++ lc :: B := by
    simp only [List.mem_append, List.mem_cons, not_or]
    exact ⟨fun hm => hnd.2.2 c hm c (by simp) rfl, hcl.symm, hnd.2.1.2.1⟩
  have w3 := w2.shrink (Q := [lc]) (by simp) fun d hd hdcs => by
    simp only [List.mem_cons, List.not_mem_nil, or_false] at hd ⊢
    rcases hd with rfl | rfl
    · rfl
    · exact absurd hdcs hccs
  -- the merged chunk keeps the left neighbour of `lc` and ends where `c` ended
  have hlpos := t.pos lc (by simp)
  obtain ⟨r, Y, hY, hrl⟩ := (show Tiling h (A' ++ lc :: (c :: B)) from t).right_eq
  have hrc : rightChunk h lc = c := by
    rw [hrl]
    rw [List.cons_append, List.cons.injEq] at hY
    exact hY.1.symm
  have hll := (show Tiling h (A' ++ lc :: (c :: B)) from t).left_lt
  have a5 : Agree h (mergeChunks (freeListRemove cfg h lc) lc c) [lc] :=
    ((freeListRemove_sameLayout cfg h lc).agree.trans (mergeChunks_agree lc c)).mono (by simp)
  have hsz : ((mergeChunks (freeListRemove cfg h lc) lc c).chunks lc).size = (h.chunks lc).size + (h.chunks c).size := by
    rw [mergeChunks_size _ _ hcl.symm, if_pos rfl, (freeListRemove_sameLayout cfg h lc).size,
      (freeListRemove_sameLayout cfg h lc).size]
  have hls : ((mergeChunks (freeListRemove cfg h lc) lc c).chunks lc).leftSize = (h.chunks lc).leftSize := by
    simp only [rightChunk, chunkSize] at hrc
    rw [mergeChunks_leftSize _ _ hcl.symm, if_neg (by rw [(freeListRemove_sameLayout cfg h lc).size]; omega),
      (freeListRemove_sameLayout cfg h lc).leftSize]
  have hl5 : chunkUsed (mergeChunks (freeListRemove cfg h lc) lc c)
      (leftChunk (mergeChunks (freeListRemove cfg h lc) lc c) lc) = true := by
    have hy := w.left_used (c := lc) (by simp) (by simp [hcl]) hlf
    have hyl : leftChunk h lc ≠ lc := Nat.ne_of_lt hll
    have hyu : chunkUsed h (leftChunk h lc) = true := by
      rcases hy with hy | hy
      · exact absurd (List.mem_singleton.1 hy) (by omega)
      · exact hy
    have e : leftChunk (mergeChunks (freeListRemove cfg h lc) lc c) lc = leftChunk h lc := by
      simp only [leftChunk, hls]
    rw [e, chunkUsed, (a5 _ (by simpa using hyl)).2]
    exact hyu
  have hr5 : chunkUsed (mergeChunks (freeListRemove cfg h lc) lc c)
      (rightChunk (mergeChunks (freeListRemove cfg h lc) lc c) lc) = true := by
    have e : rightChunk (mergeChunks (freeListRemove cfg h lc) lc c) lc = rightChunk h c := by
      simp only [rightChunk, chunkSize, hsz] at hrc ⊢
      omega
    have hyl : rightChunk h c ≠ lc := by simp only [rightChunk, chunkSize] at hrc ⊢; omega
    rw [e, chunkUsed, (a5 _ (by simpa using hyl)).2]
    exact hr
  have hf5 : chunkUsed (mergeChunks (freeListRemove cfg h lc) lc c) lc = false :=
    mergeChunks_used_false (by rw [(freeListRemove_sameLayout cfg h _).used]; exact hlf)
  obtain ⟨L2, w4⟩ := w3.add (Q := []) List.not_mem_nil (by simp) hf5 (Or.inr hl5) (Or.inr hr5)
  refine ⟨A' ++ lc :: B, L2, w4, ?_⟩
  have a := a5.trans (freeListAdd_sameLayout cfg _ lc).agree
  have f : FreeFrame cfg h (A' ++ [lc, c] ++ B) (freeListAdd cfg (mergeChunks (freeListRemove cfg h lc) lc c) lc)
      (A' ++ [lc] ++ B) :=
    FreeFrame.of_agree a (by simp) (by simp)
      (by simp) (by rw [List.append_nil, List.mem_singleton]; exact (t.pos_of_mem (c := lc) (by simp)).ne)
      (fun d hd hdl => by
        rw [List.append_nil, List.mem_singleton] at hdl
        subst hdl
        rcases List.mem_append.1 hd with hd | hd
        · exact hnd.2.2 d hd d (by simp) rfl
        · exact hnd.2.1.1.2 hd)
      (fun d hd => by
        simp only [List.mem_cons, List.not_mem_nil, or_false] at hd
        rcases hd with rfl | rfl
        · exact hlf
        · exact hu)
      (fun d hd => by
        rw [List.mem_singleton.1 hd, chunkUsed, (freeListAdd_sameLayout cfg _ lc).used]
        exact hf5)
  simpa using f

theorem freeChunk_spec (w : HeapWf cfg h (A ++ c :: B) L [c]) (hu : chunkUsed h c = false) :
    ∃ cs' L', HeapWf cfg (freeChunk cfg h c) cs' L' [] ∧ FreeFrame cfg h (A ++ c :: B) (freeChunk cfg h c) cs' := by
  obtain ⟨B', L3, w3, f3, hu3, hr3, -⟩ := freeChunkRight_spec w hu
  obtain ⟨cs', L4, w4, f4⟩ := freeChunkLeft_spec w3 hu3 hr3
  exact ⟨cs', L4, w4, f3.trans f4⟩

end FreeChunk

/-! sys_heap_free -/

-- sys_heap_free of a block in use: the heap stays well formed over a new
-- layout, and the chunk of the block is the one chunk that leaves use.
theorem sysHeapFree_spec (w : HeapWf cfg h cs L []) {mem : Nat} (hc : memToChunkid cfg h mem ∈ cs)
    (hu : chunkUsed h (memToChunkid cfg h mem) = true) :
    ∃ cs', Kept cfg h cs (sysHeapFree cfg h mem) cs' ∧
      ∃ U V, usedChunks h cs = U ++ memToChunkid cfg h mem :: V ∧
        usedChunks (sysHeapFree cfg h mem) cs' = U ++ V := by
  have hm : mem ≠ 0 := by
    rintro rfl
    have := w.tiling.pos_of_mem hc
    simp [memToChunkid] at this
  unfold sysHeapFree
  rw [if_neg hm]
  dsimp only
  generalize memToChunkid cfg h mem = c at hc hu ⊢
  obtain ⟨A, B, rfl⟩ := List.append_of_mem hc
  have hnd := w.tiling.nodup
  simp only [List.nodup_append, List.nodup_cons] at hnd
  have hcA : c ∉ A := fun hm => hnd.2.2 c hm c (by simp) rfl
  have hcB : c ∉ B := hnd.2.1.1
  have hpos := w.tiling.pos_of_mem hc
  -- the chunk marked free and allocated_bytes lowered, then free_chunk
  have hl := allocated_sameLists (setChunkUsed h c false)
    ((setChunkUsed h c false).allocatedBytes - chunkUsableBytes cfg (setChunkUsed h c false) c)
  have w2 : HeapWf cfg { setChunkUsed h c false with allocatedBytes :=
      (setChunkUsed h c false).allocatedBytes - chunkUsableBytes cfg (setChunkUsed h c false) c } (A ++ c :: B) L [c] :=
    (w.setFree hc hu).of_chunks rfl hl
  have hu2 : chunkUsed { setChunkUsed h c false with allocatedBytes :=
      (setChunkUsed h c false).allocatedBytes - chunkUsableBytes cfg (setChunkUsed h c false) c } c = false := by
    simp [setChunkUsed]
  obtain ⟨cs', L', w', f⟩ := freeChunk_spec w2 hu2
  have a : Agree h { setChunkUsed h c false with allocatedBytes :=
      (setChunkUsed h c false).allocatedBytes - chunkUsableBytes cfg (setChunkUsed h c false) c } [c] :=
    setChunkUsed_agree c false
  have hAB : ∀ d ∈ A ++ B, d ∉ [c] := fun d hd hdc => by
    rw [List.mem_singleton.1 hdc] at hd
    exact (List.mem_append.1 hd).elim hcA hcB
  have hus : chunkUsableBytes cfg (setChunkUsed h c false) c = chunkUsableBytes cfg h c :=
    chunkUsableBytes_congr cfg (setChunkUsed_endChunk h c false) (by simp [setChunkUsed])
  have hBh : usedBytes cfg h (A ++ c :: B) =
      usedBytes cfg h A + chunkUsableBytes cfg h c + usedBytes cfg h B := by
    rw [usedBytes_append, usedBytes_cons, if_pos hu]
    omega
  refine ⟨cs', ⟨⟨L', w'⟩, f.endChunk, f.base, f.size0.trans (a 0 (by simp; omega)).1, fun e => ?_⟩,
    usedChunks h A, usedChunks h B, ?_, ?_⟩
  · rw [f.allocated, f.usedBytes, usedBytes_append, usedBytes_cons, if_neg (by rw [hu2]; decide), Nat.zero_add,
      a.usedBytes rfl fun d hd => hAB d (List.mem_append_left B hd),
      a.usedBytes rfl fun d hd => hAB d (List.mem_append_right A hd)]
    dsimp only
    rw [hus, setChunkUsed_allocatedBytes, e, hBh]
    omega
  · rw [usedChunks_append, usedChunks_cons, if_pos hu]
  · rw [f.usedChunks, usedChunks_append, usedChunks_cons, if_neg (by rw [hu2]; decide),
      a.usedChunks fun d hd => hAB d (List.mem_append_left B hd),
      a.usedChunks fun d hd => hAB d (List.mem_append_right A hd)]

end Zephyr.Heap
