import Zephyr.Heap.Free

namespace Zephyr.Heap

variable {cfg : HeapConfig} {h : ZHeap} {cs : List Nat} {L : Nat → List Nat}

/-! split_chunks and merge_chunks rewrite the used bit of `lc` with its size -/

theorem setChunkSize_setChunkUsed (h : ZHeap) (c s : Nat) (u : Bool) :
    setChunkSize (setChunkUsed h c u) c s = setChunkSize h c s := by
  simp only [setChunkSize, setChunkUsed, ZHeap.modChunk, Function.update_self, Function.update_idem]

theorem splitChunks_setChunkUsed (h : ZHeap) {lc rc : Nat} (hlr : lc < rc) (hr : rc < lc + (h.chunks lc).size)
    (u : Bool) : splitChunks (setChunkUsed h lc u) lc rc = splitChunks h lc rc := by
  have hs : ((setChunkUsed h lc u).chunks lc).size = (h.chunks lc).size := by simp [setChunkUsed]
  rw [splitChunks_eq _ hlr (by rw [hs]; exact hr), splitChunks_eq h hlr hr, hs, setChunkSize_setChunkUsed]

theorem mergeChunks_setChunkUsed (h : ZHeap) {lc rc : Nat} (hne : rc ≠ lc) (u : Bool) :
    mergeChunks (setChunkUsed h lc u) lc rc = mergeChunks h lc rc := by
  have hs : ∀ d, ((setChunkUsed h lc u).chunks d).size = (h.chunks d).size := fun d => by
    simp [setChunkUsed]
  rw [mergeChunks_eq _ hne, mergeChunks_eq h hne, hs, hs, setChunkSize_setChunkUsed]

-- A chunk of at least min_chunk_size units has room past its header and trailer.
theorem header_lt_of_minChunkSize_le {n : Nat} (hm : minChunkSize cfg h ≤ n) :
    chunkHeaderBytes cfg h + chunkTrailerSize cfg * chunkUnit < n * chunkUnit := by
  have hcases := chunkHeaderBytes_cases cfg h
  unfold minChunkSize chunksz at hm
  simp only [chunkUnit] at hm ⊢
  omega

-- A chunk that is not undersized holds its header and trailer.
theorem header_le_of_undersized_false {c : Nat} (hs : 0 < chunkSize h c) (hun : undersizedChunk cfg h c = false) :
    chunkHeaderBytes cfg h + chunkTrailerSize cfg * chunkUnit ≤ chunkSize h c * chunkUnit := by
  have hcases := chunkHeaderBytes_cases cfg h
  by_cases hm : minChunkSize cfg h ≤ chunkSize h c
  · exact (header_lt_of_minChunkSize_le hm).le
  · have hcond : (chunkTrailerSize cfg != 0 || bigHeap cfg h) = false := by
      simp only [undersizedChunk, Bool.and_eq_false_iff, decide_eq_false_iff_not] at hun
      exact hun.resolve_right (fun h1 => hm (Nat.le_of_not_lt h1))
    simp only [Bool.or_eq_false_iff, bne_eq_false_iff_eq] at hcond
    have hh : chunkHeaderBytes cfg h = 4 := by simp [chunkHeaderBytes, hcond.2]
    rw [hh, hcond.1, chunkUnit]
    omega

-- A chunk that grows does not become undersized.
theorem undersizedChunk_mono {h' : ZHeap} {c c' : Nat} (e : h'.endChunk = h.endChunk)
    (hs : (h.chunks c).size ≤ (h'.chunks c').size) (hun : undersizedChunk cfg h c = false) :
    undersizedChunk cfg h' c' = false := by
  unfold undersizedChunk bigHeap chunkSize at *
  rw [minChunkSize_congr cfg e, e]
  simp only [Bool.and_eq_false_iff, decide_eq_false_iff_not, Nat.not_lt] at hun ⊢
  exact hun.imp_right fun h1 => Nat.le_trans h1 hs

/-! inplace_realloc, cut at its branches -/

section InPlace

variable (cfg)

-- Shrink in place: the unused suffix is split off, merged with a free right
-- neighbour and listed.
def inplaceShrink (h : ZHeap) (c need : Nat) : ZHeap :=
  let h := { h with allocatedBytes := h.allocatedBytes - (chunkSize h c - need) * chunkUnit }
  let h := setChunkUsed (splitChunks h c (c + need)) c true
  freeListAdd cfg (freeChunkRight cfg h (c + need)) (c + need)

-- Expand into the free right neighbour, splitting off what is not needed.
def inplaceGrow (h : ZHeap) (c need : Nat) : ZHeap :=
  let rc := rightChunk h c
  let splitSize := need - chunkSize h c
  let h := increaseAllocatedBytes h (splitSize * chunkUnit)
  let h := freeListRemove cfg h rc
  let h := if splitSize < chunkSize h rc
    then freeListAdd cfg (splitChunks h rc (rc + splitSize)) (rc + splitSize) else h
  setChunkUsed (mergeChunks h c rc) c true

theorem inplaceRealloc_eq (h : ZHeap) (p bytes : Nat) :
    inplaceRealloc cfg h p bytes =
      if chunkSize h (memToChunkid cfg h p) = bytesToChunksz cfg h bytes (memAlignGap cfg h p) then (h, true)
      else if bytesToChunksz cfg h bytes (memAlignGap cfg h p) < chunkSize h (memToChunkid cfg h p) then
        (inplaceShrink cfg h (memToChunkid cfg h p) (bytesToChunksz cfg h bytes (memAlignGap cfg h p)), true)
      else if !chunkUsed h (rightChunk h (memToChunkid cfg h p)) ∧
          bytesToChunksz cfg h bytes (memAlignGap cfg h p) ≤
            chunkSize h (memToChunkid cfg h p) + chunkSize h (rightChunk h (memToChunkid cfg h p)) then
        (inplaceGrow cfg h (memToChunkid cfg h p) (bytesToChunksz cfg h bytes (memAlignGap cfg h p)), true)
      else (h, false) :=
  rfl

end InPlace

theorem Kept.trans {h₂ h₃ : ZHeap} {cs₂ cs₃ : List Nat} (a : Kept cfg h cs h₂ cs₂) (b : Kept cfg h₂ cs₂ h₃ cs₃) :
    Kept cfg h cs h₃ cs₃ :=
  ⟨b.wf, b.endChunk.trans a.endChunk, b.base.trans a.base, b.size0.trans a.size0,
    fun e => b.allocated (a.allocated e)⟩

section Shrink

variable {A B : List Nat} {c need : Nat}

theorem inplaceShrink_spec (w : HeapWf cfg h (A ++ c :: B) L []) (hu : chunkUsed h c = true)
    (hmin : minChunkSize cfg h ≤ need) (hlt : need < chunkSize h c) :
    ∃ cs', Kept cfg h (A ++ c :: B) (inplaceShrink cfg h c need) cs' ∧
      usedChunks (inplaceShrink cfg h c need) cs' = usedChunks h (A ++ c :: B) := by
  have hpos := minChunkSize_pos cfg h
  have t := w.tiling
  have hcpos := t.pos_of_mem (c := c) (by simp)
  obtain ⟨hA, hB⟩ := t.bounds
  have hnd := t.nodup
  simp only [List.nodup_append, List.nodup_cons] at hnd
  unfold inplaceShrink
  dsimp only
  -- allocated_bytes lowered by the units given back
  generalize e1 : ({ h with allocatedBytes := h.allocatedBytes - (chunkSize h c - need) * chunkUnit } : ZHeap) = h1
  have w1 : HeapWf cfg h1 (A ++ c :: B) L [] := by
    rw [← e1]
    exact w.of_chunks rfl (allocated_sameLists _ _)
  have a1 : Agree h h1 [] := by rw [← e1]; exact agree_of_chunks rfl
  have hend1 : h1.endChunk = h.endChunk := by rw [← e1]
  have hbase1 : h1.base = h.base := by rw [← e1]
  have hal1 : h1.allocatedBytes = h.allocatedBytes - (chunkSize h c - need) * chunkUnit := by rw [← e1]
  have hsz1 : (h1.chunks c).size = chunkSize h c := (a1 c List.not_mem_nil).1
  have hu1 : chunkUsed h1 c = true := by rw [chunkUsed, (a1 c List.not_mem_nil).2]; exact hu
  clear e1
  -- split at c + need: both halves free, then `c` marked used again
  have hneed : need ≠ 0 := by omega
  have hlr : c < c + need := by omega
  have hr : c + need < c + (h1.chunks c).size := by rw [hsz1]; omega
  have w2 := (w1.setFree (by simp) hu1).split (List.mem_singleton_self c) hlr
    (by rw [setChunkUsed_size]; exact hr)
  rw [splitChunks_setChunkUsed h1 hlr hr] at w2
  have hsz2 : ((splitChunks h1 c (c + need)).chunks c).size = need := by
    rw [splitChunks_size h1 c hlr hr, if_pos rfl]
    omega
  have hun2 : undersizedChunk cfg (splitChunks h1 c (c + need)) c = false := by
    refine undersizedChunk_of_le ?_
    have em : minChunkSize cfg (splitChunks h1 c (c + need)) = minChunkSize cfg h :=
      minChunkSize_congr cfg (by simp [hend1])
    rw [chunkSize, hsz2, em]
    exact hmin
  have w3 := w2.setUsed (Q := [c + need]) (by simp) (by simp) hun2
    (fun d hd hdc => by simp only [List.mem_cons, List.not_mem_nil, or_false] at hd ⊢; omega) (by simp)
  have a3 : Agree h (setChunkUsed (splitChunks h1 c (c + need)) c true) [c, c + need] :=
    ((a1.trans (splitChunks_agree hlr hr)).trans (setChunkUsed_agree c true)).mono (by simp [hneed])
  have hf3 : chunkUsed (setChunkUsed (splitChunks h1 c (c + need)) c true) (c + need) = false := by
    simp [setChunkUsed, splitChunks_used h1 _ hlr hr, hneed]
  have hu3 : chunkUsed (setChunkUsed (splitChunks h1 c (c + need)) c true) c = true := by simp [setChunkUsed]
  have hls3 : ((setChunkUsed (splitChunks h1 c (c + need)) c true).chunks (c + need)).leftSize = need := by
    simp [setChunkUsed, splitChunks_leftSize h1 _ hlr hr]
  have hsz3 : ((setChunkUsed (splitChunks h1 c (c + need)) c true).chunks c).size = need := by
    rw [setChunkUsed_size, hsz2]
  have hal3 : (setChunkUsed (splitChunks h1 c (c + need)) c true).allocatedBytes = h1.allocatedBytes := by simp
  have hend3 : (setChunkUsed (splitChunks h1 c (c + need)) c true).endChunk = h.endChunk := by simp [hend1]
  have hbase3 : (setChunkUsed (splitChunks h1 c (c + need)) c true).base = h.base := by simp [hbase1]
  generalize setChunkUsed (splitChunks h1 c (c + need)) c true = h3 at w3 a3 hf3 hu3 hls3 hsz3 hal3 hend3 hbase3
  -- the suffix is merged with a free right neighbour, then listed next to the used `c`
  rw [show A ++ c :: (c + need) :: B = (A ++ [c]) ++ (c + need) :: B by simp] at w3
  obtain ⟨B', L4, w4, f4, hu4, hr4, a4, hls4⟩ := freeChunkRight_spec w3 hf3
  have hl4 : chunkUsed (freeChunkRight cfg h3 (c + need)) (leftChunk (freeChunkRight cfg h3 (c + need)) (c + need)) =
      true := by
    have e : leftChunk (freeChunkRight cfg h3 (c + need)) (c + need) = c := by
      simp only [leftChunk, hls4, hls3]
      omega
    rw [e, chunkUsed, (a4 c (by simp; omega)).2]
    exact hu3
  obtain ⟨L5, w5⟩ := w4.add (Q := []) List.not_mem_nil (by simp) hu4 (Or.inr hl4) (Or.inr hr4)
  have f5 := f4.trans (FreeFrame.of_sameLayout (freeListAdd_sameLayout cfg (freeChunkRight cfg h3 (c + need))
    (c + need)) ((A ++ [c]) ++ (c + need) :: B'))
  -- the chunks in use and their bytes: only `c` changed, from its old size to `need`
  have hAB : ∀ d ∈ A ++ B, d ∉ [c, c + need] := fun d hd hdT => by
    simp only [List.mem_cons, List.not_mem_nil, or_false] at hdT
    rcases List.mem_append.1 hd with hd | hd
    · have := hA d hd; omega
    · have := hB d hd; simp only [chunkSize] at hlt; omega
  have hU3 : usedChunks h3 ((A ++ [c]) ++ (c + need) :: B) = usedChunks h (A ++ c :: B) := by
    simp only [usedChunks_append, usedChunks_cons, hu3, hf3, if_true, Bool.false_eq_true,
      if_false, List.append_assoc, List.singleton_append, hu]
    rw [a3.usedChunks fun d hd => hAB d (List.mem_append_left B hd),
      a3.usedChunks fun d hd => hAB d (List.mem_append_right A hd)]
  have hB3 : usedBytes cfg h3 ((A ++ [c]) ++ (c + need) :: B) =
      usedBytes cfg h A + chunkUsableBytes cfg h3 c + usedBytes cfg h B := by
    simp only [usedBytes_append, usedBytes_cons, usedBytes_nil, hu3, hf3, if_true, Bool.false_eq_true,
      if_false]
    rw [a3.usedBytes hend3 fun d hd => hAB d (List.mem_append_left B hd),
      a3.usedBytes hend3 fun d hd => hAB d (List.mem_append_right A hd)]
    omega
  have hBh : usedBytes cfg h (A ++ c :: B) =
      usedBytes cfg h A + chunkUsableBytes cfg h c + usedBytes cfg h B := by
    rw [usedBytes_append, usedBytes_cons, if_pos hu]
    omega
  have hus3 : chunkUsableBytes cfg h3 c = need * 8 - chunkHeaderBytes cfg h - chunkTrailerSize cfg * 8 := by
    rw [chunkUsableBytes, chunkSize, hsz3, chunkHeaderBytes_congr cfg hend3, chunkUnit]
  have hus : chunkUsableBytes cfg h c = chunkSize h c * 8 - chunkHeaderBytes cfg h - chunkTrailerSize cfg * 8 := by
    rw [chunkUsableBytes, chunkUnit]
  have hH : chunkHeaderBytes cfg h + chunkTrailerSize cfg * 8 < need * 8 := header_lt_of_minChunkSize_le hmin
  refine ⟨(A ++ [c]) ++ (c + need) :: B', ⟨⟨L5, w5⟩, f5.endChunk.trans hend3, f5.base.trans hbase3,
    f5.size0.trans (a3 0 (by simp; omega)).1, fun e => ?_⟩, f5.usedChunks.trans hU3⟩
  rw [f5.allocated, hal3, hal1, f5.usedBytes, hB3, e, hBh, hus3, hus, chunkUnit]
  have hle : need * 8 ≤ chunkSize h c * 8 := Nat.mul_le_mul_right 8 hlt.le
  rw [Nat.sub_mul]
  -- the bytes given back leave the header and trailer of `c` in place
  clear * - hH hle
  omega

end Shrink

section Grow

variable {A T : List Nat} {c rc : Nat} {h₃ : ZHeap} {L₃ : Nat → List Nat}

-- merge_chunks(c, rc) of a used chunk with its free right neighbour, then
-- set_chunk_used(c, true).
theorem HeapWf.growMerge (w : HeapWf cfg h₃ (A ++ c :: rc :: T) L₃ [rc]) (hu : chunkUsed h₃ c = true) :
    ∃ L', HeapWf cfg (setChunkUsed (mergeChunks h₃ c rc) c true) (A ++ c :: T) L' [] := by
  have t := w.tiling
  have hnd := t.nodup
  simp only [List.nodup_append, List.nodup_cons, List.mem_cons, not_or] at hnd
  have hne : rc ≠ c := fun e => hnd.2.1.1.1 e.symm
  have hrcs : rc ∉ A ++ c :: T := by
    simp only [List.mem_append, List.mem_cons, not_or]
    exact ⟨fun hm => hnd.2.2 rc hm rc (by simp) rfl, hne, hnd.2.1.2.1⟩
  have w1 := (w.setFree (by simp) hu).merge (by simp) (by simp)
  rw [mergeChunks_setChunkUsed h₃ hne] at w1
  have w2 := w1.shrink (Q := [c]) (by simp) fun d hd hdcs => by
    simp only [List.mem_cons, List.not_mem_nil, or_false] at hd ⊢
    rcases hd with rfl | rfl
    · rfl
    · exact absurd hdcs hrcs
  have hun : undersizedChunk cfg (mergeChunks h₃ c rc) c = false := by
    refine undersizedChunk_mono (by simp) ?_ (w.usedOk c (by simp) hu)
    rw [mergeChunks_size _ _ hne, if_pos rfl]
    omega
  exact ⟨L₃, w2.setUsed (Q := []) (by simp) (by simp) hun (fun d hd hdc => by simp_all) (by simp)⟩

theorem inplaceGrow_spec {B : List Nat} {need : Nat} (w : HeapWf cfg h (A ++ c :: B) L [])
    (hu : chunkUsed h c = true) (hrf : chunkUsed h (rightChunk h c) = false) (hgt : chunkSize h c < need)
    (hle : need ≤ chunkSize h c + chunkSize h (rightChunk h c)) :
    ∃ cs', Kept cfg h (A ++ c :: B) (inplaceGrow cfg h c need) cs' ∧
      usedChunks (inplaceGrow cfg h c need) cs' = usedChunks h (A ++ c :: B) := by
  have t := w.tiling
  obtain ⟨r, Y, hY, hr⟩ := t.right_eq
  obtain ⟨hA, hB⟩ := t.bounds
  have hcpos := t.pos_of_mem (c := c) (by simp)
  have hH := header_le_of_undersized_false (t.pos c (by simp)) (w.usedOk c (by simp) hu)
  unfold inplaceGrow
  dsimp only
  -- the free right neighbour is the next chunk of the layout
  obtain ⟨B', rfl⟩ : ∃ B', B = rightChunk h c :: B' := by
    cases B with
    | nil =>
      rw [List.nil_append, List.cons.injEq] at hY
      rw [hr, ← hY.1, w.usedEnd] at hrf
      cases hrf
    | cons r' B' =>
      rw [List.cons_append, List.cons.injEq] at hY
      exact ⟨B', by rw [hr, hY.1]⟩
  have hrr := w.right_used (c := rightChunk h c) (by simp) List.not_mem_nil hrf
  have hrpos := t.pos (rightChunk h c) (by simp)
  generalize hrc : rightChunk h c = rc at hrf hle hrr hrpos hB w t ⊢
  have hcr : c + (h.chunks c).size = rc := hrc
  generalize hs : need - chunkSize h c = s
  have hs0 : 0 < s := by omega
  have hsle : s ≤ (h.chunks rc).size := by simp only [chunkSize] at hle hs; omega
  -- allocated_bytes raised by the units taken
  have w1 : HeapWf cfg (increaseAllocatedBytes h (s * chunkUnit)) (A ++ c :: rc :: B') L [] :=
    w.of_chunks rfl (increaseAllocatedBytes_sameLists h _)
  have a1 : Agree h (increaseAllocatedBytes h (s * chunkUnit)) [] := agree_of_chunks rfl
  have hal1 : (increaseAllocatedBytes h (s * chunkUnit)).allocatedBytes = h.allocatedBytes + s * chunkUnit := rfl
  have hend1 : (increaseAllocatedBytes h (s * chunkUnit)).endChunk = h.endChunk := rfl
  have hbase1 : (increaseAllocatedBytes h (s * chunkUnit)).base = h.base := rfl
  generalize increaseAllocatedBytes h (s * chunkUnit) = h1 at w1 a1 hal1 hend1 hbase1 ⊢
  -- rc taken off its free list
  obtain ⟨L2, w2⟩ := w1.remove (c := rc) (by simp) List.not_mem_nil (by rw [chunkUsed, (a1 rc List.not_mem_nil).2]; exact hrf)
  have l2 := freeListRemove_sameLayout cfg h1 rc
  have a2 : Agree h (freeListRemove cfg h1 rc) [] := a1.trans l2.agree
  have hal2 : (freeListRemove cfg h1 rc).allocatedBytes = h.allocatedBytes + s * chunkUnit := by
    rw [l2.allocatedBytes, hal1]
  have hend2 : (freeListRemove cfg h1 rc).endChunk = h.endChunk := by rw [l2.endChunk, hend1]
  have hbase2 : (freeListRemove cfg h1 rc).base = h.base := by rw [l2.base, hbase1]
  generalize freeListRemove cfg h1 rc = h2 at w2 a2 hal2 hend2 hbase2 ⊢
  have hsz2 : (h2.chunks rc).size = (h.chunks rc).size := (a2 rc List.not_mem_nil).1
  -- the right neighbour of rc is in use
  have hright : chunkUsed h2 (rightChunk h2 rc) = true := by
    have e : rightChunk h2 rc = rightChunk h rc := by simp only [rightChunk, chunkSize, hsz2]
    rw [e, chunkUsed, (a2 _ List.not_mem_nil).2]
    simpa using hrr
  have t' : Tiling h ((A ++ [c]) ++ rc :: B') := by simpa using t
  have hB' := t'.bounds.2
  -- what rc does not give to c is split off and listed
  obtain ⟨T, L3, h3, w3, hT3, hTb3, a3, hsz3, hal3, hend3, hbase3, e3⟩ : ∃ T L3 h3,
      HeapWf cfg h3 (A ++ c :: rc :: T) L3 [rc] ∧ usedChunks h3 T = usedChunks h B' ∧
      usedBytes cfg h3 T = usedBytes cfg h B' ∧ Agree h h3 [rc, rc + s] ∧ (h3.chunks rc).size = s ∧
      h3.allocatedBytes = h.allocatedBytes + s * chunkUnit ∧ h3.endChunk = h.endChunk ∧ h3.base = h.base ∧
      (if s < chunkSize h2 rc then freeListAdd cfg (splitChunks h2 rc (rc + s)) (rc + s) else h2) = h3 := by
    by_cases hsp : s < chunkSize h2 rc
    · rw [if_pos hsp]
      have hlr : rc < rc + s := by omega
      have hr2 : rc + s < rc + (h2.chunks rc).size := by simp only [chunkSize] at hsp; omega
      obtain ⟨L3, w3⟩ := (show HeapWf cfg h2 ((A ++ [c]) ++ rc :: B') L2 [rc] by simpa using w2).splitTail
        (List.mem_singleton_self rc) (by simp; omega) hlr hr2 (Or.inr hright)
      have l3 := freeListAdd_sameLayout cfg (splitChunks h2 rc (rc + s)) (rc + s)
      have a3 : Agree h (freeListAdd cfg (splitChunks h2 rc (rc + s)) (rc + s)) [rc, rc + s] :=
        ((a2.trans (splitChunks_agree hlr hr2)).trans l3.agree).mono (by simp)
      have hf : chunkUsed (freeListAdd cfg (splitChunks h2 rc (rc + s)) (rc + s)) (rc + s) = false := by
        rw [chunkUsed, l3.used, splitChunks_used h2 _ hlr hr2]
        simp
      have hBT : ∀ d ∈ B', d ∉ [rc, rc + s] := fun d hd hdT => by
        have := hB' d hd
        simp only [List.mem_cons, List.not_mem_nil, or_false] at hdT
        omega
      refine ⟨(rc + s) :: B', L3, _, by simpa using w3, ?_, ?_, a3, ?_, ?_, by simp [hend2], by simp [hbase2], rfl⟩
      · rw [usedChunks_cons, if_neg (by rw [hf]; decide), a3.usedChunks hBT]
      · rw [usedBytes_cons, if_neg (by rw [hf]; decide), Nat.zero_add, a3.usedBytes (by simp [hend2]) hBT]
      · rw [l3.size, splitChunks_size h2 rc hlr hr2, if_pos rfl]
        omega
      · simp [hal2]
    · rw [if_neg hsp]
      have hs' : s = (h.chunks rc).size := by simp only [chunkSize, hsz2] at hsp; omega
      refine ⟨B', L2, h2, w2, a2.usedChunks (fun _ _ => List.not_mem_nil), a2.usedBytes hend2 (fun _ _ => List.not_mem_nil),
        a2.mono (by simp), by rw [hsz2, hs'], hal2, hend2, hbase2, rfl⟩
  rw [e3]
  clear e3
  -- c absorbs rc and is marked used again
  have hcs := t.pos c (by simp)
  simp only [chunkSize] at hcs
  have hc3 : c ∉ [rc, rc + s] := by
    simp only [List.mem_cons, List.not_mem_nil, or_false, not_or]
    omega
  have hu3 : chunkUsed h3 c = true := by
    rw [chunkUsed, (a3 c hc3).2]
    exact hu
  obtain ⟨L4, w4⟩ := w3.growMerge hu3
  have hnd := w3.tiling.nodup
  simp only [List.nodup_append, List.nodup_cons, List.mem_cons, not_or] at hnd
  have hcT : c ∉ T := hnd.2.1.1.2
  have hcA : c ∉ A := fun hm => hnd.2.2 c hm c (by simp) rfl
  have hAT : ∀ d ∈ A, d ∉ [rc, rc + s] := fun d hd hdT => by
    have := hA d hd
    simp only [List.mem_cons, List.not_mem_nil, or_false] at hdT
    omega
  have hrc0 : rc ≠ c := by omega
  have a4 : Agree h3 (setChunkUsed (mergeChunks h3 c rc) c true) [c] :=
    ((mergeChunks_agree c rc).trans (setChunkUsed_agree c true)).mono (by simp)
  have hu4 : chunkUsed (setChunkUsed (mergeChunks h3 c rc) c true) c = true := by simp [setChunkUsed]
  have hend4 : (setChunkUsed (mergeChunks h3 c rc) c true).endChunk = h.endChunk := by simp [hend3]
  have hus4 : chunkUsableBytes cfg (setChunkUsed (mergeChunks h3 c rc) c true) c =
      (chunkSize h c + s) * 8 - chunkHeaderBytes cfg h - chunkTrailerSize cfg * 8 := by
    rw [chunkUsableBytes, chunkSize, setChunkUsed_size, mergeChunks_size _ _ hrc0, if_pos rfl, hsz3,
      (a3 c hc3).1, chunkHeaderBytes_congr cfg hend4, chunkUnit]
    rfl
  have hus : chunkUsableBytes cfg h c = chunkSize h c * 8 - chunkHeaderBytes cfg h - chunkTrailerSize cfg * 8 := by
    rw [chunkUsableBytes, chunkUnit]
  have hcA' : ∀ d ∈ A, d ∉ [c] := fun d hd hdc => hcA (List.mem_singleton.1 hdc ▸ hd)
  have hcT' : ∀ d ∈ T, d ∉ [c] := fun d hd hdc => hcT (List.mem_singleton.1 hdc ▸ hd)
  refine ⟨A ++ c :: T, ⟨⟨L4, w4⟩, hend4, by simp [hbase3], ?_, fun e => ?_⟩, ?_⟩
  · rw [(a4 0 (by simp; omega)).1, (a3 0 (by simp; omega)).1]
  · simp only [setChunkUsed_allocatedBytes, mergeChunks_allocatedBytes, hal3]
    rw [usedBytes_append, usedBytes_cons, if_pos hu4, a4.usedBytes (by simp) hcA', a4.usedBytes (by simp) hcT',
      a3.usedBytes hend3 hAT, hTb3, hus4, e, usedBytes_append, usedBytes_cons, if_pos hu, usedBytes_cons,
      if_neg (by rw [hrf]; decide), hus, chunkUnit]
    simp only [chunkSize] at hH ⊢
    simp only [chunkUnit] at hH
    rw [Nat.add_mul]
    omega
  · rw [usedChunks_append, usedChunks_cons, if_pos hu4, a4.usedChunks hcA', a4.usedChunks hcT',
      a3.usedChunks hAT, hT3, usedChunks_append, usedChunks_cons, if_pos hu, usedChunks_cons,
      if_neg (by rw [hrf]; decide)]

end Grow

/-! sys_heap_realloc and sys_heap_aligned_realloc -/

section Realloc

variable {p bytes : Nat}

-- inplace_realloc on a block in use: resized in place with the heap kept
-- well formed and the same chunks in use, or nothing done.
theorem inplaceRealloc_kept (w : HeapWf cfg h cs L []) (hb : bytes ≠ 0) (hc : memToChunkid cfg h p ∈ cs)
    (hu : chunkUsed h (memToChunkid cfg h p) = true) :
    ((inplaceRealloc cfg h p bytes).2 = true ∧ ∃ cs', Kept cfg h cs (inplaceRealloc cfg h p bytes).1 cs' ∧
      usedChunks (inplaceRealloc cfg h p bytes).1 cs' = usedChunks h cs) ∨
    inplaceRealloc cfg h p bytes = (h, false) := by
  rw [inplaceRealloc_eq]
  generalize memToChunkid cfg h p = c at hc hu ⊢
  generalize hn : bytesToChunksz cfg h bytes (memAlignGap cfg h p) = need
  obtain ⟨A, B, rfl⟩ := List.append_of_mem hc
  have hle := w.tiling.right_le hc
  split_ifs with h1 h2 h3
  · exact Or.inl ⟨rfl, _, .of_sameLayout (.refl h) w, rfl⟩
  · have hmin : minChunkSize cfg h ≤ need := by
      rw [← hn]
      refine minChunkSize_le_bytesToChunksz (Nat.pos_of_ne_zero hb) ?_
      simp only [chunkSize] at h2 hn
      omega
    exact Or.inl ⟨rfl, inplaceShrink_spec w hu hmin h2⟩
  · simp only [Bool.not_eq_true'] at h3
    exact Or.inl ⟨rfl, inplaceGrow_spec w hu h3.1 (by omega) h3.2⟩
  · exact Or.inr rfl

-- What a realloc of the live block `p` does to the chunks in use: the chunk
-- of `p` leaves use when the block is freed or moved, and a moved block's new
-- chunk, one not in use before, enters.
def ReallocOut (cfg : HeapConfig) (h : ZHeap) (cs : List Nat) (h' : ZHeap) (cs' : List Nat)
    (p bytes q : Nat) : Prop :=
  ∃ U V, usedChunks h cs = U ++ memToChunkid cfg h p :: V ∧
    (bytes = 0 → q = 0 ∧ usedChunks h' cs' = U ++ V) ∧
    (bytes ≠ 0 → q = 0 → usedChunks h' cs' = usedChunks h cs) ∧
    (q ≠ 0 → (q = p ∨ memToChunkid cfg h q ∉ usedChunks h cs) ∧
      (usedChunks h' cs').Perm (memToChunkid cfg h q :: (U ++ V)))

-- The fallback of both reallocs: allocate anew, and free `p` once that worked.
theorem realloc_tail (hb : bytes ≠ 0) (hcu : memToChunkid cfg h p ∈ usedChunks h cs) {h1 : ZHeap}
    {cs1 : List Nat} {q : Nat} (k : Kept cfg h cs h1 cs1) (out : AllocOut cfg h cs h1 cs1 q) :
    ∃ cs', Kept cfg h cs (if q ≠ 0 then (sysHeapFree cfg h1 p, q) else (h1, 0)).1 cs' ∧
      ReallocOut cfg h cs (if q ≠ 0 then (sysHeapFree cfg h1 p, q) else (h1, 0)).1 cs' p bytes
        (if q ≠ 0 then (sysHeapFree cfg h1 p, q) else (h1, 0)).2 := by
  obtain ⟨U, V, hUV⟩ := List.append_of_mem hcu
  rcases out with ⟨rfl, hU⟩ | ⟨hq, hnot, hperm⟩
  · rw [if_neg (not_not.2 rfl)]
    exact ⟨cs1, k, U, V, hUV, fun h0 => absurd h0 hb, fun _ _ => hU, fun h0 => absurd rfl h0⟩
  rw [if_pos hq]
  -- the chunk of `p` is still in use after the allocation
  have e : memToChunkid cfg h1 p = memToChunkid cfg h p := memToChunkid_congr cfg k.endChunk k.base p
  have hc1 : memToChunkid cfg h1 p ∈ usedChunks h1 cs1 := by
    rw [e]
    exact hperm.symm.subset (List.mem_cons_of_mem _ hcu)
  obtain ⟨L1, w1⟩ := k.wf
  obtain ⟨cs2, k2, U', V', hsplit, hfree⟩ :=
    sysHeapFree_spec w1 (mem_usedChunks.1 hc1).1 (mem_usedChunks.1 hc1).2
  refine ⟨cs2, k.trans k2, U, V, hUV, fun h0 => absurd h0 hb, fun _ h0 => absurd h0 hq,
    fun _ => ⟨Or.inr hnot, ?_⟩⟩
  -- cancel the chunk of `p` on both sides of the permutation
  rw [hfree]
  rw [hsplit, e, hUV] at hperm
  have h2 := List.perm_middle.symm.trans (hperm.trans (List.Perm.cons _ List.perm_middle))
  exact (List.Perm.cons_inv (h2.trans (List.Perm.swap _ _ _))).trans (List.Perm.refl _)

theorem sysHeapRealloc_kept (w : HeapWf cfg h cs L []) (hp : p ≠ 0) (hc : memToChunkid cfg h p ∈ cs)
    (hu : chunkUsed h (memToChunkid cfg h p) = true) (bytes : Nat) :
    ∃ cs', Kept cfg h cs (sysHeapRealloc cfg h p bytes).1 cs' ∧
      ReallocOut cfg h cs (sysHeapRealloc cfg h p bytes).1 cs' p bytes (sysHeapRealloc cfg h p bytes).2 := by
  have hcu : memToChunkid cfg h p ∈ usedChunks h cs := mem_usedChunks.2 ⟨hc, hu⟩
  obtain ⟨U, V, hUV⟩ := List.append_of_mem hcu
  unfold sysHeapRealloc
  rw [if_neg hp]
  by_cases hb : bytes = 0
  · rw [if_pos hb]
    obtain ⟨cs', k, U', V', hsplit, hfree⟩ := sysHeapFree_spec w hc hu
    exact ⟨cs', k, U', V', hsplit, fun _ => ⟨rfl, hfree⟩, fun h0 => absurd hb h0, fun h0 => absurd rfl h0⟩
  rw [if_neg hb]
  rcases inplaceRealloc_kept w hb hc hu with ⟨hok, cs', k, hU⟩ | hfail
  · generalize inplaceRealloc cfg h p bytes = r at hok k hU ⊢
    obtain ⟨h1, ok⟩ := r
    dsimp only at hok k hU ⊢
    subst hok
    rw [if_pos rfl]
    refine ⟨cs', k, U, V, hUV, fun h0 => absurd h0 hb, fun _ h0 => absurd h0 hp, fun _ => ⟨Or.inl rfl, ?_⟩⟩
    rw [hU, hUV]
    exact List.perm_middle
  · rw [hfail]
    dsimp only
    obtain ⟨cs1, k1, out⟩ := sysHeapAlloc_spec w bytes
    generalize sysHeapAlloc cfg h bytes = r at k1 out ⊢
    obtain ⟨h1, q⟩ := r
    exact realloc_tail hb hcu k1 out

theorem sysHeapAlignedRealloc_kept (w : HeapWf cfg h cs L []) (hbase : h.base % chunkUnit = 0) (hp : p ≠ 0)
    (hc : memToChunkid cfg h p ∈ cs) (hu : chunkUsed h (memToChunkid cfg h p) = true) {align : Nat}
    (hw : align < 2 ^ (8 * cfg.ptrBytes)) (bytes : Nat) :
    ∃ cs', Kept cfg h cs (sysHeapAlignedRealloc cfg h p align bytes).1 cs' ∧
      ReallocOut cfg h cs (sysHeapAlignedRealloc cfg h p align bytes).1 cs' p bytes
        (sysHeapAlignedRealloc cfg h p align bytes).2 := by
  have hcu : memToChunkid cfg h p ∈ usedChunks h cs := mem_usedChunks.2 ⟨hc, hu⟩
  obtain ⟨U, V, hUV⟩ := List.append_of_mem hcu
  unfold sysHeapAlignedRealloc
  rw [if_neg hp]
  by_cases hb : bytes = 0
  · rw [if_pos hb]
    obtain ⟨cs', k, U', V', hsplit, hfree⟩ := sysHeapFree_spec w hc hu
    exact ⟨cs', k, U', V', hsplit, fun _ => ⟨rfl, hfree⟩, fun h0 => absurd hb h0, fun h0 => absurd rfl h0⟩
  rw [if_neg hb]
  -- the in-place attempt is made only for a pointer that has the alignment
  have hip : ((if align = 0 ∨ p &&& (align - 1) = 0 then inplaceRealloc cfg h p bytes else (h, false)).2 = true ∧
      ∃ cs', Kept cfg h cs (if align = 0 ∨ p &&& (align - 1) = 0 then inplaceRealloc cfg h p bytes
        else (h, false)).1 cs' ∧ usedChunks (if align = 0 ∨ p &&& (align - 1) = 0
          then inplaceRealloc cfg h p bytes else (h, false)).1 cs' = usedChunks h cs) ∨
      (if align = 0 ∨ p &&& (align - 1) = 0 then inplaceRealloc cfg h p bytes else (h, false)) = (h, false) := by
    split_ifs
    · exact inplaceRealloc_kept w hb hc hu
    · exact Or.inr rfl
  rcases hip with ⟨hok, cs', k, hU⟩ | hfail
  · generalize (if align = 0 ∨ p &&& (align - 1) = 0 then inplaceRealloc cfg h p bytes else (h, false)) = r
      at hok k hU ⊢
    obtain ⟨h1, ok⟩ := r
    dsimp only at hok k hU ⊢
    subst hok
    rw [if_pos rfl]
    refine ⟨cs', k, U, V, hUV, fun h0 => absurd h0 hb, fun _ h0 => absurd h0 hp, fun _ => ⟨Or.inl rfl, ?_⟩⟩
    rw [hU, hUV]
    exact List.perm_middle
  · rw [hfail]
    dsimp only
    obtain ⟨cs1, k1, out⟩ := sysHeapAlignedAlloc_spec w hbase hw bytes
    generalize sysHeapAlignedAlloc cfg h align bytes = r at k1 out ⊢
    obtain ⟨h1, q⟩ := r
    exact realloc_tail hb hcu k1 out

end Realloc

end Zephyr.Heap
