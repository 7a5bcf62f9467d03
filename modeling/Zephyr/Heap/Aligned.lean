import Zephyr.Heap.Alloc
import Zephyr.Lib.Bits

namespace Zephyr.Heap

theorem roundUp_eq (x A : Nat) (hA : 0 < A) : roundUp x A = x + (A - x % A) % A := by
  have hx := Nat.div_add_mod x A
  have hlt := Nat.mod_lt x hA
  unfold roundUp
  rcases Nat.eq_zero_or_pos (x % A) with h0 | hpos
  · have hq : (x + A - 1) / A = x / A := by
      rw [show x + A - 1 = (A - 1) + A * (x / A) by omega, Nat.add_mul_div_left _ _ hA,
        Nat.div_eq_of_lt (by omega)]
      simp
    rw [hq, h0, Nat.sub_zero, Nat.mod_self, Nat.mul_comm]
    omega
  · have hq : (x + A - 1) / A = x / A + 1 := by
      rw [show x + A - 1 = (x % A - 1) + A * (x / A + 1) by
        rw [Nat.mul_add, Nat.mul_one]; omega, Nat.add_mul_div_left _ _ hA,
        Nat.div_eq_of_lt (by omega)]
      simp
    rw [hq, Nat.mod_eq_of_lt (by omega : A - x % A < A), Nat.add_mul, Nat.one_mul, Nat.mul_comm]
    omega

theorem le_roundUp (x A : Nat) (hA : 0 < A) : x ≤ roundUp x A := by
  rw [roundUp_eq x A hA]
  omega

theorem dvd_roundUp (x A : Nat) : A ∣ roundUp x A := by
  unfold roundUp
  exact Nat.dvd_mul_left _ _

-- Rounding up to a multiple of `A` moves a multiple of `g` by at most `A - g`
-- when `g` divides `A`.
theorem roundUp_sub_le (x A g : Nat) (hA : 0 < A) (hgA : g ≤ A) (hgx : g ∣ x) (hgA' : g ∣ A) : roundUp x A - x ≤ A - g := by
  rw [roundUp_eq x A hA]
  have hr : g ∣ x % A := (Nat.dvd_mod_iff hgA').2 hgx
  rcases Nat.eq_zero_or_pos (x % A) with h0 | hpos
  · rw [h0, Nat.sub_zero, Nat.mod_self]
    omega
  · have hge : g ≤ x % A := Nat.le_of_dvd hpos hr
    have hlt := Nat.mod_lt x hA
    rw [Nat.mod_eq_of_lt (by omega : A - x % A < A)]
    omega

variable {cfg : HeapConfig} {h : ZHeap}

-- The CHECK of sys_heap_aligned_alloc: the aligned chunk `c` lies in the
-- over-allocated chunk `c0`, ends at `cEnd` within the padded size, and is
-- large enough not to be undersized.
theorem aligned_bounds {c0 A rew gap bytes mem endp c cEnd : Nat}
    (hbase : h.base % chunkUnit = 0) (hA : 0 < A) (hgA : gap ≤ A) (hgap : gap ∣ A)
    (hgx : gap ∣ chunkMem cfg h c0 + rew) (hb : 0 < bytes)
    (hpad : bytesToChunksz cfg h bytes (A - gap) < h.endChunk)
    (hmem : mem = roundUp (chunkMem cfg h c0 + rew) A - rew)
    (hendp : endp = roundUp (mem + bytes) chunkUnit) (hc : c = memToChunkid cfg h mem)
    (hcEnd : cEnd = (endp - h.base) / chunkUnit + chunkTrailerSize cfg) :
    c0 ≤ c ∧ c + minChunkSize cfg h ≤ cEnd ∧ cEnd ≤ c0 + bytesToChunksz cfg h bytes (A - gap) := by
  have hR1 := le_roundUp (chunkMem cfg h c0 + rew) A hA
  have hR2 := roundUp_sub_le (chunkMem cfg h c0 + rew) A gap hA hgA hgx hgap
  have hE := roundUp_eq (mem + bytes) chunkUnit (by decide)
  rw [← hendp] at hE
  generalize roundUp (chunkMem cfg h c0 + rew) A = R at hR1 hR2 hmem
  subst hc hcEnd
  clear hgap hgx hendp
  -- the padded size stays below end_chunk, so bytes_to_chunksz is not cut by its min
  have hsz : bytesToChunksz cfg h bytes (A - gap) = bytes / chunkUnit + (A - gap) / chunkUnit +
      (bytes % chunkUnit + (A - gap) % chunkUnit + chunkHeaderBytes cfg h + chunkUnit - 1) / chunkUnit +
      chunkTrailerSize cfg := by
    unfold bytesToChunksz at hpad ⊢
    dsimp only at hpad ⊢
    exact Nat.min_eq_left (by omega)
  rw [hsz]
  clear hpad hsz
  unfold chunkMem memToChunkid minChunkSize chunksz at *
  simp only [chunkUnit] at *
  generalize chunkTrailerSize cfg = T
  -- one arithmetic case per chunk header size
  rcases chunkHeaderBytes_cases cfg h with hH | hH <;> rw [hH] at hR1 hR2 ⊢ <;>
    exact ⟨by omega, by omega, by omega⟩

-- split_chunks(lc, rc) then free_list_add(lc) on the chunk being allocated:
-- the left part goes back on its list and `rc` is allocated instead.
theorem HeapWf.splitHead {A B Q : List Nat} {L : Nat → List Nat} {lc rc : Nat}
    (w : HeapWf cfg h (A ++ lc :: B) L (lc :: Q)) (hlQ : lc ∉ Q) (hlr : lc < rc)
    (hr : rc < lc + (h.chunks lc).size)
    (hleft : leftChunk h lc ∈ Q ∨ chunkUsed h (leftChunk h lc) = true) :
    ∃ L', HeapWf cfg (freeListAdd cfg (splitChunks h lc rc) lc) (A ++ lc :: rc :: B) L' (rc :: Q) := by
  have w1 := w.split List.mem_cons_self hlr hr
  have w2 : HeapWf cfg (splitChunks h lc rc) (A ++ lc :: rc :: B) L (lc :: rc :: Q) :=
    w1.mono (fun d hd => by simp only [List.mem_cons] at hd ⊢; tauto)
      (fun d hd => w1.unlisted d (by simp only [List.mem_cons] at hd ⊢; tauto))
  have hls := fun d => splitChunks_leftSize h d hlr hr
  have hus := fun d => splitChunks_used h d hlr hr
  have hlt := w.tiling.left_lt
  have hpos := w.tiling.pos lc (by simp)
  simp only [chunkSize] at hpos
  have hleftEq : leftChunk (splitChunks h lc rc) lc = leftChunk h lc := by
    simp only [leftChunk, hls, if_neg (show lc ≠ rc by omega),
      if_neg (show lc ≠ lc + (h.chunks lc).size by omega)]
  have hlu : chunkUsed (splitChunks h lc rc) (leftChunk h lc) = chunkUsed h (leftChunk h lc) := by
    simp only [chunkUsed, hus, if_neg (show ¬(leftChunk h lc = lc ∨ leftChunk h lc = rc) by omega)]
  have hrc : rightChunk (splitChunks h lc rc) lc = rc := by
    simp only [rightChunk, chunkSize, splitChunks_size h lc hlr hr, if_true]; omega
  refine w2.add (by simp only [List.mem_cons, not_or]; exact ⟨by omega, hlQ⟩) (by simp) (by simp [hus])
    ?_ (Or.inl (by rw [hrc]; exact List.mem_cons_self))
  rw [hleftEq, hlu]
  exact hleft.imp_left (List.mem_cons_of_mem rc)

-- The prefix of the over-allocated chunk `c0` below the aligned chunk `c`
-- is split off and freed, when there is one.
theorem trimFront {A B : List Nat} {L : Nat → List Nat} {c0 c : Nat} {h2 : ZHeap}
    (w : HeapWf cfg h (A ++ c0 :: B) L [c0]) (hu : chunkUsed h c0 = false)
    (hleft : chunkUsed h (leftChunk h c0) = true) (hc0 : c0 ≤ c) (hc : c < c0 + (h.chunks c0).size)
    (e2 : h2 = if c0 < c then freeListAdd cfg (splitChunks h c0 c) c0 else h) :
    (∃ L', HeapWf cfg h2 (A ++ (if c0 < c then [c0] else []) ++ c :: B) L' [c]) ∧
      Agree h h2 ((if c0 < c then [c0] else []) ++ [c]) ∧
      (h2.chunks c).size = c0 + (h.chunks c0).size - c ∧
      (∀ d ∈ (if c0 < c then [c0] else []) ++ [c], chunkUsed h2 d = false) ∧
      h2.endChunk = h.endChunk ∧ h2.base = h.base ∧ h2.allocatedBytes = h.allocatedBytes := by
  by_cases hlt : c0 < c
  · simp only [hlt, if_true] at e2 ⊢
    subst e2
    obtain ⟨L', w'⟩ := w.splitHead (Q := []) (by simp) hlt hc (Or.inr hleft)
    have hl := freeListAdd_sameLayout cfg (splitChunks h c0 c) c0
    refine ⟨⟨L', by simpa using w'⟩, (splitChunks_agree hlt hc).trans hl.agree |>.mono (by simp),
      ?_, fun d hd => ?_, by simp, by simp, by simp⟩
    · rw [hl.size, splitChunks_size h c hlt hc, if_neg (by omega), if_pos rfl]
    · simp only [List.cons_append, List.nil_append, List.mem_cons, List.not_mem_nil, or_false] at hd
      simp only [chunkUsed, hl.used, splitChunks_used h d hlt hc]
      simp [hd]
  · obtain rfl : c = c0 := by omega
    simp only [lt_irrefl, if_false] at e2 ⊢
    subst e2
    exact ⟨⟨L, by simpa using w⟩, fun d _ => ⟨rfl, rfl⟩, by omega, by simpa using hu, rfl, rfl, rfl⟩

-- The suffix of `c` beyond `cEnd` is split off and freed, when there is one.
theorem trimBack {X B : List Nat} {L : Nat → List Nat} {c cEnd : Nat} {h3 : ZHeap}
    (w : HeapWf cfg h (X ++ c :: B) L [c]) (hu : chunkUsed h c = false)
    (hright : chunkUsed h (rightChunk h c) = true) (hc : c < cEnd) (hcE : cEnd ≤ rightChunk h c)
    (e3 : h3 = if cEnd < rightChunk h c then freeListAdd cfg (splitChunks h c cEnd) cEnd else h) :
    (∃ L', HeapWf cfg h3 (X ++ c :: ((if cEnd < rightChunk h c then [cEnd] else []) ++ B)) L' [c]) ∧
      Agree h h3 (c :: (if cEnd < rightChunk h c then [cEnd] else [])) ∧
      (h3.chunks c).size = cEnd - c ∧
      (∀ d ∈ c :: (if cEnd < rightChunk h c then [cEnd] else []), chunkUsed h3 d = false) ∧
      h3.endChunk = h.endChunk ∧ h3.base = h.base ∧ h3.allocatedBytes = h.allocatedBytes := by
  simp only [rightChunk, chunkSize] at hright hcE e3 ⊢
  by_cases hlt : cEnd < c + (h.chunks c).size
  · simp only [hlt, if_true] at e3 ⊢
    subst e3
    obtain ⟨L', w'⟩ := w.splitTail (List.mem_singleton_self c) (by simp; omega) hc hlt (Or.inr hright)
    have hl := freeListAdd_sameLayout cfg (splitChunks h c cEnd) cEnd
    refine ⟨⟨L', by simpa using w'⟩, (splitChunks_agree hc hlt).trans hl.agree |>.mono (by simp),
      ?_, fun d hd => ?_, by simp, by simp, by simp⟩
    · rw [hl.size, splitChunks_size h c hc hlt, if_pos rfl]
    · simp only [List.mem_cons, List.not_mem_nil, or_false] at hd
      simp only [chunkUsed, hl.used, splitChunks_used h d hc hlt]
      simp [hd]
  · simp only [hlt, if_false] at e3 ⊢
    subst e3
    exact ⟨⟨L, by simpa using w⟩, fun d hd => ⟨rfl, rfl⟩, by omega, by simpa using hu, rfl, rfl, rfl⟩

-- The over-allocate, align and trim part of sys_heap_aligned_alloc, for an
-- alignment `A` and rewind `rew` whose gap divides every chunk's memory.
theorem alignedAllocChunks_spec {cs : List Nat} {L : Nat → List Nat} (w : HeapWf cfg h cs L [])
    (hbase : h.base % chunkUnit = 0) {A rew gap : Nat} (hA : 0 < A) (hgA : gap ≤ A) (hgap : gap ∣ A)
    (hgx : ∀ c0, gap ∣ chunkMem cfg h c0 + rew) (bytes : Nat) :
    ∃ cs', Kept cfg h cs (alignedAllocChunks cfg h A rew gap bytes).1 cs' ∧
      AllocOut cfg h cs (alignedAllocChunks cfg h A rew gap bytes).1 cs'
        (alignedAllocChunks cfg h A rew gap bytes).2 := by
  unfold alignedAllocChunks
  split_ifs with hb
  · exact ⟨cs, .of_sameLayout (.refl h) w, Or.inl ⟨rfl, rfl⟩⟩
  dsimp only
  have t := allocChunk_taken w (bytesToChunksz_le cfg h bytes (A - gap))
  generalize hszd : bytesToChunksz cfg h bytes (A - gap) = sz at t ⊢
  generalize allocChunk cfg h sz = r at t ⊢
  cases t with
  | none hl w' => exact ⟨cs, .of_sameLayout hl w', Or.inl ⟨rfl, hl.usedChunks cs⟩⟩
  | @some h1 L1 c0 hl hc hu hun hsz w' =>
    have hc0 := w.tiling.pos_of_mem hc
    simp only [if_neg (Nat.pos_iff_ne_zero.1 hc0)]
    rw [chunkMem_congr cfg hl.endChunk hl.base, memToChunkid_congr cfg hl.endChunk hl.base, hl.base]
    obtain ⟨A', B, rfl⟩ := List.append_of_mem hc
    have t := w.tiling
    obtain ⟨hA', hB⟩ := t.bounds
    have hend := t.right_le (c := c0) (by simp)
    have hpos := t.pos c0 (by simp)
    simp only [chunkSize] at hsz hend hpos
    have hmem0 : chunkMem cfg h c0 ≤ roundUp (chunkMem cfg h c0 + rew) A - rew := by
      have := le_roundUp (chunkMem cfg h c0 + rew) A hA; omega
    generalize hmem : roundUp (chunkMem cfg h c0 + rew) A - rew = mem at hmem0 ⊢
    generalize hendp : roundUp (mem + bytes) chunkUnit = endp
    generalize hcd : memToChunkid cfg h mem = c
    generalize hcE : (endp - h.base) / chunkUnit + chunkTrailerSize cfg = cEnd
    obtain ⟨b1, b2, b3⟩ := aligned_bounds hbase hA hgA hgap (hgx c0) (Nat.pos_of_ne_zero hb)
      (by omega) hmem.symm hendp.symm hcd.symm hcE.symm
    have hmin := minChunkSize_pos cfg h
    have hleft : chunkUsed h1 (leftChunk h1 c0) = true := by
      have := w.left_used (c := c0) (by simp) List.not_mem_nil hu
      simpa [hl.used, hl.leftSize] using this
    have hright : chunkUsed h1 (rightChunk h1 c0) = true := by
      have := w.right_used (c := c0) (by simp) List.not_mem_nil hu
      simpa [hl.used, hl.size] using this
    generalize he2 : (if c0 < c then freeListAdd cfg (splitChunks h1 c0 c) c0 else h1) = h2
    obtain ⟨⟨L2, w2⟩, a2, hs2, hu2, e2, eb2, ea2⟩ := trimFront w' (by simpa [hl.used] using hu) hleft b1
      (by rw [hl.size]; omega) he2.symm
    have hr2 : rightChunk h2 c = rightChunk h1 c0 := by
      simp only [rightChunk, chunkSize, hs2, hl.size]; omega
    have hright2 : chunkUsed h2 (rightChunk h2 c) = true := by
      rw [hr2, ← hright]
      refine (a2 _ fun hm => ?_).2
      simp only [rightChunk, chunkSize, hl.size, List.mem_append, List.mem_singleton] at hm
      split_ifs at hm <;> simp at hm <;> omega
    generalize he3 : (if cEnd < rightChunk h2 c then freeListAdd cfg (splitChunks h2 c cEnd) cEnd
      else h2) = h3
    obtain ⟨⟨L3, w3⟩, a3, hs3, hu3, e3, eb3, ea3⟩ := trimBack w2 (hu2 c (by simp)) hright2 (by omega)
      (by rw [hr2]; simp only [rightChunk, chunkSize, hl.size]; omega) he3.symm
    have hcs2 : c < c0 + (h.chunks c0).size := by omega
    have hr1 : rightChunk h2 c = c0 + (h.chunks c0).size := by rw [hr2]; simp [hl.size]
    refine ⟨_, claim_spec (A := A') (B := B) (M := [c0]) (P := if c0 < c then [c0] else [])
      (Q := if cEnd < rightChunk h2 c then [cEnd] else []) (by simp) (by simp)
      ((hl.agree.trans a2).trans a3) (by rw [e3, e2, hl.endChunk]) (by rw [eb3, eb2, hl.base])
      (by rw [ea3, ea2, hl.allocatedBytes]) (fun d hd hm => ?_) ?_ (by simpa using hu)
      (fun d hd => ?_) ?_ ?_ ?_ w3 hcd (by have : 0 < chunkMem cfg h c0 := chunkMem_pos c0; omega)⟩
    · have := t.outside hd
      simp only [List.nil_append, List.mem_append, List.mem_cons] at hm
      split_ifs at hm <;> simp at hm <;> omega
    · simp only [List.nil_append, List.mem_append, List.mem_cons, not_or]
      split_ifs <;> simp <;> omega
    · simp only [List.mem_append, List.mem_cons] at hd
      rcases hd with hd | hd | hd
      · have hne : d ∉ c :: (if cEnd < rightChunk h2 c then [cEnd] else []) := by
          split_ifs at hd ⊢ <;> simp at hd ⊢ <;> omega
        rw [← hu2 d (List.mem_append_left _ hd)]
        exact (a3 d hne).2
      · exact hu3 d (by simp [hd])
      · exact hu3 d (List.mem_cons_of_mem c hd)
    · simp only [List.mem_append, not_or]
      refine ⟨fun hm => ?_, by split_ifs <;> simp; omega⟩
      have := hA' c hm; omega
    · simp only [List.mem_append, not_or]
      refine ⟨by split_ifs <;> simp; omega, fun hm => ?_⟩
      have := hB c hm; omega
    · refine undersizedChunk_of_le ?_
      have em : minChunkSize cfg h3 = minChunkSize cfg h := minChunkSize_congr cfg (by rw [e3, e2, hl.endChunk])
      rw [em]
      simp only [chunkSize, hs3]; omega

-- `align & -align` isolates the lowest set bit of a nonzero `size_t`.
theorem lowestAlignBit_eq {align : Nat} (h0 : 0 < align) (hw : align < 2 ^ (8 * cfg.ptrBytes)) :
    ∃ j m, align = 2 ^ j * (2 * m + 1) ∧ lowestAlignBit cfg align = 2 ^ j := by
  obtain ⟨j, q, ⟨m, rfl⟩, rfl⟩ := Nat.exists_eq_two_pow_mul_odd h0.ne'
  refine ⟨j, m, rfl, ?_⟩
  unfold lowestAlignBit
  rw [Nat.mod_eq_of_lt (by omega)]
  exact Zephyr.Lib.and_two_pow_sub hw

theorem lowestAlignBit_zero : lowestAlignBit cfg 0 = 0 := by
  simp [lowestAlignBit]

theorem chunkHeaderBytes_pow (cfg : HeapConfig) (h : ZHeap) :
    ∃ q ≤ 3, chunkHeaderBytes cfg h = 2 ^ q := by
  rcases chunkHeaderBytes_cases cfg h with e | e
  · exact ⟨2, by decide, e⟩
  · exact ⟨3, le_rfl, e⟩

-- sys_heap_aligned_alloc, for every alignment a size_t holds: a rewind bit
-- is split off, small alignments go to sys_heap_alloc, the rest over-allocate.
theorem sysHeapAlignedAlloc_spec {cs : List Nat} {L : Nat → List Nat} (w : HeapWf cfg h cs L [])
    (hbase : h.base % chunkUnit = 0) {align : Nat} (hw : align < 2 ^ (8 * cfg.ptrBytes))
    (bytes : Nat) :
    ∃ cs', Kept cfg h cs (sysHeapAlignedAlloc cfg h align bytes).1 cs' ∧
      AllocOut cfg h cs (sysHeapAlignedAlloc cfg h align bytes).1 cs'
        (sysHeapAlignedAlloc cfg h align bytes).2 := by
  unfold sysHeapAlignedAlloc
  dsimp only
  rcases Nat.eq_zero_or_pos align with rfl | hpos
  · rw [lowestAlignBit_zero, if_neg (not_not.2 rfl), if_pos (Nat.zero_le _)]
    exact sysHeapAlloc_spec w bytes
  obtain ⟨j, m, rfl, hrew⟩ := lowestAlignBit_eq hpos hw
  rw [hrew]
  obtain ⟨q, hq, hhdr⟩ := chunkHeaderBytes_pow cfg h
  have h8 : chunkHeaderBytes cfg h ∣ 8 := hhdr ▸ Nat.pow_dvd_pow 2 hq
  have hmem : ∀ c0, chunkMem cfg h c0 = h.base + c0 * 8 + chunkHeaderBytes cfg h := fun _ => rfl
  have hb8 : 8 ∣ h.base := Nat.dvd_of_mod_eq_zero hbase
  split_ifs with hne hle
  · -- a rewind bit below the alignment
    have hm : 0 < m := Nat.pos_of_ne_zero fun e => hne (by simp [e])
    have hA : 2 ^ j * (2 * m + 1) - 2 ^ j = 2 ^ j * (2 * m) := by
      rw [Nat.mul_add, Nat.mul_one, Nat.add_sub_cancel]
    obtain ⟨g1, g2⟩ := Zephyr.Lib.min_two_pow_dvd j q
    rw [← hhdr] at g1 g2
    have hgj : min (2 ^ j) (chunkHeaderBytes cfg h) ≤ 2 ^ j := min_le_left _ _
    have hj : 2 ^ j ≤ 2 ^ j * (2 * m) := Nat.le_mul_of_pos_right _ (by omega)
    refine alignedAllocChunks_spec w hbase (by rw [hA]; positivity) (by omega)
      (by rw [hA]; exact g1.trans (Dvd.intro _ rfl)) (fun c0 => ?_) bytes
    rw [hmem]
    exact Nat.dvd_add (Nat.dvd_add (Nat.dvd_add ((g2.trans h8).trans hb8)
      (Dvd.dvd.mul_left ((g2.trans h8)) c0)) g2) g1
  · exact sysHeapAlloc_spec w bytes
  · -- a plain alignment above the header size
    have hm : m = 0 := by
      by_contra hm0
      exact hne fun e => by
        have := Nat.le_mul_of_pos_right (2 ^ j) (show 0 < 2 * m + 1 by omega)
        have h2 : 2 ^ j * (2 * m + 1) = 2 ^ j * 1 := by rw [Nat.mul_one]; exact e
        have := Nat.eq_of_mul_eq_mul_left (Nat.two_pow_pos j) h2
        omega
    subst hm
    simp only [Nat.mul_zero, Nat.zero_add, Nat.mul_one] at hle ⊢
    have hqj : q < j := by
      by_contra hjq
      exact hle (hhdr ▸ Nat.pow_le_pow_right (by decide) (by omega))
    refine alignedAllocChunks_spec w hbase (Nat.two_pow_pos j) (by omega)
      (hhdr ▸ Nat.pow_dvd_pow 2 hqj.le) (fun c0 => ?_) bytes
    rw [hmem, Nat.add_zero]
    exact Nat.dvd_add (Nat.dvd_add (h8.trans hb8) (Dvd.dvd.mul_left h8 c0)) dvd_rfl

def bigOnly32 : HeapConfig :=
  { smallOnly := false, bigOnly := true, ptrBytes := 4, canaries := false,
    canariesRandom := false, runtimeStats := false, allocLoops := 3 }

def bigOnlyHeap : ZHeap := sysHeapInit bigOnly32 4104 64 (fun _ => default) (fun _ => 0)

set_option maxRecDepth 20000 in
theorem aligned_alloc_usable_region_past_end :
    (sysHeapAlignedAlloc bigOnly32 bigOnlyHeap 20 4).2 = 4156 ∧
    sysHeapUsableSize bigOnly32 (sysHeapAlignedAlloc bigOnly32 bigOnlyHeap 20 4).1 4156 = 8 ∧
    (sysHeapAlignedAlloc bigOnly32 bigOnlyHeap 20 4).1.base +
      (sysHeapAlignedAlloc bigOnly32 bigOnlyHeap 20 4).1.endChunk * chunkUnit = 4160 ∧
    (sysHeapAlignedAlloc bigOnly32 bigOnlyHeap 20 4).1.base +
      (sysHeapAlignedAlloc bigOnly32 bigOnlyHeap 20 4).1.endChunk * chunkUnit < 4156 + 8 := by
  decide

end Zephyr.Heap
