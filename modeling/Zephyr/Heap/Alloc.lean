import Zephyr.Heap.Stats
import Zephyr.Heap.Init

namespace Zephyr.Heap

open Zephyr.Lib

-- What alloc_chunk leaves behind. The layout is untouched; either nothing
-- was taken, or the free chunk `c` of at least `sz` units is off its list
-- and exempt until the caller uses it.
inductive Taken (cfg : HeapConfig) (h : ZHeap) (cs : List Nat) (sz : Nat) : ZHeap × Nat → Prop
  | none {h' : ZHeap} {L' : Nat → List Nat} (hl : SameLayout h h') (w : HeapWf cfg h' cs L' []) :
      Taken cfg h cs sz (h', 0)
  | some {h' : ZHeap} {L' : Nat → List Nat} {c : Nat} (hl : SameLayout h h') (hc : c ∈ cs)
      (hu : chunkUsed h c = false) (hun : undersizedChunk cfg h c = false)
      (hsz : sz ≤ chunkSize h c) (w : HeapWf cfg h' cs L' [c]) : Taken cfg h cs sz (h', c)

variable {cfg : HeapConfig} {h : ZHeap} {cs : List Nat} {L : Nat → List Nat}

theorem Taken.lift {h₀ : ZHeap} {sz : Nat} {r : ZHeap × Nat} (hl : SameLayout h₀ h)
    (t : Taken cfg h cs sz r) : Taken cfg h₀ cs sz r := by
  cases t with
  | none hl' w => exact .none (hl.trans hl') w
  | some hl' hc hu hun hsz w =>
    refine .some (hl.trans hl') hc (by simpa [hl.used] using hu) ?_ (by simpa [hl.size] using hsz) w
    rw [← undersizedChunk_congr cfg hl.endChunk (hl.size _)]; exact hun

theorem freeListRemoveBidx_eq {c b : Nat} (hun : undersizedChunk cfg h c = false)
    (hb : bucketIdx cfg h (chunkSize h c) = b) :
    freeListRemoveBidx cfg h c b = freeListRemove cfg h c := by
  simp only [freeListRemove, hun, Bool.not_false, if_true, hb]

theorem head_of_cons (w : HeapWf cfg h cs L []) {b x : Nat} {xs : List Nat} (hL : L b = x :: xs) :
    h.buckets b = x := by
  rw [w.buckets.head b (w.buckets.lt_numBuckets (c := x) (by simp [hL])), hL]; rfl

-- Taking the head of a bucket whose list is `x :: xs`.
theorem HeapWf.take (w : HeapWf cfg h cs L []) {b x sz : Nat} {xs : List Nat} (hL : L b = x :: xs)
    (hsz : sz ≤ chunkSize h x) : Taken cfg h cs sz (freeListRemoveBidx cfg h x b, x) := by
  obtain ⟨hc, hu, hun, hb⟩ := w.buckets.mem b x (by simp [hL])
  rw [freeListRemoveBidx_eq hun hb]
  obtain ⟨L', w'⟩ := w.remove hc List.not_mem_nil hu
  exact .some (freeListRemove_sameLayout cfg h x) hc hu hun hsz w'

-- The bounded scan of one bucket: each miss moves the head one step round.
theorem allocChunkLoop_taken {bi sz first : Nat} (n : Nat) (w : HeapWf cfg h cs L [])
    (hne : L bi ≠ []) : Taken cfg h cs sz (allocChunkLoop cfg bi sz first n h) := by
  induction n generalizing h L with
  | zero => exact .none (.refl h) w
  | succ i ih =>
    obtain ⟨x, xs, hL⟩ := List.exists_cons_of_ne_nil hne
    have hrot : SameLayout h { h with buckets := Function.update h.buckets bi (nextFreeChunk h x) } :=
      ⟨rfl, rfl, fun _ => rfl, fun _ => rfl, fun _ => rfl, rfl⟩
    unfold allocChunkLoop
    simp only [head_of_cons w hL]
    split_ifs with hsz
    · exact w.take hL hsz
    · exact .none hrot (w.rotate hL)
    · exact (ih (w.rotate hL) (by simp)).lift hrot

-- The fallback: the lowest non-empty bucket above `bi` holds only chunks
-- larger than any size of bucket `bi`.
theorem take_above (w : HeapWf cfg h cs L []) {sz : Nat} (hsz : sz ≤ h.endChunk)
    (hm : h.availBuckets &&& ~~~bitMask (bucketIdx cfg h sz + 1) ≠ 0) :
    Taken cfg h cs sz (freeListRemoveBidx cfg h
      (h.buckets (h.availBuckets &&& ~~~bitMask (bucketIdx cfg h sz + 1)).ctz.toNat)
      (h.availBuckets &&& ~~~bitMask (bucketIdx cfg h sz + 1)).ctz.toNat,
      h.buckets (h.availBuckets &&& ~~~bitMask (bucketIdx cfg h sz + 1)).ctz.toNat) := by
  have hbit := BitVec.getLsbD_true_ctz_of_ne_zero hm
  have hm32 := BitVec.lt_of_getLsbD hbit
  generalize (h.availBuckets &&& ~~~bitMask (bucketIdx cfg h sz + 1)).ctz.toNat = m at hbit hm32 ⊢
  rw [BitVec.getLsbD_and, BitVec.getLsbD_not, Bool.and_eq_true, Bool.and_eq_true] at hbit
  obtain ⟨ha, -, hmask⟩ := hbit
  have hne : L m ≠ [] := by simpa [w.buckets.avail m] using ha
  obtain ⟨x, xs, hL⟩ := List.exists_cons_of_ne_nil hne
  have hbi : bucketIdx cfg h sz + 1 ≤ 32 := by
    have := w.buckets.bound
    have := bucketIdx_mono cfg h hsz
    simp only [numBuckets] at *
    omega
  rw [getLsbD_bitMask hbi] at hmask
  have hgt : bucketIdx cfg h sz < m := by simpa using hmask
  have hx := (w.buckets.mem m x (by simp [hL])).2.2.2
  rw [head_of_cons w hL]
  refine w.take hL (Nat.le_of_not_lt fun hlt => ?_)
  have := bucketIdx_mono cfg h (Nat.le_of_lt hlt)
  omega

-- The scan of bucket bucket_idx(sz), before the fallback to larger buckets.
theorem allocChunkScan_taken (w : HeapWf cfg h cs L []) {sz : Nat} (hsz : sz ≤ h.endChunk) :
    Taken cfg h cs sz (if h.buckets (bucketIdx cfg h sz) ≠ 0 then
      allocChunkLoop cfg (bucketIdx cfg h sz) sz (h.buckets (bucketIdx cfg h sz)) (allocLoopCount cfg) h
      else (h, 0)) := by
  split_ifs with hne
  · refine allocChunkLoop_taken _ w fun hL => hne ?_
    rw [w.buckets.head _ (Nat.lt_succ_of_le (bucketIdx_mono cfg h hsz)), hL]; rfl
  · exact .none (.refl h) w

theorem allocChunk_taken (w : HeapWf cfg h cs L []) {sz : Nat} (hsz : sz ≤ h.endChunk) :
    Taken cfg h cs sz (allocChunk cfg h sz) := by
  have h1 := allocChunkScan_taken w hsz
  unfold allocChunk
  dsimp only
  generalize (if h.buckets (bucketIdx cfg h sz) ≠ 0 then
      allocChunkLoop cfg (bucketIdx cfg h sz) sz (h.buckets (bucketIdx cfg h sz)) (allocLoopCount cfg) h
      else (h, 0)) = r at h1 ⊢
  cases h1 with
  | some hl hc hu hun hsz' w' =>
    rw [if_pos (Nat.pos_iff_ne_zero.1 (w.tiling.pos_of_mem hc))]
    exact .some hl hc hu hun hsz' w'
  | none hl w' =>
    rw [if_neg (not_not.2 rfl), ← bucketIdx_congr cfg hl.endChunk]
    split_ifs with hm
    · exact (take_above w' (hl.endChunk ▸ hsz) hm).lift hl
    · exact .none hl w'

-- A bucket whose bit is set in avail_buckets has a head chunk.
theorem HeapWf.bucket_ne_zero {P : List Nat} (w : HeapWf cfg h cs L P) {b : Nat}
    (hb : h.availBuckets.getLsbD b = true) : h.buckets b ≠ 0 := by
  have hne : L b ≠ [] := by simpa [w.buckets.avail b] using hb
  obtain ⟨x, xs, hL⟩ := List.exists_cons_of_ne_nil hne
  have hx := (w.buckets.mem b x (by simp [hL])).1
  rw [w.buckets.head b (w.buckets.lt_numBuckets (c := x) (by simp [hL])), hL]
  exact (w.tiling.pos_of_mem hx).ne'

-- The fallback of alloc_chunk: once the scan of bucket_idx(sz) has given up,
-- any non-empty bucket above it is still listed in avail_buckets, so the
-- masked bitmap is nonzero and its lowest bucket has a head.
theorem allocChunk_ne_zero (w : HeapWf cfg h cs L []) {sz b : Nat} (hsz : sz ≤ h.endChunk)
    (hb : bucketIdx cfg h sz < b) (hbn : b < numBuckets cfg h) (hne : h.buckets b ≠ 0) :
    (allocChunk cfg h sz).2 ≠ 0 := by
  have hLb : L b ≠ [] := fun hL => hne (by rw [w.buckets.head b hbn, hL]; rfl)
  obtain ⟨x, xs, hL⟩ := List.exists_cons_of_ne_nil hLb
  obtain ⟨hx, hxu, hxs, hxb⟩ := w.buckets.mem b x (by simp [hL])
  have t := allocChunkScan_taken w hsz
  unfold allocChunk
  dsimp only
  generalize (if h.buckets (bucketIdx cfg h sz) ≠ 0 then
      allocChunkLoop cfg (bucketIdx cfg h sz) sz (h.buckets (bucketIdx cfg h sz)) (allocLoopCount cfg) h
      else (h, 0)) = r at t ⊢
  cases t with
  | some hl hc hu hun hsz' w' =>
    rw [if_pos (w.tiling.pos_of_mem hc).ne']
    exact (w.tiling.pos_of_mem hc).ne'
  | @none h' L' hl w' =>
    rw [if_neg (not_not.2 rfl)]
    dsimp only
    -- `x` is still free and listed in bucket `b` of the scanned heap
    have hx' : x ∈ L' b := by
      have := w'.listed x hx List.not_mem_nil (by rwa [chunkUsed, hl.used])
        (by rwa [undersizedChunk_congr cfg hl.endChunk (hl.size x)])
      rwa [chunkSize, hl.size, bucketIdx_congr cfg hl.endChunk, ← chunkSize, hxb] at this
    have hbi : bucketIdx cfg h sz + 1 ≤ 32 := by
      have := w.buckets.bound
      omega
    have hb32 : b < 32 := Nat.lt_of_lt_of_le hbn w.buckets.bound
    have hbit : (h'.availBuckets &&& ~~~bitMask (bucketIdx cfg h sz + 1)).getLsbD b = true := by
      rw [BitVec.getLsbD_and, BitVec.getLsbD_not, getLsbD_bitMask hbi, w'.buckets.avail b]
      simp [List.ne_nil_of_mem hx', hb32]
      omega
    have hm : h'.availBuckets &&& ~~~bitMask (bucketIdx cfg h sz + 1) ≠ 0 := fun h0 => by
      simp [h0] at hbit
    rw [if_pos hm]
    refine w'.bucket_ne_zero ?_
    have := BitVec.getLsbD_true_ctz_of_ne_zero hm
    rw [BitVec.getLsbD_and, Bool.and_eq_true] at this
    exact this.1

theorem alloc_chunk_fits (w : HeapWf cfg h cs L []) {sz : Nat} (hsz : sz ≤ h.endChunk) :
    let r := allocChunk cfg h sz
    (r.2 ≠ 0 → r.2 ∈ cs ∧ chunkUsed h r.2 = false ∧ sz ≤ chunkSize h r.2 ∧
      r.2 ∈ L (bucketIdx cfg h (chunkSize h r.2)) ∧ ∃ L', HeapWf cfg r.1 cs L' [r.2] ∧ ∀ b, r.2 ∉ L' b) ∧
    (∀ b, bucketIdx cfg h sz < b → b < numBuckets cfg h → h.buckets b ≠ 0 → r.2 ≠ 0) := by
  refine ⟨fun hr => ?_, fun b hb hbn hne => allocChunk_ne_zero w hsz hb hbn hne⟩
  have t := allocChunk_taken w hsz
  generalize allocChunk cfg h sz = r at t hr ⊢
  cases t with
  | none hl w' => exact absurd rfl hr
  | some hl hc hu hun hsz' w' =>
    exact ⟨hc, hu, hsz', w.listed _ hc List.not_mem_nil hu hun, _, w',
      w'.unlisted _ (List.mem_singleton_self _)⟩

-- A 32-bit target with the Kconfig defaults: no canaries, no statistics,
-- CONFIG_SYS_HEAP_ALLOC_LOOPS = 3.
def defaultConfig32 : HeapConfig :=
  { smallOnly := false, bigOnly := false, ptrBytes := 4, canaries := false,
    canariesRandom := false, runtimeStats := false, allocLoops := 3 }

-- 324 bytes at 0x1000: end_chunk 40, chunk 0 of 5 units and one free chunk
-- of 35 units in bucket 5.
def freshHeap : ZHeap := sysHeapInit defaultConfig32 4096 324 (fun _ => default) (fun _ => 0)

theorem alloc_chunk_fits_fresh :
    (allocChunk defaultConfig32 freshHeap 2).2 ≠ 0 ∧
      2 ≤ chunkSize freshHeap (allocChunk defaultConfig32 freshHeap 2).2 := by
  obtain ⟨L, w⟩ := sysHeapInit_wf (fun _ => default) (fun _ => 0)
    (show sysHeapInitOk defaultConfig32 4096 324 = true by decide)
  have fits := alloc_chunk_fits w
    (show 2 ≤ (sysHeapInit defaultConfig32 4096 324 (fun _ => default) (fun _ => 0)).endChunk by decide)
  have hne := fits.2 5 (by decide) (by decide) (by decide)
  exact ⟨hne, (fits.1 hne).2.2.1⟩

-- A request of at least one byte, when it fits the heap at all, is never
-- for an undersized chunk.
theorem minChunkSize_le_bytesToChunksz {bytes extra : Nat} (hb : 0 < bytes)
    (hlt : bytesToChunksz cfg h bytes extra < h.endChunk) :
    minChunkSize cfg h ≤ bytesToChunksz cfg h bytes extra := by
  have := chunkHeaderBytes_cases cfg h
  unfold bytesToChunksz minChunkSize chunksz at *
  simp only [chunkUnit] at *
  omega

theorem undersizedChunk_of_le {c : Nat} (hc : minChunkSize cfg h ≤ chunkSize h c) :
    undersizedChunk cfg h c = false := by
  simp only [undersizedChunk, Bool.and_eq_false_iff, decide_eq_false_iff_not, Nat.not_lt]
  exact Or.inr hc

theorem memToChunkid_chunkMem (c : Nat) : memToChunkid cfg h (chunkMem cfg h c) = c := by
  simp [memToChunkid, chunkMem, chunkUnit]

theorem bytesToChunksz_le (cfg : HeapConfig) (h : ZHeap) (bytes extra : Nat) : bytesToChunksz cfg h bytes extra ≤ h.endChunk :=
  min_le_right _ _

theorem chunkMem_pos (c : Nat) : 0 < chunkMem cfg h c := by
  have := chunkHeaderBytes_cases cfg h
  unfold chunkMem; omega

-- One call on a well-formed heap: well formed again over `cs'`, on the same
-- buffer, with chunk 0 untouched, and allocated_bytes still the sum.
structure Kept (cfg : HeapConfig) (h : ZHeap) (cs : List Nat) (h' : ZHeap) (cs' : List Nat) :
    Prop where
  wf : ∃ L', HeapWf cfg h' cs' L' []
  endChunk : h'.endChunk = h.endChunk
  base : h'.base = h.base
  size0 : (h'.chunks 0).size = (h.chunks 0).size
  allocated : h.allocatedBytes = usedBytes cfg h cs → h'.allocatedBytes = usedBytes cfg h' cs'

theorem Kept.of_sameLayout {h' : ZHeap} {L' : Nat → List Nat} (hl : SameLayout h h')
    (w : HeapWf cfg h' cs L' []) : Kept cfg h cs h' cs :=
  ⟨⟨_, w⟩, hl.endChunk, hl.base, hl.size 0, fun e => by rw [hl.allocatedBytes, hl.usedBytes, e]⟩

-- What sys_heap_alloc returns: null and no new used chunk, or the memory
-- of a chunk that was not in use and now is.
def AllocOut (cfg : HeapConfig) (h : ZHeap) (cs : List Nat) (h' : ZHeap) (cs' : List Nat) (p : Nat) :
    Prop :=
  (p = 0 ∧ usedChunks h' cs' = usedChunks h cs) ∨
  (p ≠ 0 ∧ memToChunkid cfg h p ∉ usedChunks h cs ∧
    (usedChunks h' cs').Perm (memToChunkid cfg h p :: usedChunks h cs))

-- set_chunk_used(c, true) on the chunk just taken, and the matching
-- increase_allocated_bytes.
theorem HeapWf.claim (w : HeapWf cfg h cs L [c]) (hc : c ∈ cs) (hun : undersizedChunk cfg h c = false) :
    HeapWf cfg (increaseAllocatedBytes (setChunkUsed h c true)
      (chunkUsableBytes cfg (setChunkUsed h c true) c)) cs L [] :=
  (w.setUsed hc (List.mem_singleton_self c) hun (fun _ hd hdc => absurd (List.mem_singleton.1 hd) hdc)
    fun _ hd => absurd hd List.not_mem_nil).of_chunks rfl (increaseAllocatedBytes_sameLists _ _)

theorem claim_usedChunks {A B : List Nat} {c n : Nat} (hA : c ∉ A) (hB : c ∉ B) :
    usedChunks (increaseAllocatedBytes (setChunkUsed h c true) n) (A ++ c :: B) =
      usedChunks h A ++ c :: usedChunks h B := by
  have a := (setChunkUsed_agree (h := h) c true).trans
    (agree_of_chunks rfl : Agree _ (increaseAllocatedBytes (setChunkUsed h c true) n) [])
  rw [usedChunks_append, usedChunks_cons, a.usedChunks fun d hd => by simpa using ne_of_mem_of_not_mem hd hA,
    a.usedChunks fun d hd => by simpa using ne_of_mem_of_not_mem hd hB]
  simp [increaseAllocatedBytes, setChunkUsed]

theorem claim_usedBytes {A B : List Nat} {c n : Nat} (hA : c ∉ A) (hB : c ∉ B)
    (hu : chunkUsed h c = false) :
    usedBytes cfg (increaseAllocatedBytes (setChunkUsed h c true) n) (A ++ c :: B) =
      usedBytes cfg h (A ++ c :: B) + chunkUsableBytes cfg h c := by
  have a := (setChunkUsed_agree (h := h) c true).trans
    (agree_of_chunks rfl : Agree _ (increaseAllocatedBytes (setChunkUsed h c true) n) [])
  have e : chunkUsableBytes cfg (increaseAllocatedBytes (setChunkUsed h c true) n) c =
      chunkUsableBytes cfg h c :=
    chunkUsableBytes_congr cfg (by simp) (by simp [increaseAllocatedBytes, setChunkUsed])
  have hu' : chunkUsed (increaseAllocatedBytes (setChunkUsed h c true) n) c = true := by
    simp [increaseAllocatedBytes, setChunkUsed]
  rw [usedBytes_append, usedBytes_cons, usedBytes_append, usedBytes_cons,
    a.usedBytes (by simp) fun d hd => by simpa using ne_of_mem_of_not_mem hd hA,
    a.usedBytes (by simp) fun d hd => by simpa using ne_of_mem_of_not_mem hd hB, hu', hu, e]
  simp only [if_true, Bool.false_eq_true, if_false]
  omega

-- split_chunks(lc, rc) then free_list_add(rc) on a chunk `lc` that is being
-- allocated: the right part goes back on its list.
theorem HeapWf.splitTail {A B : List Nat} {lc rc : Nat} {P : List Nat}
    (w : HeapWf cfg h (A ++ lc :: B) L P) (hP : lc ∈ P) (hrP : rc ∉ P) (hlr : lc < rc)
    (hr : rc < lc + (h.chunks lc).size)
    (hright : rightChunk h lc ∈ P ∨ chunkUsed h (rightChunk h lc) = true) :
    ∃ L', HeapWf cfg (freeListAdd cfg (splitChunks h lc rc) rc) (A ++ lc :: rc :: B) L' P := by
  have hsz := fun d => splitChunks_size h d hlr hr
  have hls := fun d => splitChunks_leftSize h d hlr hr
  have hus := fun d => splitChunks_used h d hlr hr
  have hleft : leftChunk (splitChunks h lc rc) rc = lc := by
    simp only [leftChunk, hls, if_true]; omega
  have hrc : rightChunk (splitChunks h lc rc) rc = rightChunk h lc := by
    simp only [rightChunk, chunkSize, hsz, if_neg (show rc ≠ lc by omega), if_true]; omega
  have hne1 : rightChunk h lc ≠ lc := by simp only [rightChunk, chunkSize]; omega
  have hne2 : rightChunk h lc ≠ rc := by simp only [rightChunk, chunkSize]; omega
  have hu : chunkUsed (splitChunks h lc rc) (rightChunk h lc) = chunkUsed h (rightChunk h lc) := by
    simp only [chunkUsed, hus, if_neg (not_or.2 ⟨hne1, hne2⟩)]
  refine (w.split hP hlr hr).add hrP (by simp) (by simp [hus]) (Or.inl (by rw [hleft]; exact hP)) ?_
  rw [hrc, hu]
  exact hright

-- The end of an allocation. The free segment `M` has been relaid as
-- `P ++ c :: Q`, all free and `c` still exempt; marking `c` used and
-- counting its bytes gives a well-formed heap with `c` as its new used chunk.
theorem claim_spec {h2 : ZHeap} {L2 : Nat → List Nat} {T A B M P Q cs2 : List Nat} {c mem : Nat}
    (hcs : cs = A ++ M ++ B) (hcs2 : cs2 = A ++ P ++ c :: Q ++ B) (a : Agree h h2 T) (e : h2.endChunk = h.endChunk) (eb : h2.base = h.base)
    (ea : h2.allocatedBytes = h.allocatedBytes) (hT : ∀ d ∈ A ++ B, d ∉ T) (h0 : 0 ∉ T)
    (hM0 : ∀ d ∈ M, chunkUsed h d = false) (hM : ∀ d ∈ P ++ c :: Q, chunkUsed h2 d = false)
    (hcA : c ∉ A ++ P) (hcB : c ∉ Q ++ B) (hun : undersizedChunk cfg h2 c = false)
    (w2 : HeapWf cfg h2 cs2 L2 [c]) (hmem : memToChunkid cfg h mem = c) (hmem0 : mem ≠ 0) :
    Kept cfg h cs (increaseAllocatedBytes (setChunkUsed h2 c true)
        (chunkUsableBytes cfg (setChunkUsed h2 c true) c)) cs2 ∧
      AllocOut cfg h cs (increaseAllocatedBytes (setChunkUsed h2 c true)
        (chunkUsableBytes cfg (setChunkUsed h2 c true) c)) cs2 mem := by
  subst hcs hcs2
  have ecs : A ++ P ++ c :: Q ++ B = (A ++ P) ++ c :: (Q ++ B) := by simp
  have hc2 : chunkUsed h2 c = false := hM c (by simp)
  have hc0 : 0 ∉ T ++ [c] ++ [] := by
    have := w2.tiling.pos_of_mem (c := c) (by simp)
    simp only [List.append_nil, List.mem_append, List.mem_singleton, not_or]
    exact ⟨h0, by omega⟩
  have a' := (a.trans (setChunkUsed_agree c true)).trans
    (agree_of_chunks rfl : Agree _ (increaseAllocatedBytes (setChunkUsed h2 c true)
      (chunkUsableBytes cfg (setChunkUsed h2 c true) c)) [])
  have eu : chunkUsableBytes cfg (setChunkUsed h2 c true) c = chunkUsableBytes cfg h2 c :=
    chunkUsableBytes_congr cfg (by simp) (by simp [setChunkUsed])
  have hframe : usedBytes cfg h2 (A ++ (P ++ c :: Q) ++ B) = usedBytes cfg h (A ++ M ++ B) :=
    usedBytes_free_frame a e hT hM0 hM
  have hchunks : usedChunks h2 (A ++ (P ++ c :: Q) ++ B) = usedChunks h (A ++ M ++ B) :=
    usedChunks_free_frame a hT hM0 hM
  refine ⟨⟨⟨L2, w2.claim (by simp) hun⟩, by simp [e], by simp [eb], (a' 0 hc0).1, fun hal => ?_⟩, ?_⟩
  · rw [ecs, claim_usedBytes hcA hcB hc2, ← ecs, eu]
    simp only [List.append_assoc, List.cons_append] at hframe ⊢
    simp only [increaseAllocatedBytes, setChunkUsed_allocatedBytes, ea, hal, hframe, List.append_assoc]
  · refine Or.inr ⟨hmem0, ?_, ?_⟩
    · rw [hmem, mem_usedChunks]
      rintro ⟨hm, hu⟩
      simp only [List.mem_append, not_or] at hm hcA hcB
      rcases hm with (hm | hm) | hm
      · exact hcA.1 hm
      · exact Bool.false_ne_true ((hM0 c hm).symm.trans hu)
      · exact hcB.2 hm
    · have e1 : usedChunks h2 P = [] := usedChunks_eq_nil fun d hd => hM d (by simp [hd])
      have e2 : usedChunks h2 Q = [] := usedChunks_eq_nil fun d hd => hM d (by simp [hd])
      have hc2' : (h2.chunks c).used = false := hc2
      rw [hmem, ecs, claim_usedChunks hcA hcB, ← hchunks]
      simp only [usedChunks_append, usedChunks_cons, chunkUsed, hc2', e1, e2, List.append_nil,
        List.nil_append, Bool.false_eq_true, if_false]
      exact List.perm_middle

-- sys_heap_alloc: a chunk of the bucket for `bytes` (or a larger one) is
-- taken, its tail split off and freed, and the rest marked used.
theorem sysHeapAlloc_spec (w : HeapWf cfg h cs L []) (bytes : Nat) :
    ∃ cs', Kept cfg h cs (sysHeapAlloc cfg h bytes).1 cs' ∧
      AllocOut cfg h cs (sysHeapAlloc cfg h bytes).1 cs' (sysHeapAlloc cfg h bytes).2 := by
  unfold sysHeapAlloc
  split_ifs with hb
  · exact ⟨cs, .of_sameLayout (.refl h) w, Or.inl ⟨rfl, rfl⟩⟩
  dsimp only
  have t := allocChunk_taken w (bytesToChunksz_le cfg h bytes 0)
  have hmin : bytesToChunksz cfg h bytes 0 < h.endChunk → minChunkSize cfg h ≤ bytesToChunksz cfg h bytes 0 :=
    minChunkSize_le_bytesToChunksz (Nat.pos_of_ne_zero hb)
  generalize bytesToChunksz cfg h bytes 0 = sz at t hmin ⊢
  generalize allocChunk cfg h sz = r at t ⊢
  cases t with
  | none hl w' => exact ⟨cs, .of_sameLayout hl w', Or.inl ⟨rfl, hl.usedChunks cs⟩⟩
  | @some h1 L1 c hl hc hu hun hsz w' =>
    have hc0 := w.tiling.pos_of_mem hc
    simp only [if_neg (Nat.pos_iff_ne_zero.1 hc0)]
    obtain ⟨A, B, rfl⟩ := List.append_of_mem hc
    have t := w.tiling
    obtain ⟨hA, hB⟩ := t.bounds
    have hend := t.right_le (c := c) (by simp)
    have hpos := t.pos c (by simp)
    simp only [chunkSize] at hsz hend hpos
    have hmin' := hmin (by omega)
    have hright : chunkUsed h1 (rightChunk h1 c) = true := by
      have := w.right_used (c := c) (by simp) List.not_mem_nil hu
      simpa [hl.size, hl.used] using this
    have hcA : c ∉ A := fun hm => by have := hA c hm; omega
    have hcB : c ∉ B := fun hm => by have := hB c hm; omega
    have hmem : ∀ h2 : ZHeap, h2.endChunk = h.endChunk → h2.base = h.base →
        memToChunkid cfg h (chunkMem cfg (setChunkUsed h2 c true) c) = c := fun h2 e eb => by
      have ec : chunkMem cfg (setChunkUsed h2 c true) c = chunkMem cfg h c :=
        chunkMem_congr cfg (by simp [e]) (by simp [eb]) c
      rw [ec, memToChunkid_chunkMem]
    simp only [chunkSize, hl.size]
    split_ifs with hs
    · -- the tail beyond `sz` units is split off and freed
      have hlr : c < c + sz := by have := minChunkSize_pos cfg h; omega
      obtain ⟨L2, w2⟩ := w'.splitTail (List.mem_singleton_self c) (by simp; omega) hlr
        (by rw [hl.size]; omega) (Or.inr hright)
      have a := (hl.agree.trans (splitChunks_agree hlr (by rw [hl.size]; omega))).trans
        (freeListAdd_sameLayout cfg _ (c + sz)).agree
      have hus := fun d => splitChunks_used h1 d hlr (by rw [hl.size]; omega)
      have hsz2 := splitChunks_size h1 c hlr (by rw [hl.size]; omega)
      refine ⟨_, claim_spec (A := A) (B := B) (M := [c]) (P := []) (Q := [c + sz]) (by simp) (by simp) a
        (by simp [hl.endChunk]) (by simp [hl.base]) (by simp [hl.allocatedBytes]) (fun d hd => ?_)
        (by simp; omega) (by simpa using hu) (fun d hd => ?_) (by simpa using hcA) (by simp [hcB]; omega)
        ?_ w2 (hmem _ (by simp [hl.endChunk]) (by simp [hl.base])) (chunkMem_pos c).ne'⟩
      · rcases t.outside hd with h1 | h1 <;> simp <;> omega
      · simp only [List.nil_append, List.mem_cons, List.not_mem_nil, or_false] at hd
        simp only [chunkUsed, (freeListAdd_sameLayout cfg _ (c + sz)).used, hus]
        simp [hd]
      · refine undersizedChunk_of_le ?_
        have em : minChunkSize cfg (freeListAdd cfg (splitChunks h1 c (c + sz)) (c + sz)) = minChunkSize cfg h :=
          minChunkSize_congr cfg (by simp [hl.endChunk])
        rw [em]
        simp only [chunkSize, (freeListAdd_sameLayout cfg _ (c + sz)).size, hsz2, if_true]
        omega
    · -- the whole chunk is used
      refine ⟨_, claim_spec (A := A) (B := B) (M := [c]) (P := []) (Q := []) (by simp) (by simp)
        (T := []) hl.agree hl.endChunk hl.base hl.allocatedBytes (fun _ _ => List.not_mem_nil)
        List.not_mem_nil (by simpa using hu) (by simpa [hl.used] using hu) (by simpa using hcA)
        (by simpa using hcB) ?_ w' (hmem _ hl.endChunk hl.base) (chunkMem_pos c).ne'⟩
      rw [undersizedChunk_congr cfg hl.endChunk (hl.size c)]; exact hun

end Zephyr.Heap
