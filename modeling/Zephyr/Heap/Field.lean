import Zephyr.Heap.Ops

namespace Zephyr.Heap

section Congr

variable (cfg : HeapConfig) {h h' : ZHeap}

theorem chunkHeaderBytes_congr (e : h'.endChunk = h.endChunk) :
    chunkHeaderBytes cfg h' = chunkHeaderBytes cfg h := by
  unfold chunkHeaderBytes bigHeap
  rw [e]

theorem minChunkSize_congr (e : h'.endChunk = h.endChunk) : minChunkSize cfg h' = minChunkSize cfg h := by
  simp [minChunkSize, chunkHeaderBytes_congr cfg e]

theorem bucketIdx_congr (e : h'.endChunk = h.endChunk) (sz : Nat) :
    bucketIdx cfg h' sz = bucketIdx cfg h sz := by
  simp [bucketIdx, minChunkSize_congr cfg e]

theorem undersizedChunk_congr (e : h'.endChunk = h.endChunk) {c c' : Nat}
    (hs : (h'.chunks c').size = (h.chunks c).size) :
    undersizedChunk cfg h' c' = undersizedChunk cfg h c := by
  unfold undersizedChunk bigHeap chunkSize
  rw [minChunkSize_congr cfg e, e, hs]

theorem chunkUsableBytes_congr (e : h'.endChunk = h.endChunk) {c c' : Nat}
    (hs : (h'.chunks c').size = (h.chunks c).size) :
    chunkUsableBytes cfg h' c' = chunkUsableBytes cfg h c := by
  simp [chunkUsableBytes, chunkHeaderBytes_congr cfg e, hs]

theorem chunkMem_congr (e : h'.endChunk = h.endChunk) (eb : h'.base = h.base) (c : Nat) :
    chunkMem cfg h' c = chunkMem cfg h c := by
  simp [chunkMem, chunkHeaderBytes_congr cfg e, eb]

theorem memToChunkid_congr (e : h'.endChunk = h.endChunk) (eb : h'.base = h.base) (p : Nat) :
    memToChunkid cfg h' p = memToChunkid cfg h p := by
  simp [memToChunkid, chunkHeaderBytes_congr cfg e, eb]

end Congr

theorem log2_mono {m n : Nat} (h : m ≤ n) : m.log2 ≤ n.log2 := by
  rcases Nat.eq_zero_or_pos m with rfl | hm
  · simp [Nat.log2]
  · exact (Nat.le_log2 (by omega)).2 (le_trans (Nat.log2_self_le (by omega)) h)

theorem bucketIdx_mono (cfg : HeapConfig) (h : ZHeap) {m n : Nat} (hmn : m ≤ n) :
    bucketIdx cfg h m ≤ bucketIdx cfg h n :=
  log2_mono (by omega)

theorem getLsbD_bit {b i : Nat} (hb : b < 32) : (bit b).getLsbD i = decide (i = b) := by
  simp only [bit, BitVec.getLsbD_shiftLeft, BitVec.getLsbD_one]
  by_cases h : i = b <;> simp [h] <;> omega

theorem toNat_bitMask {n : Nat} (hn : n ≤ 32) : (bitMask n).toNat = 2 ^ n - 1 := by
  unfold bitMask bit
  rcases Nat.lt_or_eq_of_le hn with hn | rfl
  · have hlt : 2 ^ n < 2 ^ 32 := Nat.pow_lt_pow_right (by omega) hn
    have hge : 1 ≤ 2 ^ n := Nat.one_le_two_pow
    have e : (1#32 <<< n).toNat = 2 ^ n := by
      rw [BitVec.toNat_shiftLeft, Nat.shiftLeft_eq, BitVec.toNat_ofNat, Nat.one_mul]
      exact Nat.mod_eq_of_lt hlt
    have e1 : (1 : BitVec 32).toNat = 1 := rfl
    rw [BitVec.toNat_sub, e, e1]
    omega
  · decide

theorem getLsbD_bitMask {n i : Nat} (hn : n ≤ 32) : (bitMask n).getLsbD i = decide (i < n) := by
  rw [BitVec.getLsbD, toNat_bitMask hn, Nat.testBit_two_pow_sub_one]

-- split_chunks and merge_chunks as plain header writes, once the right
-- neighbour they look up is known.
theorem splitChunks_eq (h : ZHeap) {lc rc : Nat} (hlr : lc < rc) (hr : rc < lc + (h.chunks lc).size) :
    splitChunks h lc rc =
      setLeftChunkSize (setLeftChunkSize (setChunkSize (setChunkSize h lc (rc - lc)) rc
        (lc + (h.chunks lc).size - rc)) rc (rc - lc)) (lc + (h.chunks lc).size)
        (lc + (h.chunks lc).size - rc) := by
  have e1 : (h.chunks lc).size - (rc - lc) = lc + (h.chunks lc).size - rc := by omega
  have e2 : rc + (lc + (h.chunks lc).size - rc) = lc + (h.chunks lc).size := by omega
  simp only [splitChunks, rightChunk, chunkSize, setLeftChunkSize, setChunkSize,
    ZHeap.modChunk_size, if_true, e1, e2]

theorem mergeChunks_eq (h : ZHeap) {lc rc : Nat} (hne : rc ≠ lc) :
    mergeChunks h lc rc =
      setLeftChunkSize (setChunkSize h lc ((h.chunks lc).size + (h.chunks rc).size))
        (rc + (h.chunks rc).size) ((h.chunks lc).size + (h.chunks rc).size) := by
  simp only [mergeChunks, rightChunk, chunkSize, setChunkSize, ZHeap.modChunk_size, if_neg hne]

section SplitMerge

variable (h : ZHeap) {lc rc : Nat} (d : Nat)

theorem splitChunks_size (hlr : lc < rc) (hr : rc < lc + (h.chunks lc).size) :
    ((splitChunks h lc rc).chunks d).size =
      if d = lc then rc - lc else if d = rc then lc + (h.chunks lc).size - rc
      else (h.chunks d).size := by
  have hne : rc ≠ lc := by omega
  rw [splitChunks_eq h hlr hr]
  by_cases hd : d = rc
  · subst hd; simp [setChunkSize, setLeftChunkSize, hne]
  · simp [setChunkSize, setLeftChunkSize, hd]

theorem splitChunks_used (hlr : lc < rc) (hr : rc < lc + (h.chunks lc).size) :
    ((splitChunks h lc rc).chunks d).used =
      if d = lc ∨ d = rc then false else (h.chunks d).used := by
  rw [splitChunks_eq h hlr hr]
  by_cases hd : d = rc
  · subst hd; simp [setChunkSize, setLeftChunkSize]
  · by_cases hd' : d = lc <;> simp [setChunkSize, setLeftChunkSize, hd, hd']

theorem splitChunks_leftSize (hlr : lc < rc) (hr : rc < lc + (h.chunks lc).size) :
    ((splitChunks h lc rc).chunks d).leftSize =
      if d = rc then rc - lc else if d = lc + (h.chunks lc).size then lc + (h.chunks lc).size - rc
      else (h.chunks d).leftSize := by
  have hne : lc + (h.chunks lc).size ≠ rc := by omega
  rw [splitChunks_eq h hlr hr]
  by_cases hd : d = lc + (h.chunks lc).size
  · subst hd; simp [setChunkSize, setLeftChunkSize, hne]
  · by_cases hd' : d = rc
    · subst hd'; simp [setChunkSize, setLeftChunkSize, hne.symm]
    · simp [setChunkSize, setLeftChunkSize, hd, hd']

theorem mergeChunks_size (hne : rc ≠ lc) :
    ((mergeChunks h lc rc).chunks d).size =
      if d = lc then (h.chunks lc).size + (h.chunks rc).size else (h.chunks d).size := by
  rw [mergeChunks_eq h hne]
  by_cases hd : d = lc <;> simp [setChunkSize, setLeftChunkSize, hd]

theorem mergeChunks_used (hne : rc ≠ lc) :
    ((mergeChunks h lc rc).chunks d).used = if d = lc then false else (h.chunks d).used := by
  rw [mergeChunks_eq h hne]
  by_cases hd : d = lc <;> simp [setChunkSize, setLeftChunkSize, hd]

theorem mergeChunks_leftSize (hne : rc ≠ lc) :
    ((mergeChunks h lc rc).chunks d).leftSize =
      if d = rc + (h.chunks rc).size then (h.chunks lc).size + (h.chunks rc).size
      else (h.chunks d).leftSize := by
  rw [mergeChunks_eq h hne]
  by_cases hd : d = rc + (h.chunks rc).size <;> simp [setChunkSize, setLeftChunkSize, hd]

end SplitMerge

-- The two halves of a heap: the chunk layout, and the free lists with
-- their statistics.
structure SameLayout (h h' : ZHeap) : Prop where
  endChunk : h'.endChunk = h.endChunk
  base : h'.base = h.base
  size : ∀ c, (h'.chunks c).size = (h.chunks c).size
  used : ∀ c, (h'.chunks c).used = (h.chunks c).used
  leftSize : ∀ c, (h'.chunks c).leftSize = (h.chunks c).leftSize
  allocatedBytes : h'.allocatedBytes = h.allocatedBytes

structure SameLists (h h' : ZHeap) : Prop where
  endChunk : h'.endChunk = h.endChunk
  base : h'.base = h.base
  buckets : h'.buckets = h.buckets
  availBuckets : h'.availBuckets = h.availBuckets
  freeBytes : h'.freeBytes = h.freeBytes
  prev : ∀ c, (h'.chunks c).freePrev = (h.chunks c).freePrev
  next : ∀ c, (h'.chunks c).freeNext = (h.chunks c).freeNext

theorem SameLayout.refl (h : ZHeap) : SameLayout h h :=
  ⟨rfl, rfl, fun _ => rfl, fun _ => rfl, fun _ => rfl, rfl⟩

theorem SameLayout.trans {h₁ h₂ h₃ : ZHeap} (a : SameLayout h₁ h₂) (b : SameLayout h₂ h₃) :
    SameLayout h₁ h₃ :=
  ⟨b.endChunk.trans a.endChunk, b.base.trans a.base, fun c => (b.size c).trans (a.size c),
    fun c => (b.used c).trans (a.used c), fun c => (b.leftSize c).trans (a.leftSize c),
    b.allocatedBytes.trans a.allocatedBytes⟩

theorem SameLists.trans {h₁ h₂ h₃ : ZHeap} (a : SameLists h₁ h₂) (b : SameLists h₂ h₃) :
    SameLists h₁ h₃ :=
  ⟨b.endChunk.trans a.endChunk, b.base.trans a.base, b.buckets.trans a.buckets,
    b.availBuckets.trans a.availBuckets, b.freeBytes.trans a.freeBytes,
    fun c => (b.prev c).trans (a.prev c), fun c => (b.next c).trans (a.next c)⟩

section Frames

variable (cfg : HeapConfig) (h : ZHeap)

theorem setPrevFreeChunk_sameLayout (c p : Nat) : SameLayout h (setPrevFreeChunk h c p) :=
  ⟨rfl, rfl, fun d => by simp [setPrevFreeChunk], fun d => by simp [setPrevFreeChunk],
    fun d => by simp [setPrevFreeChunk], rfl⟩

theorem setNextFreeChunk_sameLayout (c n : Nat) : SameLayout h (setNextFreeChunk h c n) :=
  ⟨rfl, rfl, fun d => by simp [setNextFreeChunk], fun d => by simp [setNextFreeChunk],
    fun d => by simp [setNextFreeChunk], rfl⟩

theorem freeListRemoveBidx_sameLayout (c b : Nat) : SameLayout h (freeListRemoveBidx cfg h c b) := by
  unfold freeListRemoveBidx
  split <;>
    exact ⟨rfl, rfl, fun d => by simp [setPrevFreeChunk, setNextFreeChunk],
      fun d => by simp [setPrevFreeChunk, setNextFreeChunk],
      fun d => by simp [setPrevFreeChunk, setNextFreeChunk], rfl⟩

theorem freeListAddBidx_sameLayout (c b : Nat) : SameLayout h (freeListAddBidx cfg h c b) := by
  unfold freeListAddBidx
  split <;>
    exact ⟨rfl, rfl, fun d => by simp [setPrevFreeChunk, setNextFreeChunk],
      fun d => by simp [setPrevFreeChunk, setNextFreeChunk],
      fun d => by simp [setPrevFreeChunk, setNextFreeChunk], rfl⟩

theorem freeListRemoveBidx_freeBytes (c b : Nat) :
    (freeListRemoveBidx cfg h c b).freeBytes = h.freeBytes - chunkUsableBytes cfg h c := by
  unfold freeListRemoveBidx
  split
  · rfl
  · simp only [setPrevFreeChunk, setNextFreeChunk, ZHeap.modChunk_freeBytes]
    congr 1
    exact chunkUsableBytes_congr cfg (by simp) (by simp)

theorem freeListAddBidx_freeBytes (c b : Nat) :
    (freeListAddBidx cfg h c b).freeBytes = h.freeBytes + chunkUsableBytes cfg h c := by
  unfold freeListAddBidx
  split
  · simp only [setPrevFreeChunk, setNextFreeChunk, ZHeap.modChunk_freeBytes]
    congr 1
    exact chunkUsableBytes_congr cfg (by simp) (by simp)
  · simp only [setPrevFreeChunk, setNextFreeChunk, ZHeap.modChunk_freeBytes]
    congr 1
    exact chunkUsableBytes_congr cfg (by simp) (by simp)

theorem freeListRemove_sameLayout (c : Nat) : SameLayout h (freeListRemove cfg h c) := by
  unfold freeListRemove
  split
  · exact freeListRemoveBidx_sameLayout cfg h c _
  · exact ⟨rfl, rfl, fun _ => rfl, fun _ => rfl, fun _ => rfl, rfl⟩

theorem freeListAdd_sameLayout (c : Nat) : SameLayout h (freeListAdd cfg h c) := by
  unfold freeListAdd
  split
  · exact freeListAddBidx_sameLayout cfg h c _
  · exact ⟨rfl, rfl, fun _ => rfl, fun _ => rfl, fun _ => rfl, rfl⟩

theorem setChunkSize_sameLists (c s : Nat) : SameLists h (setChunkSize h c s) :=
  ⟨rfl, rfl, rfl, rfl, rfl, fun d => by simp [setChunkSize], fun d => by simp [setChunkSize]⟩

theorem setLeftChunkSize_sameLists (c s : Nat) : SameLists h (setLeftChunkSize h c s) :=
  ⟨rfl, rfl, rfl, rfl, rfl, fun d => by simp [setLeftChunkSize], fun d => by simp [setLeftChunkSize]⟩

theorem setChunkUsed_sameLists (c : Nat) (u : Bool) : SameLists h (setChunkUsed h c u) :=
  ⟨rfl, rfl, rfl, rfl, rfl, fun d => by simp [setChunkUsed], fun d => by simp [setChunkUsed]⟩

theorem splitChunks_sameLists (lc rc : Nat) : SameLists h (splitChunks h lc rc) :=
  (((setChunkSize_sameLists h lc _).trans (setChunkSize_sameLists _ rc _)).trans
    (setLeftChunkSize_sameLists _ rc _)).trans (setLeftChunkSize_sameLists _ _ _)

theorem mergeChunks_sameLists (lc rc : Nat) : SameLists h (mergeChunks h lc rc) :=
  (setChunkSize_sameLists h lc _).trans (setLeftChunkSize_sameLists _ _ _)

theorem allocated_sameLists (n : Nat) : SameLists h { h with allocatedBytes := n } :=
  ⟨rfl, rfl, rfl, rfl, rfl, fun _ => rfl, fun _ => rfl⟩

theorem increaseAllocatedBytes_sameLists (n : Nat) : SameLists h (increaseAllocatedBytes h n) :=
  ⟨rfl, rfl, rfl, rfl, rfl, fun _ => rfl, fun _ => rfl⟩

@[simp] theorem freeListRemove_endChunk (c : Nat) : (freeListRemove cfg h c).endChunk = h.endChunk :=
  (freeListRemove_sameLayout cfg h c).endChunk

@[simp] theorem freeListRemove_base (c : Nat) : (freeListRemove cfg h c).base = h.base :=
  (freeListRemove_sameLayout cfg h c).base

@[simp] theorem freeListAdd_endChunk (c : Nat) : (freeListAdd cfg h c).endChunk = h.endChunk :=
  (freeListAdd_sameLayout cfg h c).endChunk

@[simp] theorem freeListAdd_base (c : Nat) : (freeListAdd cfg h c).base = h.base :=
  (freeListAdd_sameLayout cfg h c).base

@[simp] theorem freeListRemoveBidx_endChunk (c b : Nat) :
    (freeListRemoveBidx cfg h c b).endChunk = h.endChunk :=
  (freeListRemoveBidx_sameLayout cfg h c b).endChunk

@[simp] theorem freeListRemoveBidx_base (c b : Nat) : (freeListRemoveBidx cfg h c b).base = h.base :=
  (freeListRemoveBidx_sameLayout cfg h c b).base

@[simp] theorem splitChunks_endChunk (lc rc : Nat) : (splitChunks h lc rc).endChunk = h.endChunk :=
  (splitChunks_sameLists h lc rc).endChunk

@[simp] theorem splitChunks_base (lc rc : Nat) : (splitChunks h lc rc).base = h.base :=
  (splitChunks_sameLists h lc rc).base

@[simp] theorem mergeChunks_endChunk (lc rc : Nat) : (mergeChunks h lc rc).endChunk = h.endChunk :=
  (mergeChunks_sameLists h lc rc).endChunk

@[simp] theorem mergeChunks_base (lc rc : Nat) : (mergeChunks h lc rc).base = h.base :=
  (mergeChunks_sameLists h lc rc).base

@[simp] theorem setChunkUsed_endChunk (c : Nat) (u : Bool) : (setChunkUsed h c u).endChunk = h.endChunk :=
  rfl

@[simp] theorem setChunkUsed_base (c : Nat) (u : Bool) : (setChunkUsed h c u).base = h.base := rfl

@[simp] theorem setChunkUsed_size (c : Nat) (u : Bool) (d : Nat) :
    ((setChunkUsed h c u).chunks d).size = (h.chunks d).size := by
  simp only [setChunkUsed, ZHeap.modChunk_size]
  split <;> simp_all

@[simp] theorem increaseAllocatedBytes_endChunk (n : Nat) :
    (increaseAllocatedBytes h n).endChunk = h.endChunk := rfl

@[simp] theorem increaseAllocatedBytes_base (n : Nat) : (increaseAllocatedBytes h n).base = h.base := rfl

@[simp] theorem freeListRemove_allocatedBytes (c : Nat) :
    (freeListRemove cfg h c).allocatedBytes = h.allocatedBytes :=
  (freeListRemove_sameLayout cfg h c).allocatedBytes

@[simp] theorem freeListAdd_allocatedBytes (c : Nat) :
    (freeListAdd cfg h c).allocatedBytes = h.allocatedBytes :=
  (freeListAdd_sameLayout cfg h c).allocatedBytes

@[simp] theorem splitChunks_allocatedBytes (lc rc : Nat) :
    (splitChunks h lc rc).allocatedBytes = h.allocatedBytes := rfl

@[simp] theorem mergeChunks_allocatedBytes (lc rc : Nat) :
    (mergeChunks h lc rc).allocatedBytes = h.allocatedBytes := rfl

@[simp] theorem setChunkUsed_allocatedBytes (c : Nat) (u : Bool) :
    (setChunkUsed h c u).allocatedBytes = h.allocatedBytes := rfl

end Frames

end Zephyr.Heap
