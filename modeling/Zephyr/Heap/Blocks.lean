import Zephyr.Heap.Resize

namespace Zephyr.Heap

/-! The blocks a caller holds, over a run of calls -/

variable {cfg : HeapConfig}

-- The blocks held after a call, from the call and what it returned.
def liveAfter : HeapOp → Nat → List Nat → List Nat
  | .alloc _, q, live | .alignedAlloc _ _, q, live => if q = 0 then live else q :: live
  | .free mem, _, live => live.erase mem
  | .realloc ptr bytes, q, live | .alignedRealloc ptr _ bytes, q, live =>
    if ptr = 0 then (if q = 0 then live else q :: live)
    else if bytes = 0 then live.erase ptr
    else if q = 0 then live else q :: live.erase ptr

-- The calls a caller may make: free and realloc only of NULL or of a block
-- it holds, with alignments a size_t holds.
def HeapOp.valid (cfg : HeapConfig) (live : List Nat) : HeapOp → Bool
  | .alloc _ => true
  | .alignedAlloc align _ => decide (align < 2 ^ (8 * cfg.ptrBytes))
  | .free mem => decide (mem = 0 ∨ mem ∈ live)
  | .realloc ptr _ => decide (ptr = 0 ∨ ptr ∈ live)
  | .alignedRealloc ptr align _ => decide (ptr = 0 ∨ ptr ∈ live) && decide (align < 2 ^ (8 * cfg.ptrBytes))

variable (cfg)

def runLive : ZHeap → List Nat → List HeapOp → ZHeap × List Nat
  | h, live, [] => (h, live)
  | h, live, op :: ops => runLive (op.run cfg h).1 (liveAfter op (op.run cfg h).2 live) ops

def validRun : ZHeap → List Nat → List HeapOp → Bool
  | _, _, [] => true
  | h, live, op :: ops => op.valid cfg live && validRun (op.run cfg h).1 (liveAfter op (op.run cfg h).2 live) ops

theorem runLive_fst (h : ZHeap) (live : List Nat) (ops : List HeapOp) :
    (runLive cfg h live ops).1 = (runHeap cfg h ops).1 := by
  induction ops generalizing h live with
  | nil => rfl
  | cons op ops ih => exact ih _ _

-- The heap as its caller sees it: well formed, allocated_bytes the bytes of
-- the chunks in use, and those chunks exactly the chunks of the blocks held.
structure Blocks (h : ZHeap) (live : List Nat) : Prop where
  base : h.base % chunkUnit = 0
  chunks : ∃ cs L, HeapWf cfg h cs L [] ∧ h.allocatedBytes = usedBytes cfg h cs ∧
    (usedChunks h cs).Perm (live.map (memToChunkid cfg h))

variable {cfg} {h h' : ZHeap} {cs cs' : List Nat} {live : List Nat}

theorem perm_erase_map {f : Nat → Nat} {l U V : List Nat} {x : Nat} (hx : x ∈ l)
    (hp : (U ++ f x :: V).Perm (l.map f)) : (U ++ V).Perm ((l.erase x).map f) := by
  have h1 : (l.map f).Perm (f x :: (l.erase x).map f) := by
    rw [← List.map_cons]
    exact (List.perm_cons_erase hx).map f
  exact List.Perm.cons_inv (List.perm_middle.symm.trans (hp.trans h1))

theorem memToChunkid_zero (h : ZHeap) : memToChunkid cfg h 0 = 0 := by
  simp [memToChunkid]

namespace Blocks

theorem zero_not_mem (b : Blocks cfg h live) : 0 ∉ live := fun h0 => by
  obtain ⟨cs, L, w, -, hp⟩ := b.chunks
  have hm : memToChunkid cfg h 0 ∈ usedChunks h cs := hp.symm.subset (List.mem_map_of_mem h0)
  rw [memToChunkid_zero] at hm
  exact absurd (w.tiling.pos_of_mem (mem_usedChunks.1 hm).1) (Nat.lt_irrefl 0)

-- No two blocks held share a chunk.
theorem nodup (b : Blocks cfg h live) : (live.map (memToChunkid cfg h)).Nodup := by
  obtain ⟨cs, L, w, -, hp⟩ := b.chunks
  exact hp.nodup_iff.1 (usedChunks_nodup w.tiling.nodup)

-- The one call of `Kept` with its effect on the chunks in use.
theorem of_kept {live' : List Nat} (b : Blocks cfg h live) (ha : h.allocatedBytes = usedBytes cfg h cs)
    (k : Kept cfg h cs h' cs') (hp' : (usedChunks h' cs').Perm (live'.map (memToChunkid cfg h))) :
    Blocks cfg h' live' := by
  have e : memToChunkid cfg h' = memToChunkid cfg h := funext (memToChunkid_congr cfg k.endChunk k.base)
  obtain ⟨L', w'⟩ := k.wf
  exact ⟨by rw [k.base]; exact b.base, cs', L', w', k.allocated ha, by rw [e]; exact hp'⟩

-- One call keeps the heap as its caller sees it.
theorem step (b : Blocks cfg h live) (op : HeapOp) (hv : op.valid cfg live = true) :
    Blocks cfg (op.run cfg h).1 (liveAfter op (op.run cfg h).2 live) := by
  obtain ⟨cs, L, w, ha, hp⟩ := b.chunks
  -- an allocation: the block handed out, if any, is held
  have alloc : ∀ r : ZHeap × Nat, (∃ cs', Kept cfg h cs r.1 cs' ∧ AllocOut cfg h cs r.1 cs' r.2) →
      Blocks cfg r.1 (if r.2 = 0 then live else r.2 :: live) := by
    rintro r ⟨cs', k, out⟩
    refine b.of_kept ha k ?_
    rcases out with ⟨h0, hU⟩ | ⟨hq, -, hperm⟩
    · rw [if_pos h0, hU]
      exact hp
    · rw [if_neg hq, List.map_cons]
      exact hperm.trans (hp.cons _)
  -- a realloc of a block held
  have realloc : ∀ {ptr bytes : Nat} (r : ZHeap × Nat), ptr ∈ live →
      (∃ cs', Kept cfg h cs r.1 cs' ∧ ReallocOut cfg h cs r.1 cs' ptr bytes r.2) →
      Blocks cfg r.1 (if bytes = 0 then live.erase ptr else if r.2 = 0 then live else r.2 :: live.erase ptr) := by
    rintro ptr bytes r hptr ⟨cs', k, U, V, hUV, hfree, hfail, hmove⟩
    refine b.of_kept ha k ?_
    rw [hUV] at hp
    by_cases hb : bytes = 0
    · rw [if_pos hb, (hfree hb).2]
      exact perm_erase_map hptr hp
    · rw [if_neg hb]
      by_cases hq : r.2 = 0
      · rw [if_pos hq, hfail hb hq, hUV]
        exact hp
      · rw [if_neg hq, List.map_cons]
        exact (hmove hq).2.trans ((perm_erase_map hptr hp).cons _)
  have hmem : ∀ {ptr : Nat}, ptr ∈ live →
      memToChunkid cfg h ptr ∈ cs ∧ chunkUsed h (memToChunkid cfg h ptr) = true :=
    fun hptr => mem_usedChunks.1 (hp.symm.subset (List.mem_map_of_mem hptr))
  have hne : ∀ {ptr : Nat}, ptr ∈ live → ptr ≠ 0 := fun hptr h0 => b.zero_not_mem (h0 ▸ hptr)
  cases op with
  | alloc bytes => exact alloc _ (sysHeapAlloc_spec w bytes)
  | alignedAlloc align bytes =>
    simp only [HeapOp.valid, decide_eq_true_eq] at hv
    exact alloc _ (sysHeapAlignedAlloc_spec w b.base hv bytes)
  | free mem =>
    simp only [HeapOp.valid, decide_eq_true_eq] at hv
    simp only [HeapOp.run, liveAfter]
    rcases hv with rfl | hm
    · rw [List.erase_of_not_mem b.zero_not_mem]
      have e : sysHeapFree cfg h 0 = h := by simp [sysHeapFree]
      rw [e]
      exact b
    · obtain ⟨cs', k, U, V, hUV, hfree⟩ := sysHeapFree_spec w (hmem hm).1 (hmem hm).2
      rw [hUV] at hp
      exact b.of_kept ha k (hfree ▸ perm_erase_map hm hp)
  | realloc ptr bytes =>
    simp only [HeapOp.valid, decide_eq_true_eq] at hv
    simp only [HeapOp.run, liveAfter]
    rcases hv with rfl | hm
    · rw [if_pos rfl]
      have e : sysHeapRealloc cfg h 0 bytes = sysHeapAlloc cfg h bytes := by simp [sysHeapRealloc]
      have b' := alloc _ (sysHeapAlloc_spec w bytes)
      rw [← e] at b'
      exact b'
    · rw [if_neg (hne hm)]
      exact realloc _ hm (sysHeapRealloc_kept w (hne hm) (hmem hm).1 (hmem hm).2 bytes)
  | alignedRealloc ptr align bytes =>
    simp only [HeapOp.valid, Bool.and_eq_true, decide_eq_true_eq] at hv
    simp only [HeapOp.run, liveAfter]
    rcases hv with ⟨rfl | hm, hw⟩
    · rw [if_pos rfl]
      have e : sysHeapAlignedRealloc cfg h 0 align bytes = sysHeapAlignedAlloc cfg h align bytes := by
        simp [sysHeapAlignedRealloc]
      have b' := alloc _ (sysHeapAlignedAlloc_spec w b.base hw bytes)
      rw [← e] at b'
      exact b'
    · rw [if_neg (hne hm)]
      exact realloc _ hm (sysHeapAlignedRealloc_kept w b.base (hne hm) (hmem hm).1 (hmem hm).2 hw bytes)

theorem run (b : Blocks cfg h live) (ops : List HeapOp) (hv : validRun cfg h live ops = true) :
    Blocks cfg (runLive cfg h live ops).1 (runLive cfg h live ops).2 := by
  induction ops generalizing h live with
  | nil => exact b
  | cons op ops ih =>
    simp only [validRun, Bool.and_eq_true] at hv
    exact ih (b.step op hv.1) hv.2

end Blocks

-- sys_heap_init hands out nothing: its one chunk after chunk 0 is free and
-- allocated_bytes is 0.
theorem sysHeapInit_unused {mem bytes : Nat} (oldChunks : Nat → ChunkHdr) (oldBuckets : Nat → Nat)
    (hok : sysHeapInitOk cfg mem bytes = true) :
    chunkUsed (sysHeapInit cfg mem bytes oldChunks oldBuckets)
        ((sysHeapInit cfg mem bytes oldChunks oldBuckets).chunks 0).size = false ∧
      (sysHeapInit cfg mem bytes oldChunks oldBuckets).allocatedBytes = 0 ∧
      (sysHeapInit cfg mem bytes oldChunks oldBuckets).base % chunkUnit = 0 := by
  simp only [sysHeapInitOk, Bool.and_eq_true, decide_eq_true_eq] at hok
  obtain ⟨⟨⟨-, -⟩, -⟩, hfit⟩ := hok
  obtain ⟨H, c0, e, hc0, hfit, hbase⟩ : ∃ H c0, sysHeapInit cfg mem bytes oldChunks oldBuckets =
      freeListAdd cfg (initLayout H c0) c0 ∧
      c0 = chunksz (zHeapBytes cfg + numBuckets cfg H * 4) + chunkTrailerSize cfg ∧
      c0 + minChunkSize cfg H ≤ H.endChunk ∧ H.base = roundUp mem chunkUnit ∧ H.allocatedBytes = 0 :=
    ⟨_, _, rfl, rfl, hfit, rfl, rfl⟩
  have hend : c0 < H.endChunk := by have := minChunkSize_pos cfg H; omega
  have h0 : 0 < c0 := by rw [hc0]; unfold chunksz numBuckets chunkUnit; omega
  have l := freeListAdd_sameLayout cfg (initLayout H c0) c0
  rw [e, chunkUsed, l.used, l.size, (initLayout_chunk0 h0 hend).1, l.allocatedBytes, l.base]
  refine ⟨(initLayout_free hend).2.2, ?_, ?_⟩
  · simp [initLayout, setChunkUsed, setChunkSize, setLeftChunkSize, hbase.2]
  · simp only [initLayout, setChunkUsed, setChunkSize, setLeftChunkSize, ZHeap.modChunk_base, hbase.1]
    exact Nat.mod_eq_zero_of_dvd (dvd_roundUp _ _)

theorem blocks_sysHeapInit {mem bytes : Nat} (oldChunks : Nat → ChunkHdr) (oldBuckets : Nat → Nat)
    (hok : sysHeapInitOk cfg mem bytes = true) :
    Blocks cfg (sysHeapInit cfg mem bytes oldChunks oldBuckets) [] := by
  obtain ⟨L, w⟩ := sysHeapInit_wf oldChunks oldBuckets hok
  obtain ⟨hu, ha, hbase⟩ := sysHeapInit_unused oldChunks oldBuckets hok
  refine ⟨hbase, _, L, w, ?_, ?_⟩
  · rw [ha, usedBytes_cons, if_neg (by rw [hu]; decide), usedBytes_nil]
  · rw [usedChunks_cons, if_neg (by rw [hu]; decide), usedChunks_nil]
    exact List.Perm.refl _

-- From sys_heap_init, through any run of calls that frees and reallocates only
-- blocks it holds: the heap stays well formed, allocated_bytes counts the chunks
-- in use, and those are exactly the chunks of the blocks held, one each.
theorem sys_heap_runs_track_blocks {mem bytes : Nat} (oldChunks : Nat → ChunkHdr) (oldBuckets : Nat → Nat)
    (hok : sysHeapInitOk cfg mem bytes = true) (ops : List HeapOp)
    (hv : validRun cfg (sysHeapInit cfg mem bytes oldChunks oldBuckets) [] ops = true) :
    Blocks cfg (runHeap cfg (sysHeapInit cfg mem bytes oldChunks oldBuckets) ops).1
        (runLive cfg (sysHeapInit cfg mem bytes oldChunks oldBuckets) [] ops).2 ∧
      ((runLive cfg (sysHeapInit cfg mem bytes oldChunks oldBuckets) [] ops).2.map
        (memToChunkid cfg (runHeap cfg (sysHeapInit cfg mem bytes oldChunks oldBuckets) ops).1)).Nodup := by
  have b := (blocks_sysHeapInit oldChunks oldBuckets hok).run ops hv
  rw [runLive_fst] at b
  exact ⟨b, b.nodup⟩

set_option maxRecDepth 4000 in
theorem sys_heap_runs_track_blocks_fresh :
    Blocks defaultConfig32 (runHeap defaultConfig32 freshHeap [.alloc 4, .alloc 28, .realloc 4140 60, .free 4148]).1
        (runLive defaultConfig32 freshHeap [] [.alloc 4, .alloc 28, .realloc 4140 60, .free 4148]).2 ∧
      ((runLive defaultConfig32 freshHeap [] [.alloc 4, .alloc 28, .realloc 4140 60, .free 4148]).2.map
        (memToChunkid defaultConfig32
          (runHeap defaultConfig32 freshHeap [.alloc 4, .alloc 28, .realloc 4140 60, .free 4148]).1)).Nodup :=
  sys_heap_runs_track_blocks (fun _ => default) (fun _ => 0) (by decide) _ (by decide)

end Zephyr.Heap
