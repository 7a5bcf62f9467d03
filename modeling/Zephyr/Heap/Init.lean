import Zephyr.Heap.Inv

namespace Zephyr.Heap

open Zephyr.Lib

variable {cfg : HeapConfig}

theorem chunkHeaderBytes_cases (cfg : HeapConfig) (h : ZHeap) :
    chunkHeaderBytes cfg h = 4 ∨ chunkHeaderBytes cfg h = 8 := by
  unfold chunkHeaderBytes; split <;> simp

theorem minChunkSize_pos (cfg : HeapConfig) (h : ZHeap) : 0 < minChunkSize cfg h := by
  unfold minChunkSize chunksz
  have := chunkHeaderBytes_cases cfg h
  simp only [chunkUnit]; omega

-- The chunk headers sys_heap_init writes into `H`: chunk 0 in use with size
-- `c0`, the free chunk at `c0` and the end marker at end_chunk.
def initLayout (H : ZHeap) (c0 : Nat) : ZHeap :=
  let h := setChunkUsed (setLeftChunkSize (setChunkSize H 0 c0) 0 0) 0 true
  let h := setLeftChunkSize (setChunkSize h c0 (H.endChunk - c0)) c0 c0
  setChunkUsed (setLeftChunkSize (setChunkSize h H.endChunk 0) H.endChunk (H.endChunk - c0)) H.endChunk true

section Layout

variable {H : ZHeap} {c0 : Nat}

@[simp] theorem initLayout_endChunk : (initLayout H c0).endChunk = H.endChunk := by
  simp [initLayout, setChunkUsed, setChunkSize, setLeftChunkSize]

@[simp] theorem initLayout_buckets : (initLayout H c0).buckets = H.buckets := by
  simp [initLayout, setChunkUsed, setChunkSize, setLeftChunkSize]

@[simp] theorem initLayout_availBuckets : (initLayout H c0).availBuckets = H.availBuckets := by
  simp [initLayout, setChunkUsed, setChunkSize, setLeftChunkSize]

@[simp] theorem initLayout_freeBytes : (initLayout H c0).freeBytes = H.freeBytes := by
  simp [initLayout, setChunkUsed, setChunkSize, setLeftChunkSize]

theorem initLayout_end : ((initLayout H c0).chunks H.endChunk).leftSize = H.endChunk - c0 ∧
    ((initLayout H c0).chunks H.endChunk).used = true := by
  simp [initLayout, setChunkUsed, setChunkSize, setLeftChunkSize]

theorem initLayout_chunk0 (h0 : 0 < c0) (hend : c0 < H.endChunk) : ((initLayout H c0).chunks 0).size = c0 ∧ ((initLayout H c0).chunks 0).used = true := by
  simp [initLayout, setChunkUsed, setChunkSize, setLeftChunkSize, h0.ne, (h0.trans hend).ne]

theorem initLayout_free (hend : c0 < H.endChunk) : ((initLayout H c0).chunks c0).size = H.endChunk - c0 ∧
    ((initLayout H c0).chunks c0).leftSize = c0 ∧ ((initLayout H c0).chunks c0).used = false := by
  simp [initLayout, setChunkUsed, setChunkSize, setLeftChunkSize, hend.ne]

end Layout

-- Before free_list_add: chunk 0, the free chunk and the end marker tile the
-- heap, every bucket is empty and the free chunk is still pending.
theorem HeapWf.of_initLayout {H : ZHeap} {c0 : Nat} (hb : ∀ b < numBuckets cfg H, H.buckets b = 0)
    (ha : H.availBuckets = 0) (hf : H.freeBytes = 0) (hn : numBuckets cfg H ≤ 32) (h0 : 0 < c0)
    (hend : c0 < H.endChunk) : HeapWf cfg (initLayout H c0) [c0] (fun _ => []) [c0] := by
  obtain ⟨hs0, hu0⟩ := initLayout_chunk0 h0 hend
  obtain ⟨hs, hl, hu⟩ := initLayout_free hend
  obtain ⟨hle, hue⟩ : ((initLayout H c0).chunks H.endChunk).leftSize = H.endChunk - c0 ∧
      ((initLayout H c0).chunks H.endChunk).used = true := initLayout_end
  have hnb : numBuckets cfg (initLayout H c0) = numBuckets cfg H :=
    numBuckets_congr cfg initLayout_endChunk
  have t : Tiling (initLayout H c0) [c0] := by
    refine ⟨?_, fun c hc => ?_⟩
    · simp only [List.cons_append, List.nil_append, List.isChain_cons_cons, List.isChain_singleton,
        and_true, Adj, rightChunk, leftChunk, chunkSize, hs0, hs, hl, hle, initLayout_endChunk]
      omega
    · simp only [List.mem_cons, List.not_mem_nil, or_false] at hc
      rcases hc with rfl | rfl <;> simp only [chunkSize, hs0, hs] <;> omega
  refine ⟨t, ⟨fun _ => Ring.nil, fun b hb' => ?_, fun b => by simp [ha], fun _ _ => rfl,
    fun _ _ hc => absurd hc List.not_mem_nil, by rw [hnb]; exact hn, by simp [hf, listedBytes]⟩,
    hu0, by rw [chunkUsed, initLayout_endChunk]; exact hue, fun c hc hP => absurd hc hP, fun _ _ _ => List.not_mem_nil, List.isChain_singleton c0,
    fun c hc hcu => ?_⟩
  · rw [initLayout_buckets, hb b (hnb ▸ hb')]; rfl
  · rw [List.mem_singleton.1 hc] at hcu
    simp [hu] at hcu

-- sys_heap_init: with its asserts met, the heap is well formed, its one free
-- chunk starting right after chunk 0.
theorem sysHeapInit_wf {mem bytes : Nat} (oldChunks : Nat → ChunkHdr) (oldBuckets : Nat → Nat)
    (hok : sysHeapInitOk cfg mem bytes = true) :
    ∃ L, HeapWf cfg (sysHeapInit cfg mem bytes oldChunks oldBuckets)
      [((sysHeapInit cfg mem bytes oldChunks oldBuckets).chunks 0).size] L [] := by
  simp only [sysHeapInitOk, Bool.and_eq_true, decide_eq_true_eq] at hok
  obtain ⟨⟨⟨⟨hmax, -⟩, -⟩, -⟩, hfit⟩ := hok
  -- the heap before its chunk headers are written, and chunk0_size; the
  -- assert reads min_chunk_size of a heap with the same end_chunk
  obtain ⟨H, c0, e, he, hc0, hfit, hb, ha, hf⟩ : ∃ H c0, sysHeapInit cfg mem bytes oldChunks oldBuckets =
      freeListAdd cfg (initLayout H c0) c0 ∧
      H.endChunk = (roundDown (mem + (bytes - heapFooterBytes cfg bytes)) chunkUnit - roundUp mem chunkUnit) /
        chunkUnit ∧
      c0 = chunksz (zHeapBytes cfg + numBuckets cfg H * 4) + chunkTrailerSize cfg ∧
      c0 + minChunkSize cfg H ≤ H.endChunk ∧
      (∀ b < numBuckets cfg H, H.buckets b = 0) ∧ H.availBuckets = 0 ∧ H.freeBytes = 0 :=
    ⟨_, _, rfl, rfl, rfl, hfit, fun b hb => if_pos hb, rfl, rfl⟩
  have hend : c0 < H.endChunk := by have := minChunkSize_pos cfg H; omega
  have h0 : 0 < c0 := by rw [hc0]; unfold chunksz numBuckets chunkUnit; omega
  have hn : numBuckets cfg H ≤ 32 := by
    have hmax' : bytes / chunkUnit ≤ 0x7fffffff := by split at hmax <;> omega
    have hsz : H.endChunk ≤ bytes / chunkUnit := by
      rw [he]; unfold roundUp roundDown chunkUnit; omega
    have hlt : H.endChunk - minChunkSize cfg H + 1 < 2 ^ 31 := by
      have := minChunkSize_pos cfg H; omega
    have := (Nat.log2_lt (by omega)).2 hlt
    simp only [numBuckets, bucketIdx]
    omega
  obtain ⟨L, w⟩ := (HeapWf.of_initLayout hb ha hf hn h0 hend).add List.not_mem_nil
    (List.mem_singleton_self c0) (initLayout_free hend).2.2
    (by simp [(initLayout_free hend).2.1, (initLayout_chunk0 h0 hend).2])
    (by simp [(initLayout_free hend).1, Nat.add_sub_cancel' hend.le, (initLayout_end (H := H)).2])
  have hs0 : ((freeListAdd cfg (initLayout H c0) c0).chunks 0).size = c0 := by
    rw [(freeListAdd_sameLayout cfg _ c0).size]; exact (initLayout_chunk0 h0 hend).1
  rw [e, hs0]
  exact ⟨L, w⟩

end Zephyr.Heap
