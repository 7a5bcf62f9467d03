import Mathlib

namespace Zephyr.Heap

structure HeapConfig where
  smallOnly : Bool
  bigOnly : Bool
  ptrBytes : Nat
  canaries : Bool
  canariesRandom : Bool
  runtimeStats : Bool
  allocLoops : Nat
  deriving DecidableEq, Repr

def chunkUnit : Nat := 8

def chunkTrailerSize (cfg : HeapConfig) : Nat := if cfg.canaries then 1 else 0

-- sizeof (struct z_heap): the two header words of chunk 0, end_chunk and
-- avail_buckets, then the optional statistics and random canary base.
def zHeapBytes (cfg : HeapConfig) : Nat :=
  let fields := 16 + (if cfg.runtimeStats then 3 * cfg.ptrBytes else 0) +
    (if cfg.canariesRandom then 4 else 0)
  let align := if cfg.runtimeStats then max 4 cfg.ptrBytes else 4
  (fields + align - 1) / align * align

structure ChunkHdr where
  leftSize : Nat
  size : Nat
  used : Bool
  freePrev : Nat
  freeNext : Nat
  deriving DecidableEq, Repr, Inhabited

structure ZHeap where
  base : Nat
  endChunk : Nat
  availBuckets : BitVec 32
  buckets : Nat → Nat
  chunks : Nat → ChunkHdr
  freeBytes : Nat
  allocatedBytes : Nat
  maxAllocatedBytes : Nat

namespace ZHeap

def modChunk (h : ZHeap) (c : Nat) (f : ChunkHdr → ChunkHdr) : ZHeap :=
  { h with chunks := Function.update h.chunks c (f (h.chunks c)) }

theorem modChunk_chunks (h : ZHeap) (c : Nat) (f : ChunkHdr → ChunkHdr) (d : Nat) :
    (h.modChunk c f).chunks d = if d = c then f (h.chunks c) else h.chunks d := by
  simp [modChunk, Function.update_apply]

@[simp] theorem modChunk_size (h : ZHeap) (c : Nat) (f : ChunkHdr → ChunkHdr) (d : Nat) :
    ((h.modChunk c f).chunks d).size = if d = c then (f (h.chunks d)).size else (h.chunks d).size := by
  rw [modChunk_chunks]; split <;> simp_all

@[simp] theorem modChunk_used (h : ZHeap) (c : Nat) (f : ChunkHdr → ChunkHdr) (d : Nat) :
    ((h.modChunk c f).chunks d).used = if d = c then (f (h.chunks d)).used else (h.chunks d).used := by
  rw [modChunk_chunks]; split <;> simp_all

@[simp] theorem modChunk_leftSize (h : ZHeap) (c : Nat) (f : ChunkHdr → ChunkHdr) (d : Nat) :
    ((h.modChunk c f).chunks d).leftSize =
      if d = c then (f (h.chunks d)).leftSize else (h.chunks d).leftSize := by
  rw [modChunk_chunks]; split <;> simp_all

@[simp] theorem modChunk_freePrev (h : ZHeap) (c : Nat) (f : ChunkHdr → ChunkHdr) (d : Nat) :
    ((h.modChunk c f).chunks d).freePrev =
      if d = c then (f (h.chunks d)).freePrev else (h.chunks d).freePrev := by
  rw [modChunk_chunks]; split <;> simp_all

@[simp] theorem modChunk_freeNext (h : ZHeap) (c : Nat) (f : ChunkHdr → ChunkHdr) (d : Nat) :
    ((h.modChunk c f).chunks d).freeNext =
      if d = c then (f (h.chunks d)).freeNext else (h.chunks d).freeNext := by
  rw [modChunk_chunks]; split <;> simp_all

@[simp] theorem modChunk_endChunk (h : ZHeap) (c : Nat) (f : ChunkHdr → ChunkHdr) :
    (h.modChunk c f).endChunk = h.endChunk := rfl

@[simp] theorem modChunk_base (h : ZHeap) (c : Nat) (f : ChunkHdr → ChunkHdr) :
    (h.modChunk c f).base = h.base := rfl

@[simp] theorem modChunk_buckets (h : ZHeap) (c : Nat) (f : ChunkHdr → ChunkHdr) :
    (h.modChunk c f).buckets = h.buckets := rfl

@[simp] theorem modChunk_availBuckets (h : ZHeap) (c : Nat) (f : ChunkHdr → ChunkHdr) :
    (h.modChunk c f).availBuckets = h.availBuckets := rfl

@[simp] theorem modChunk_freeBytes (h : ZHeap) (c : Nat) (f : ChunkHdr → ChunkHdr) :
    (h.modChunk c f).freeBytes = h.freeBytes := rfl

@[simp] theorem modChunk_allocatedBytes (h : ZHeap) (c : Nat) (f : ChunkHdr → ChunkHdr) :
    (h.modChunk c f).allocatedBytes = h.allocatedBytes := rfl

@[simp] theorem modChunk_maxAllocatedBytes (h : ZHeap) (c : Nat) (f : ChunkHdr → ChunkHdr) :
    (h.modChunk c f).maxAllocatedBytes = h.maxAllocatedBytes := rfl

end ZHeap

section Fields

variable (cfg : HeapConfig)

def bigHeapChunks (chunks : Nat) : Bool :=
  if cfg.smallOnly then false
  else if cfg.bigOnly || decide (4 < cfg.ptrBytes) then true
  else decide (0x7fff < chunks)

def bigHeapBytes (bytes : Nat) : Bool := bigHeapChunks cfg (bytes / chunkUnit)

def bigHeap (h : ZHeap) : Bool := bigHeapChunks cfg h.endChunk

def chunkField (h : ZHeap) (c : Nat) : ChunkHdr := h.chunks c

@[simp] def chunkUsed (h : ZHeap) (c : Nat) : Bool := (h.chunks c).used

@[simp] def chunkSize (h : ZHeap) (c : Nat) : Nat := (h.chunks c).size

@[simp] def prevFreeChunk (h : ZHeap) (c : Nat) : Nat := (h.chunks c).freePrev

@[simp] def nextFreeChunk (h : ZHeap) (c : Nat) : Nat := (h.chunks c).freeNext

@[simp] def leftChunk (h : ZHeap) (c : Nat) : Nat := c - (h.chunks c).leftSize

@[simp] def rightChunk (h : ZHeap) (c : Nat) : Nat := c + chunkSize h c

def setChunkUsed (h : ZHeap) (c : Nat) (used : Bool) : ZHeap :=
  h.modChunk c fun k => { k with used := used }

-- The size shares its word with the used bit: writing `size << 1` clears it.
def setChunkSize (h : ZHeap) (c : Nat) (size : Nat) : ZHeap :=
  h.modChunk c fun k => { k with size := size, used := false }

def setPrevFreeChunk (h : ZHeap) (c : Nat) (prev : Nat) : ZHeap :=
  h.modChunk c fun k => { k with freePrev := prev }

def setNextFreeChunk (h : ZHeap) (c : Nat) (next : Nat) : ZHeap :=
  h.modChunk c fun k => { k with freeNext := next }

def setLeftChunkSize (h : ZHeap) (c : Nat) (size : Nat) : ZHeap :=
  h.modChunk c fun k => { k with leftSize := size }

def chunkHeaderBytes (h : ZHeap) : Nat := if bigHeap cfg h then 8 else 4

def heapFooterBytes (size : Nat) : Nat := if bigHeapBytes cfg size then 8 else 4

def chunksz (bytes : Nat) : Nat := (bytes + chunkUnit - 1) / chunkUnit

def bytesToChunksz (h : ZHeap) (bytes extra : Nat) : Nat :=
  let chunks := bytes / chunkUnit + extra / chunkUnit
  let oddments := (bytes % chunkUnit + extra % chunkUnit + chunkHeaderBytes cfg h +
    chunkUnit - 1) / chunkUnit
  min (chunks + oddments + chunkTrailerSize cfg) h.endChunk

def minChunkSize (h : ZHeap) : Nat := chunksz (chunkHeaderBytes cfg h + 1) + chunkTrailerSize cfg

def undersizedChunk (h : ZHeap) (c : Nat) : Bool :=
  (chunkTrailerSize cfg != 0 || bigHeap cfg h) && decide (chunkSize h c < minChunkSize cfg h)

def chunkUsableBytes (h : ZHeap) (c : Nat) : Nat :=
  chunkSize h c * chunkUnit - chunkHeaderBytes cfg h - chunkTrailerSize cfg * chunkUnit

def memAlignGap (h : ZHeap) (mem : Nat) : Nat :=
  if chunkHeaderBytes cfg h = chunkUnit then 0
  else (mem - chunkHeaderBytes cfg h) % chunkUnit

-- 31 - __builtin_clz (usable_sz) on a nonzero 32-bit value.
def bucketIdx (h : ZHeap) (sz : Nat) : Nat := Nat.log2 (sz - minChunkSize cfg h + 1)

def chunkMem (h : ZHeap) (c : Nat) : Nat := h.base + c * chunkUnit + chunkHeaderBytes cfg h

def memToChunkid (h : ZHeap) (p : Nat) : Nat := (p - chunkHeaderBytes cfg h - h.base) / chunkUnit

end Fields

end Zephyr.Heap
