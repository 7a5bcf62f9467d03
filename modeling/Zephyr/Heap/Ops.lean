import Zephyr.Heap.Chunk

namespace Zephyr.Heap

def bit (i : Nat) : BitVec 32 := 1#32 <<< i

def bitMask (n : Nat) : BitVec 32 := bit n - 1

def roundUp (x a : Nat) : Nat := (x + a - 1) / a * a

def roundDown (x a : Nat) : Nat := x / a * a

section Ops

variable (cfg : HeapConfig)

def freeListRemoveBidx (h : ZHeap) (c bidx : Nat) : ZHeap :=
  let h :=
    if nextFreeChunk h c = c then
      { h with availBuckets := h.availBuckets &&& ~~~(bit bidx),
               buckets := Function.update h.buckets bidx 0 }
    else
      let first := prevFreeChunk h c
      let second := nextFreeChunk h c
      let h := { h with buckets := Function.update h.buckets bidx second }
      setPrevFreeChunk (setNextFreeChunk h first second) second first
  { h with freeBytes := h.freeBytes - chunkUsableBytes cfg h c }

def freeListRemove (h : ZHeap) (c : Nat) : ZHeap :=
  if !undersizedChunk cfg h c then freeListRemoveBidx cfg h c (bucketIdx cfg h (chunkSize h c))
  else h

def freeListAddBidx (h : ZHeap) (c bidx : Nat) : ZHeap :=
  let h :=
    if h.buckets bidx = 0 then
      let h := { h with availBuckets := h.availBuckets ||| bit bidx,
                        buckets := Function.update h.buckets bidx c }
      setNextFreeChunk (setPrevFreeChunk h c c) c c
    else
      -- insert before (!) the bucket's "next" pointer
      let second := h.buckets bidx
      let first := prevFreeChunk h second
      let h := setPrevFreeChunk h c first
      let h := setNextFreeChunk h c second
      let h := setNextFreeChunk h first c
      setPrevFreeChunk h second c
  { h with freeBytes := h.freeBytes + chunkUsableBytes cfg h c }

def freeListAdd (h : ZHeap) (c : Nat) : ZHeap :=
  if !undersizedChunk cfg h c then freeListAddBidx cfg h c (bucketIdx cfg h (chunkSize h c))
  else h

def splitChunks (h : ZHeap) (lc rc : Nat) : ZHeap :=
  let sz0 := chunkSize h lc
  let lsz := rc - lc
  let rsz := sz0 - lsz
  let h := setChunkSize h lc lsz
  let h := setChunkSize h rc rsz
  let h := setLeftChunkSize h rc lsz
  setLeftChunkSize h (rightChunk h rc) rsz

def mergeChunks (h : ZHeap) (lc rc : Nat) : ZHeap :=
  let newsz := chunkSize h lc + chunkSize h rc
  let h := setChunkSize h lc newsz
  setLeftChunkSize h (rightChunk h rc) newsz

def freeChunk (h : ZHeap) (c : Nat) : ZHeap :=
  let rc := rightChunk h c
  let h := if !chunkUsed h rc then mergeChunks (freeListRemove cfg h rc) c rc else h
  let lc := leftChunk h c
  if !chunkUsed h lc then freeListAdd cfg (mergeChunks (freeListRemove cfg h lc) lc c) lc
  else freeListAdd cfg h c

def increaseAllocatedBytes (h : ZHeap) (n : Nat) : ZHeap :=
  { h with allocatedBytes := h.allocatedBytes + n,
           maxAllocatedBytes := max h.maxAllocatedBytes (h.allocatedBytes + n) }

def sysHeapFree (h : ZHeap) (mem : Nat) : ZHeap :=
  if mem = 0 then h
  else
    let c := memToChunkid cfg h mem
    let h := setChunkUsed h c false
    let h := { h with allocatedBytes := h.allocatedBytes - chunkUsableBytes cfg h c }
    freeChunk cfg h c

def sysHeapUsableSize (h : ZHeap) (mem : Nat) : Nat :=
  chunkUsableBytes cfg h (memToChunkid cfg h mem) - memAlignGap cfg h mem

-- The bounded scan of bucket `bi`: each miss rotates the bucket head.
def allocChunkLoop (bi sz first : Nat) : Nat → ZHeap → ZHeap × Nat
  | 0, h => (h, 0)
  | i + 1, h =>
    let c := h.buckets bi
    if sz ≤ chunkSize h c then (freeListRemoveBidx cfg h c bi, c)
    else
      let h := { h with buckets := Function.update h.buckets bi (nextFreeChunk h c) }
      if i = 0 ∨ h.buckets bi = first then (h, 0)
      else allocChunkLoop bi sz first i h

-- With CONFIG_SYS_HEAP_ALLOC_LOOPS = 0 the `--i` test never reaches zero
-- first, so the scan runs until the head comes back around.
def allocLoopCount : Nat := if cfg.allocLoops = 0 then 2 ^ 32 else cfg.allocLoops

def allocChunk (h : ZHeap) (sz : Nat) : ZHeap × Nat :=
  let bi := bucketIdx cfg h sz
  let (h, c) :=
    if h.buckets bi ≠ 0 then allocChunkLoop cfg bi sz (h.buckets bi) (allocLoopCount cfg) h
    else (h, 0)
  if c ≠ 0 then (h, c)
  else
    let bmask := h.availBuckets &&& ~~~(bitMask (bi + 1))
    if bmask ≠ 0 then
      let minbucket := bmask.ctz.toNat
      let c := h.buckets minbucket
      (freeListRemoveBidx cfg h c minbucket, c)
    else (h, 0)

def sysHeapAlloc (h : ZHeap) (bytes : Nat) : ZHeap × Nat :=
  if bytes = 0 then (h, 0)
  else
    let chunkSz := bytesToChunksz cfg h bytes 0
    let (h, c) := allocChunk cfg h chunkSz
    if c = 0 then (h, 0)
    else
      let h := if chunkSz < chunkSize h c
        then freeListAdd cfg (splitChunks h c (c + chunkSz)) (c + chunkSz) else h
      let h := setChunkUsed h c true
      (increaseAllocatedBytes h (chunkUsableBytes cfg h c), chunkMem cfg h c)

-- The part of sys_heap_aligned_alloc after `align`, `rew` and `gap` are split.
def alignedAllocChunks (h : ZHeap) (align rew gap bytes : Nat) : ZHeap × Nat :=
  if bytes = 0 then (h, 0)
  else
    let paddedSz := bytesToChunksz cfg h bytes (align - gap)
    let (h, c0) := allocChunk cfg h paddedSz
    if c0 = 0 then (h, 0)
    else
      let mem := roundUp (chunkMem cfg h c0 + rew) align - rew
      let endp := roundUp (mem + bytes) chunkUnit
      let c := memToChunkid cfg h mem
      let cEnd := (endp - h.base) / chunkUnit + chunkTrailerSize cfg
      let h := if c0 < c then freeListAdd cfg (splitChunks h c0 c) c0 else h
      let h := if cEnd < rightChunk h c then freeListAdd cfg (splitChunks h c cEnd) cEnd else h
      let h := setChunkUsed h c true
      (increaseAllocatedBytes h (chunkUsableBytes cfg h c), mem)

-- `align & -align` in size_t arithmetic: the lowest set bit of `align`.
def lowestAlignBit (align : Nat) : Nat :=
  align &&& ((2 ^ (8 * cfg.ptrBytes) - align) % 2 ^ (8 * cfg.ptrBytes))

def sysHeapAlignedAlloc (h : ZHeap) (align bytes : Nat) : ZHeap × Nat :=
  let rew := lowestAlignBit cfg align
  if align ≠ rew then
    alignedAllocChunks cfg h (align - rew) rew (min rew (chunkHeaderBytes cfg h)) bytes
  else if align ≤ chunkHeaderBytes cfg h then sysHeapAlloc cfg h bytes
  else alignedAllocChunks cfg h align 0 (chunkHeaderBytes cfg h) bytes

def inplaceRealloc (h : ZHeap) (ptr bytes : Nat) : ZHeap × Bool :=
  let c := memToChunkid cfg h ptr
  let chunksNeed := bytesToChunksz cfg h bytes (memAlignGap cfg h ptr)
  if chunkSize h c = chunksNeed then (h, true)
  else if chunksNeed < chunkSize h c then
    -- shrink in place, split off and free the unused suffix
    let h := { h with allocatedBytes := h.allocatedBytes - (chunkSize h c - chunksNeed) * chunkUnit }
    let h := setChunkUsed (splitChunks h c (c + chunksNeed)) c true
    let suffix := c + chunksNeed
    let suffixRc := rightChunk h suffix
    let h := if !chunkUsed h suffixRc
      then mergeChunks (freeListRemove cfg h suffixRc) suffix suffixRc else h
    (freeListAdd cfg h suffix, true)
  else
    let rc := rightChunk h c
    if !chunkUsed h rc ∧ chunksNeed ≤ chunkSize h c + chunkSize h rc then
      -- expand by splitting the right neighbour and appending its head
      let splitSize := chunksNeed - chunkSize h c
      let h := increaseAllocatedBytes h (splitSize * chunkUnit)
      let h := freeListRemove cfg h rc
      let h := if splitSize < chunkSize h rc
        then freeListAdd cfg (splitChunks h rc (rc + splitSize)) (rc + splitSize) else h
      (setChunkUsed (mergeChunks h c rc) c true, true)
    else (h, false)

def sysHeapRealloc (h : ZHeap) (ptr bytes : Nat) : ZHeap × Nat :=
  if ptr = 0 then sysHeapAlloc cfg h bytes
  else if bytes = 0 then (sysHeapFree cfg h ptr, 0)
  else
    let (h, ok) := inplaceRealloc cfg h ptr bytes
    if ok then (h, ptr)
    else
      let (h, ptr2) := sysHeapAlloc cfg h bytes
      if ptr2 ≠ 0 then (sysHeapFree cfg h ptr, ptr2) else (h, 0)

def sysHeapAlignedRealloc (h : ZHeap) (ptr align bytes : Nat) : ZHeap × Nat :=
  if ptr = 0 then sysHeapAlignedAlloc cfg h align bytes
  else if bytes = 0 then (sysHeapFree cfg h ptr, 0)
  else
    let (h, ok) := if align = 0 ∨ ptr &&& (align - 1) = 0
      then inplaceRealloc cfg h ptr bytes else (h, false)
    if ok then (h, ptr)
    else
      let (h, ptr2) := sysHeapAlignedAlloc cfg h align bytes
      if ptr2 ≠ 0 then (sysHeapFree cfg h ptr, ptr2) else (h, 0)

-- `oldChunks` and `oldBuckets` stand for whatever the buffer held before.
def sysHeapInit (mem bytes : Nat) (oldChunks : Nat → ChunkHdr) (oldBuckets : Nat → Nat) :
    ZHeap :=
  let bytes := bytes - heapFooterBytes cfg bytes
  let addr := roundUp mem chunkUnit
  let heapSz := (roundDown (mem + bytes) chunkUnit - addr) / chunkUnit
  let h : ZHeap :=
    { base := addr, endChunk := heapSz, availBuckets := 0, buckets := oldBuckets,
      chunks := oldChunks, freeBytes := 0, allocatedBytes := 0, maxAllocatedBytes := 0 }
  let nbBuckets := bucketIdx cfg h heapSz + 1
  let chunk0Size := chunksz (zHeapBytes cfg + nbBuckets * 4) + chunkTrailerSize cfg
  let h := { h with buckets := fun i => if i < nbBuckets then 0 else oldBuckets i }
  let h := setChunkUsed (setLeftChunkSize (setChunkSize h 0 chunk0Size) 0 0) 0 true
  let h := setLeftChunkSize (setChunkSize h chunk0Size (heapSz - chunk0Size)) chunk0Size chunk0Size
  let h := setChunkUsed (setLeftChunkSize (setChunkSize h heapSz 0) heapSz
    (heapSz - chunk0Size)) heapSz true
  freeListAdd cfg h chunk0Size

-- The __ASSERTs and the CHECK of sys_heap_init. min_chunk_size and bucket_idx
-- read only end_chunk of the heap being set up.
def sysHeapInitOk (mem bytes : Nat) : Bool :=
  let maxChunks := if cfg.smallOnly then 0x7fff else 0x7fffffff
  let bytes' := bytes - heapFooterBytes cfg bytes
  let addr := roundUp mem chunkUnit
  let endp := roundDown (mem + bytes') chunkUnit
  let heapSz := (endp - addr) / chunkUnit
  let h : ZHeap :=
    { base := addr, endChunk := heapSz, availBuckets := 0, buckets := fun _ => 0,
      chunks := fun _ => default, freeBytes := 0, allocatedBytes := 0, maxAllocatedBytes := 0 }
  let nbBuckets := bucketIdx cfg h heapSz + 1
  let chunk0Size := chunksz (zHeapBytes cfg + nbBuckets * 4) + chunkTrailerSize cfg
  decide (bytes / chunkUnit ≤ maxChunks) && decide (heapFooterBytes cfg bytes < bytes) &&
    decide (addr < endp) && decide (chunksz (zHeapBytes cfg) < heapSz) &&
    decide (chunk0Size + minChunkSize cfg h ≤ heapSz)

end Ops

end Zephyr.Heap
