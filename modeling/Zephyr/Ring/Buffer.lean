import Zephyr.Lib.Wrap

namespace Zephyr.Ring

-- CONFIG_RING_BUFFER_LARGE selects a 32-bit ring_buf_idx_t.
def idxBits (large : Bool) : Nat := if large then 32 else 16

def ringBufferMaxSize (large : Bool) : Nat := (2 ^ idxBits large - 1) / 2

def eInval : Int := 22

structure RingBufIndex (w : Nat) where
  head : BitVec w
  tail : BitVec w
  base : BitVec w

-- `buffer` maps an offset to the byte stored there; `size` is the capacity.
structure RingBuf (w : Nat) where
  buffer : Nat → UInt8
  put : RingBufIndex w
  get : RingBufIndex w
  size : Nat

variable {w : Nat}

def ringBufInternalReset (buf : RingBuf w) (value : BitVec w) : RingBuf w :=
  { buf with put := ⟨value, value, value⟩, get := ⟨value, value, value⟩ }

def ringBufInit (size : Nat) (data : Nat → UInt8) : RingBuf w :=
  ringBufInternalReset ⟨data, ⟨0, 0, 0⟩, ⟨0, 0, 0⟩, size⟩ 0

def ringBufReset (buf : RingBuf w) : RingBuf w := ringBufInternalReset buf 0

def ringBufCapacityGet (buf : RingBuf w) : Nat := buf.size

-- The ring index after the claim, the offset `*data` points to, and the claimed size.
def ringBufAreaClaim (bufSize : Nat) (ring : RingBufIndex w) (size : Nat) : RingBufIndex w × Nat × Nat :=
  let headOffset := ring.head - ring.base
  -- ring->base is not yet adjusted
  let headOffset := if bufSize ≤ headOffset.toNat then headOffset - (bufSize : BitVec w) else headOffset
  let wrapSize := (bufSize : BitVec w) - headOffset
  let size := min size wrapSize.toNat
  ({ ring with head := ring.head + (size : BitVec w) }, headOffset.toNat, size)

def ringBufAreaFinish (bufSize : Nat) (ring : RingBufIndex w) (size : Nat) : RingBufIndex w × Int :=
  let claimedSize := ring.head - ring.tail
  if claimedSize.toNat < size then (ring, -eInval) else
  let tail := ring.tail + (size : BitVec w)
  let tailOffset := tail - ring.base
  -- we wrapped: adjust ring->base
  let base := if bufSize ≤ tailOffset.toNat then ring.base + (bufSize : BitVec w) else ring.base
  (⟨tail, tail, base⟩, 0)

def ringBufIsEmpty (buf : RingBuf w) : Bool := buf.get.head == buf.put.tail

def ringBufSpaceGet (buf : RingBuf w) : Nat := buf.size - (buf.put.head - buf.get.tail).toNat

def ringBufSizeGet (buf : RingBuf w) : Nat := (buf.put.tail - buf.get.head).toNat

def ringBufPutClaim (buf : RingBuf w) (size : Nat) : RingBuf w × Nat × Nat :=
  let space := ringBufSpaceGet buf
  let r := ringBufAreaClaim buf.size buf.put (min size space)
  ({ buf with put := r.1 }, r.2)

def ringBufPutFinish (buf : RingBuf w) (size : Nat) : RingBuf w × Int :=
  let r := ringBufAreaFinish buf.size buf.put size
  ({ buf with put := r.1 }, r.2)

def ringBufGetClaim (buf : RingBuf w) (size : Nat) : RingBuf w × Nat × Nat :=
  let bufSize := ringBufSizeGet buf
  let r := ringBufAreaClaim buf.size buf.get (min size bufSize)
  ({ buf with get := r.1 }, r.2)

def ringBufGetFinish (buf : RingBuf w) (size : Nat) : RingBuf w × Int :=
  let r := ringBufAreaFinish buf.size buf.get size
  ({ buf with get := r.1 }, r.2)

-- memcpy into and out of the buffer.
def writeBytes (mem : Nat → UInt8) (off : Nat) (src : List UInt8) : Nat → UInt8 :=
  fun i => if off ≤ i ∧ i < off + src.length then src.getD (i - off) 0 else mem i

def readBytes (mem : Nat → UInt8) (off n : Nat) : List UInt8 := (List.range n).map fun i => mem (off + i)

theorem ringBufAreaClaim_le (bufSize : Nat) (ring : RingBufIndex w) (size : Nat) :
    (ringBufAreaClaim bufSize ring size).2.2 ≤ size :=
  min_le_left _ _

theorem ringBufPutClaim_le (buf : RingBuf w) (size : Nat) : (ringBufPutClaim buf size).2.2 ≤ size :=
  (ringBufAreaClaim_le _ _ _).trans (min_le_left _ _)

theorem ringBufGetClaim_le (buf : RingBuf w) (size : Nat) : (ringBufGetClaim buf size).2.2 ≤ size :=
  (ringBufAreaClaim_le _ _ _).trans (min_le_left _ _)

-- The do-while loop of ring_buf_put; it returns the buffer and total_size.
set_option linter.unusedVariables false in
def ringBufPutLoop (buf : RingBuf w) (data : List UInt8) (size total : Nat) : RingBuf w × Nat :=
  let r := ringBufPutClaim buf size
  let partialSize := r.2.2
  if h : partialSize = 0 then (r.1, total) else
  let buf' := { r.1 with buffer := writeBytes r.1.buffer r.2.1 (data.take partialSize) }
  if size - partialSize = 0 then (buf', total + partialSize)
  else ringBufPutLoop buf' (data.drop partialSize) (size - partialSize) (total + partialSize)
termination_by size
decreasing_by
  have hle := ringBufPutClaim_le buf size
  have hne : (ringBufPutClaim buf size).2.2 ≠ 0 := h
  omega

def ringBufPut (buf : RingBuf w) (data : List UInt8) (size : Nat) : RingBuf w × Nat :=
  let r := ringBufPutLoop buf data size 0
  -- the finish cannot fail: __ASSERT_NO_MSG(err == 0)
  ((ringBufPutFinish r.1 r.2).1, r.2)

-- The do-while loop of ring_buf_get and ring_buf_peek, with the bytes it copies
-- (ring_buf_get with data == NULL drops them).
set_option linter.unusedVariables false in
def ringBufGetLoop (buf : RingBuf w) (size total : Nat) (out : List UInt8) :
    RingBuf w × Nat × List UInt8 :=
  let r := ringBufGetClaim buf size
  let partialSize := r.2.2
  if h : partialSize = 0 then (r.1, total, out) else
  let out := out ++ readBytes r.1.buffer r.2.1 partialSize
  if size - partialSize = 0 then (r.1, total + partialSize, out)
  else ringBufGetLoop r.1 (size - partialSize) (total + partialSize) out
termination_by size
decreasing_by
  have hle := ringBufGetClaim_le buf size
  have hne : (ringBufGetClaim buf size).2.2 ≠ 0 := h
  omega

def ringBufGet (buf : RingBuf w) (size : Nat) : RingBuf w × Nat × List UInt8 :=
  let r := ringBufGetLoop buf size 0 []
  ((ringBufGetFinish r.1 r.2.1).1, r.2)

def ringBufPeek (buf : RingBuf w) (size : Nat) : RingBuf w × Nat × List UInt8 :=
  let r := ringBufGetLoop buf size 0 []
  -- effectively unclaim total_size bytes
  ((ringBufGetFinish r.1 0).1, r.2)

end Zephyr.Ring
