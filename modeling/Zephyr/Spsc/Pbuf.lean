import Mathlib

namespace Zephyr.Spsc

-- LEN_SZ and FREE_SPACE_DISTANCE
def lenSz : Nat := 4

def freeSpaceDistance : Nat := 4

def paddingMark : UInt8 := 0xFF

def spscPbufMaxLen : Nat := 0xFF00

def eInval : Int := 22

def eNoMem : Int := 12

-- A packet buffer with the cache options off: common.len, common.rd_idx and
-- ext.nocache.wr_idx (uint32_t), and data[] as a map from offsets to bytes.
structure SpscPbuf where
  len : Nat
  rdIdx : Nat
  wrIdx : Nat
  data : Nat → UInt8

def roundUp4 (x : Nat) : Nat := (x + 3) / 4 * 4

def memcpy (mem : Nat → UInt8) (off : Nat) (src : Nat → UInt8) (n : Nat) : Nat → UInt8 :=
  fun i => if off ≤ i ∧ i < off + n then src (i - off) else mem i

def sysPutBe16 (mem : Nat → UInt8) (off val : Nat) : Nat → UInt8 :=
  Function.update (Function.update mem off (UInt8.ofNat (val / 256))) (off + 1) (UInt8.ofNat val)

def sysGetBe16 (mem : Nat → UInt8) (off : Nat) : Nat := (mem off).toNat * 256 + (mem (off + 1)).toNat

-- sizeof(struct spsc_pbuf_common) is 12 and sizeof(struct spsc_pbuf_ext_nocache) 4.
def getLen (blen : Nat) : Nat := blen - 12 - 4

def spscPbufInit (blen : Nat) (mem : Nat → UInt8) : SpscPbuf := ⟨getLen blen, 0, 0, mem⟩

-- The granted length (or -EINVAL) and the offset *buf points to in data[]. The
-- padding mark is written, and wr_idx reset, before the length is known.
def spscPbufAlloc (pb : SpscPbuf) (len : Nat) : SpscPbuf × Int × Nat :=
  let space := len + lenSz
  if len = 0 ∨ len > spscPbufMaxLen then (pb, -eInval, 0) else
  let wrIdx := pb.wrIdx
  let rdIdx := pb.rdIdx
  -- the state, wr_idx and free_space after the branch
  let r : SpscPbuf × Nat × Int :=
    if wrIdx ≥ rdIdx then
      let remaining := pb.len - wrIdx
      let space := if len = spscPbufMaxLen then lenSz + 1 else space
      if remaining ≥ space ∨ rdIdx ≤ space then
        (pb, wrIdx, (remaining : Int) - (if rdIdx > 0 then 0 else freeSpaceDistance))
      else
        ({ pb with data := Function.update pb.data wrIdx paddingMark, wrIdx := 0 }, 0,
          (rdIdx : Int) - freeSpaceDistance)
    else (pb, wrIdx, (rdIdx : Int) - wrIdx - freeSpaceDistance)
  (r.1, min (len : Int) (max (r.2.2 - lenSz) 0), r.2.1 + lenSz)

def spscPbufCommit (pb : SpscPbuf) (len : Nat) : SpscPbuf :=
  if len = 0 then pb else
  let wrIdx := pb.wrIdx
  let data := sysPutBe16 pb.data wrIdx len
  let wrIdx := roundUp4 (wrIdx + len + lenSz)
  let wrIdx := if wrIdx = pb.len then 0 else wrIdx
  { pb with data := data, wrIdx := wrIdx }

def spscPbufWrite (pb : SpscPbuf) (buf : Nat → UInt8) (len : Nat) : SpscPbuf × Int :=
  if len ≥ spscPbufMaxLen then (pb, -eInval) else
  let a := spscPbufAlloc pb len
  if a.2.1 ≠ len then (a.1, if a.2.1 < 0 then a.2.1 else -eNoMem) else
  let pb := { a.1 with data := memcpy a.1.data a.2.2 buf len }
  (spscPbufCommit pb len, len)

-- The packet length (0 for none) and the offset *buf points to in data[].
def spscPbufClaim (pb : SpscPbuf) : SpscPbuf × Nat × Nat :=
  let wrIdx := pb.wrIdx
  let rdIdx := pb.rdIdx
  if rdIdx = wrIdx then (pb, 0, 0) else
  if pb.data rdIdx = paddingMark then
    -- wr_idx is loaded again: the producer may not have reset it yet
    if rdIdx = pb.wrIdx then (pb, 0, 0) else
    let pb := { pb with rdIdx := 0 }
    if 0 = wrIdx then (pb, 0, 0) else (pb, sysGetBe16 pb.data 0, lenSz)
  else (pb, sysGetBe16 pb.data rdIdx, rdIdx + lenSz)

def spscPbufFree (pb : SpscPbuf) (len : Nat) : SpscPbuf :=
  -- rd_idx is a uint16_t: the sum and its round-up keep 16 bits
  let rdIdx := (pb.rdIdx + len + lenSz) % 2 ^ 16
  let rdIdx := roundUp4 rdIdx % 2 ^ 16
  let rdIdx :=
    if rdIdx ≠ pb.len then
      if pb.data rdIdx = paddingMark then (if rdIdx ≠ pb.wrIdx then 0 else rdIdx) else rdIdx
    else 0
  { pb with rdIdx := rdIdx }

-- `hasBuf` is buf != NULL; the packet is copied from data[off, off + plen).
def spscPbufRead (pb : SpscPbuf) (hasBuf : Bool) (len : Nat) : SpscPbuf × Int × Nat :=
  let c := spscPbufClaim pb
  if c.2.1 = 0 then (c.1, 0, 0) else
  if !hasBuf then (c.1, c.2.1, c.2.2) else
  if len < c.2.1 then (c.1, -eNoMem, 0) else
  (spscPbufFree c.1 c.2.1, c.2.1, c.2.2)

-- The producer's and the consumer's calls, one after the other.
inductive SpscOp where
  | write (buf : Nat → UInt8) (len : Nat)
  | read (hasBuf : Bool) (len : Nat)

-- Each call with its status or length and, for a read, the packet's offset.
def SpscOp.run (pb : SpscPbuf) : SpscOp → SpscPbuf × Int × Nat
  | .write buf len => let r := spscPbufWrite pb buf len; (r.1, r.2, 0)
  | .read hasBuf len => spscPbufRead pb hasBuf len

def runSpsc (pb : SpscPbuf) : List SpscOp → SpscPbuf × List (Int × Nat)
  | [] => (pb, [])
  | op :: ops =>
    let r := op.run pb
    let rest := runSpsc r.1 ops
    (rest.1, r.2 :: rest.2)

-- The consumer never records a read index of 2^16 or more, whatever the length
-- of the data area.
theorem spscPbufFree_rdIdx_lt (pb : SpscPbuf) (len : Nat) : (spscPbufFree pb len).rdIdx < 2 ^ 16 := by
  have hlt : roundUp4 ((pb.rdIdx + len + lenSz) % 2 ^ 16) % 2 ^ 16 < 2 ^ 16 := Nat.mod_lt _ (by decide)
  unfold spscPbufFree
  dsimp only
  split
  · split
    · split
      · decide
      · exact hlt
    · exact hlt
  · decide

-- A buffer of 65544 data bytes: a packet of 65276 bytes at offset 0 and one of
-- 256 bytes at 65280 are written and both read. Freeing the second computes
-- rd_idx = 65280 + 256 + 4 = 65540 in 16 bits, i.e. 4, not wr_idx = 65540, so a
-- third read finds a packet that was never written: its length is the first two
-- data bytes of the first packet.
theorem spsc_pbuf_free_wraps_rd_idx :
    (runSpsc (spscPbufInit 65560 (fun _ => 0))
      [.write (fun i => if i = 1 then 8 else 0) 65276, .write (fun _ => 1) 256, .read true 65535,
        .read true 65535, .read true 65535]).2 =
      [(65276, 0), (256, 0), (65276, 4), (256, 65284), (8, 8)] := by
  decide +kernel

end Zephyr.Spsc
