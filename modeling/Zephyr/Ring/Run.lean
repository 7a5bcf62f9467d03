import Zephyr.Ring.Fifo

namespace Zephyr.Ring

variable {w : Nat}

-- The calls one thread makes on a ring buffer. A put claim is followed by the
-- producer filling the claimed area from `src`, a get claim by the consumer
-- reading it.
inductive RingOp where
  | putClaim (size : Nat) (src : List UInt8)
  | putFinish (size : Nat)
  | getClaim (size : Nat)
  | getFinish (size : Nat)
  | put (data : List UInt8) (size : Nat)
  | get (size : Nat)
  | peek (size : Nat)
  deriving Repr

-- Each call with what it returns: a size or an error code, and the bytes read.
def RingOp.run (buf : RingBuf w) : RingOp → RingBuf w × Int × List UInt8
  | .putClaim n src =>
    let r := ringBufPutClaim buf n
    ({ r.1 with buffer := writeBytes r.1.buffer r.2.1 (src.take r.2.2) }, r.2.2, [])
  | .putFinish n => let r := ringBufPutFinish buf n; (r.1, r.2, [])
  | .getClaim n => let r := ringBufGetClaim buf n; (r.1, r.2.2, readBytes r.1.buffer r.2.1 r.2.2)
  | .getFinish n => let r := ringBufGetFinish buf n; (r.1, r.2, [])
  | .put d n => let r := ringBufPut buf d n; (r.1, r.2, [])
  | .get n => let r := ringBufGet buf n; (r.1, r.2.1, r.2.2)
  | .peek n => let r := ringBufPeek buf n; (r.1, r.2.1, r.2.2)

-- The same calls on the FIFO of capacity `size`.
def RingOp.apply (size : Nat) (f : Fifo) : RingOp → Fifo × Int × List UInt8
  | .putClaim n src => (f.putClaim size n src, f.putClaimSize size n, [])
  | .putFinish n => let r := f.putFinish n; (r.1, r.2, [])
  | .getClaim n => let r := f.getClaim size n; (r.1, f.getClaimSize size n, r.2)
  | .getFinish n => let r := f.getFinish n; (r.1, r.2, [])
  | .put d n => let r := f.put size d n; (r.1, r.2, [])
  | .get n => let r := f.get n; (r.1, r.2.1, r.2.2)
  | .peek n => let r := f.peek n; (f, r.1, r.2)

-- The caller's side: the producer fills what it claims and passes `size` bytes
-- of data, and the copying calls of a side run with no claim of that side pending.
def RingOp.Legal (f : Fifo) : RingOp → Prop
  | .putClaim n src => n ≤ src.length
  | .put d n => n ≤ d.length ∧ f.pending = []
  | .get _ => f.got = 0
  | .peek _ => f.got = 0
  | _ => True

instance (f : Fifo) (op : RingOp) : Decidable (op.Legal f) := by
  cases op <;> unfold RingOp.Legal <;> infer_instance

def runOps (buf : RingBuf w) : List RingOp → RingBuf w × List (Int × List UInt8)
  | [] => (buf, [])
  | op :: ops =>
    let r := op.run buf
    let rest := runOps r.1 ops
    (rest.1, r.2 :: rest.2)

def Fifo.applyOps (size : Nat) (f : Fifo) : List RingOp → Fifo × List (Int × List UInt8)
  | [] => (f, [])
  | op :: ops =>
    let r := op.apply size f
    let rest := Fifo.applyOps size r.1 ops
    (rest.1, r.2 :: rest.2)

def Fifo.LegalOps (size : Nat) (f : Fifo) : List RingOp → Prop
  | [] => True
  | op :: ops => op.Legal f ∧ Fifo.LegalOps size (op.apply size f).1 ops

instance Fifo.decLegalOps (size : Nat) : (f : Fifo) → (ops : List RingOp) → Decidable (f.LegalOps size ops)
  | _, [] => isTrue trivial
  | f, op :: ops =>
    have := Fifo.decLegalOps size (op.apply size f).1 ops
    inferInstanceAs (Decidable (_ ∧ _))

theorem ringBufPutLoop_size (buf : RingBuf w) (data : List UInt8) (size total : Nat) :
    (ringBufPutLoop buf data size total).1.size = buf.size := by
  fun_induction ringBufPutLoop buf data size total <;> simp_all +zetaDelta

theorem ringBufGetLoop_size (buf : RingBuf w) (size total : Nat) (out : List UInt8) :
    (ringBufGetLoop buf size total out).1.size = buf.size := by
  fun_induction ringBufGetLoop buf size total out <;> simp_all +zetaDelta

-- No call changes the capacity.
theorem RingOp.size_run (buf : RingBuf w) (op : RingOp) : (op.run buf).1.size = buf.size := by
  cases op <;> simp [RingOp.run, ringBufPutClaim, ringBufPutFinish, ringBufGetClaim, ringBufGetFinish,
    ringBufPut, ringBufGet, ringBufPeek, ringBufPutLoop_size, ringBufGetLoop_size]

theorem runOps_size (buf : RingBuf w) (ops : List RingOp) : (runOps buf ops).1.size = buf.size := by
  induction ops generalizing buf with
  | nil => rfl
  | cons op ops ih => simp [runOps, ih, RingOp.size_run]

section Holds

variable {rb : RingBuf w} {v : BitVec w} {f : Fifo}

-- One call: the ring buffer returns what the FIFO returns and keeps holding it.
theorem Holds.run (h : Holds rb v f) (op : RingOp) (hl : op.Legal f) :
    (op.run rb).2 = (op.apply rb.size f).2 ∧ Holds (op.run rb).1 v (op.apply rb.size f).1 := by
  cases op with
  | putClaim n src =>
    obtain ⟨hk, hput⟩ := h.putClaim n src hl
    exact ⟨by simp [RingOp.run, RingOp.apply, hk], hput⟩
  | putFinish n =>
    obtain ⟨he, hfin⟩ := h.putFinish n
    exact ⟨by simp [RingOp.run, RingOp.apply, he], hfin⟩
  | getClaim n =>
    obtain ⟨hk, hread, hget⟩ := h.getClaim n
    rw [hk] at hread
    exact ⟨by simp [RingOp.run, RingOp.apply, hk, hread], hget⟩
  | getFinish n =>
    obtain ⟨he, hfin⟩ := h.getFinish n
    exact ⟨by simp [RingOp.run, RingOp.apply, he], hfin⟩
  | put d n =>
    obtain ⟨he, hput⟩ := h.put hl.2 d n hl.1
    exact ⟨by simp [RingOp.run, RingOp.apply, he], hput⟩
  | get n =>
    obtain ⟨he, hget⟩ := h.get hl n
    exact ⟨by simp [RingOp.run, RingOp.apply, he], hget⟩
  | peek n =>
    obtain ⟨he, hpeek⟩ := h.peek hl n
    exact ⟨by simp [RingOp.run, RingOp.apply, he], hpeek⟩

-- A whole run of legal calls, by induction over the calls.
theorem Holds.runOps (h : Holds rb v f) (ops : List RingOp) (hl : f.LegalOps rb.size ops) :
    (runOps rb ops).2 = (f.applyOps rb.size ops).2 ∧ Holds (runOps rb ops).1 v (f.applyOps rb.size ops).1 := by
  induction ops generalizing rb f with
  | nil => exact ⟨rfl, h⟩
  | cons op ops ih =>
    obtain ⟨hop, hrest⟩ := hl
    obtain ⟨hout, hstep⟩ := h.run op hop
    have hsize := RingOp.size_run rb op
    obtain ⟨ih1, ih2⟩ := ih hstep (by rw [hsize]; exact hrest)
    rw [hsize] at ih1 ih2
    exact ⟨by simp [runOps, Fifo.applyOps, hout, ih1], ih2⟩

end Holds

def Fifo.empty : Fifo := ⟨0, [], 0, []⟩

theorem two_mul_lt_of_le_maxSize {large : Bool} {size : Nat} (h : size ≤ ringBufferMaxSize large) :
    2 * size < 2 ^ idxBits large := by
  have := Nat.two_pow_pos (idxBits large)
  unfold ringBufferMaxSize at h
  omega

theorem ring_buf_refines_fifo (large : Bool) (buf : RingBuf (idxBits large)) (v : BitVec (idxBits large))
    (hsize : buf.size ≤ ringBufferMaxSize large) (ops : List RingOp) (hl : Fifo.empty.LegalOps buf.size ops) :
    let r := runOps (ringBufInternalReset buf v) ops
    let q := Fifo.empty.applyOps buf.size ops
    r.2 = q.2 ∧ ringBufSizeGet r.1 = q.1.data.length - q.1.got ∧
      ringBufSpaceGet r.1 = buf.size - q.1.data.length - q.1.pending.length ∧
      (ringBufIsEmpty r.1 = true ↔ q.1.data.length = q.1.got) := by
  intro r q
  obtain ⟨hout, h⟩ := (holds_reset buf v (two_mul_lt_of_le_maxSize hsize)).runOps ops hl
  refine ⟨hout, h.sizeGet, ?_, h.isEmpty⟩
  rw [h.spaceGet, runOps_size, Fifo.space, Fifo.length_stored, Nat.sub_sub]
  rfl

theorem ring_buf_refines_fifo_wrapping :
    (runOps (ringBufInternalReset (⟨fun _ => 0, ⟨0, 0, 0⟩, ⟨0, 0, 0⟩, 8⟩ : RingBuf 16) 65530)
      [.put [1, 2, 3, 4, 5, 6] 6, .get 4, .put [7, 8, 9, 10, 11] 5, .peek 3, .getClaim 8, .getFinish 2,
        .putClaim 5 [12, 13, 14, 15, 16], .putFinish 3, .get 8]).2 =
      [(6, []), (4, [1, 2, 3, 4]), (5, []), (3, [5, 6, 7]), (4, [5, 6, 7, 8]), (0, []), (3, []), (0, []),
        (8, [7, 8, 9, 10, 11, 12, 13, 14])] :=
  (ring_buf_refines_fifo false _ 65530 (by decide) _ (by decide)).1.trans (by decide)

-- A get claim takes its bytes out of ring_buf_size_get without giving their room
-- back to ring_buf_space_get: after one byte is put into a buffer of 8 and
-- claimed, the buffer reads as empty and no queue length gives both counts.
theorem ring_buf_get_claim_splits_counts :
    let r := (runOps (ringBufInternalReset (⟨fun _ => 0, ⟨0, 0, 0⟩, ⟨0, 0, 0⟩, 8⟩ : RingBuf 16) 0)
      [.put [42] 1, .getClaim 1]).1
    ringBufIsEmpty r = true ∧ ¬ ∃ q, ringBufSizeGet r = q ∧ ringBufSpaceGet r = 8 - q - 0 := by
  intro r
  obtain ⟨-, h⟩ := (holds_reset (⟨fun _ => 0, ⟨0, 0, 0⟩, ⟨0, 0, 0⟩, 8⟩ : RingBuf 16) 0 (by decide)).runOps
    [.put [42] 1, .getClaim 1] (by decide)
  have hs : ringBufSizeGet r = 0 := h.sizeGet.trans (by decide)
  have hp : ringBufSpaceGet r = 7 := by rw [h.spaceGet, runOps_size]; decide
  refine ⟨h.isEmpty.2 (by decide), ?_⟩
  rintro ⟨q, hq1, hq2⟩
  omega

end Zephyr.Ring
