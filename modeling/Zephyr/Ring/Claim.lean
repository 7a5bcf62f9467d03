import Zephyr.Ring.Run

namespace Zephyr.Ring

open Zephyr.Lib

variable {w : Nat}

-- A capacity of 0 never lets a byte in, so its FIFO stays empty.
theorem RingOp.apply_zero (op : RingOp) : (op.apply 0 Fifo.empty).1 = Fifo.empty := by
  cases op with
  | putClaim n src => simp [RingOp.apply, Fifo.putClaim, Fifo.putClaimSize, Fifo.space, Fifo.empty]
  | putFinish n => rcases Nat.eq_zero_or_pos n with rfl | hn <;> simp [RingOp.apply, Fifo.putFinish, Fifo.empty, *]
  | getClaim n => simp [RingOp.apply, Fifo.getClaim, Fifo.getClaimSize, Fifo.empty]
  | getFinish n => rcases Nat.eq_zero_or_pos n with rfl | hn <;> simp [RingOp.apply, Fifo.getFinish, Fifo.empty, *]
  | put d n => simp [RingOp.apply, Fifo.put, Fifo.space, Fifo.empty]
  | get n => simp [RingOp.apply, Fifo.get, Fifo.empty]
  | peek n => rfl

theorem Fifo.applyOps_zero (ops : List RingOp) : (Fifo.empty.applyOps 0 ops).1 = Fifo.empty := by
  induction ops with
  | nil => rfl
  | cons op ops ih => simp only [Fifo.applyOps, RingOp.apply_zero, ih]

theorem ringBufPutFinish_inval {buf : RingBuf w} {k : Nat} (hk : (buf.put.head - buf.put.tail).toNat < k) :
    ringBufPutFinish buf k = (buf, -eInval) := by
  unfold ringBufPutFinish
  rw [ringBufAreaFinish_inval hk]

theorem ringBufGetFinish_inval {buf : RingBuf w} {k : Nat} (hk : (buf.get.head - buf.get.tail).toNat < k) :
    ringBufGetFinish buf k = (buf, -eInval) := by
  unfold ringBufGetFinish
  rw [ringBufAreaFinish_inval hk]

section Holds

variable {rb : RingBuf w} {v : BitVec w} {f : Fifo}

-- The area claim of either side from logical position `T + c`, whose base sits at
-- the last multiple of the capacity at or below `T`: the region starts at the
-- position's residue and stops at the end of the storage.
theorem area_region {N T c n : Nat} {ring : RingBufIndex w} (hw : 2 * N < 2 ^ w) (hc : c ≤ N)
    (hT : N = 0 → T + c = 0) (hh : ring.head = v + ((T + c : Nat) : BitVec w))
    (hb : ring.base = v + ((N * (T / N) : Nat) : BitVec w)) :
    (ringBufAreaClaim N ring n).2.1 + (ringBufAreaClaim N ring n).2.2 ≤ N ∧
      ∀ i < (ringBufAreaClaim N ring n).2.2, (ringBufAreaClaim N ring n).2.1 + i = (T + c + i) % N := by
  rcases Nat.eq_zero_or_pos N with rfl | hN
  · have h0 : ring.head = ring.base := by rw [hh, hb, hT rfl]; simp
    simp [ringBufAreaClaim, h0]
  · rw [ringBufAreaClaim_spec hw hN hc hh hb n]
    have hlt := Nat.mod_lt (T + c) hN
    refine ⟨by dsimp only; omega, fun i hi => ?_⟩
    dsimp only at hi ⊢
    exact (add_mod_of_mod_add_lt (t := T + c) (j := i) (by omega)).symm

-- A put claim covers the positions right after the stored bytes.
theorem Holds.putClaim_region (h : Holds rb v f) (hz : rb.size = 0 → f.start = 0) (n : Nat) :
    (ringBufPutClaim rb n).2.1 + (ringBufPutClaim rb n).2.2 ≤ rb.size ∧
      ∀ i < (ringBufPutClaim rb n).2.2,
        (ringBufPutClaim rb n).2.1 + i = (f.start + f.stored.length + i) % rb.size := by
  have hfit := h.fits
  simp only [Fifo.length_stored] at hfit ⊢
  rw [← Nat.add_assoc]
  exact area_region (T := f.start + f.data.length) h.small (by omega) (fun h0 => by have := hz h0; omega)
    h.putHead h.putBase

-- A get claim covers the positions of queued bytes after those already claimed.
theorem Holds.getClaim_region (h : Holds rb v f) (hz : rb.size = 0 → f.start = 0) (n : Nat) :
    (ringBufGetClaim rb n).2.1 + (ringBufGetClaim rb n).2.2 ≤ rb.size ∧
      ∀ i < (ringBufGetClaim rb n).2.2,
        (ringBufGetClaim rb n).2.1 + i = (f.start + f.got + i) % rb.size := by
  have hfit := h.fits
  have hgot := h.gotLe
  simp only [Fifo.length_stored] at hfit
  exact area_region h.small (by omega) (fun h0 => by have := hz h0; omega) h.getHead h.getBase

-- The put claim meets no stored byte: both lie within one period of the storage.
theorem Holds.putClaim_apart (h : Holds rb v f) (hz : rb.size = 0 → f.start = 0) (n : Nat) :
    ∀ i < (ringBufPutClaim rb n).2.2, ∀ j < f.stored.length,
      (ringBufPutClaim rb n).2.1 + i ≠ (f.start + j) % rb.size := by
  intro i hi j hj
  obtain ⟨off, hk, -⟩ := h.putClaim_eq n
  obtain ⟨-, hspace, -⟩ := Fifo.putClaimSize_le rb.size f n
  have hk' : (ringBufPutClaim rb n).2.2 = f.putClaimSize rb.size n := by rw [hk]
  rw [(h.putClaim_region hz n).2 i hi]
  unfold Fifo.space at hspace
  exact (mod_ne_of_lt_of_lt_add (by omega) (by omega)).symm

-- The get claim covers only bytes already put-finished.
theorem Holds.getClaim_le (h : Holds rb v f) (n : Nat) :
    f.got + (ringBufGetClaim rb n).2.2 ≤ f.data.length := by
  obtain ⟨-, hsz, -⟩ := Fifo.getClaimSize_le rb.size f n
  have := h.gotLe
  rw [(h.getClaim n).1]
  omega

end Holds

-- In every state a run of calls reaches from the reset: each claim lies inside
-- the storage, a put claim meets no byte still queued or put-claimed, a get claim
-- covers only put-finished bytes, and a finish beyond the outstanding claim is
-- refused with every index left as it was.
theorem ring_buf_claims_within_storage (large : Bool) (buf : RingBuf (idxBits large))
    (v : BitVec (idxBits large)) (hsize : buf.size ≤ ringBufferMaxSize large) (ops : List RingOp)
    (hl : Fifo.empty.LegalOps buf.size ops) (n k : Nat) :
    let r := (runOps (ringBufInternalReset buf v) ops).1
    let q := (Fifo.empty.applyOps buf.size ops).1
    ((ringBufPutClaim r n).2.1 + (ringBufPutClaim r n).2.2 ≤ buf.size ∧
      ∀ i < (ringBufPutClaim r n).2.2, ∀ j < q.data.length + q.pending.length,
        (ringBufPutClaim r n).2.1 + i ≠ (q.start + j) % buf.size) ∧
    ((ringBufGetClaim r n).2.1 + (ringBufGetClaim r n).2.2 ≤ buf.size ∧
      q.got + (ringBufGetClaim r n).2.2 ≤ q.data.length ∧
      ∀ i < (ringBufGetClaim r n).2.2, (ringBufGetClaim r n).2.1 + i = (q.start + q.got + i) % buf.size) ∧
    (r.put.head - r.put.tail).toNat = q.pending.length ∧ (r.get.head - r.get.tail).toNat = q.got ∧
    ((r.put.head - r.put.tail).toNat < k → ringBufPutFinish r k = (r, -eInval)) ∧
    ((r.get.head - r.get.tail).toNat < k → ringBufGetFinish r k = (r, -eInval)) := by
  intro r q
  obtain ⟨-, h⟩ : _ ∧ Holds r v q := (holds_reset buf v (two_mul_lt_of_le_maxSize hsize)).runOps ops hl
  have hs : r.size = buf.size := runOps_size _ ops
  have hz : r.size = 0 → q.start = 0 := fun h0 => by
    have hq : q = Fifo.empty := by
      show (Fifo.empty.applyOps buf.size ops).1 = Fifo.empty
      rw [← hs, h0, Fifo.applyOps_zero]
    rw [hq]; rfl
  rw [← hs]
  refine ⟨⟨(h.putClaim_region hz n).1, fun i hi j hj => h.putClaim_apart hz n i hi j (by simpa using hj)⟩,
    ⟨(h.getClaim_region hz n).1, h.getClaim_le n, (h.getClaim_region hz n).2⟩, h.putClaimed, h.getClaimed,
    ringBufPutFinish_inval, ringBufGetFinish_inval⟩

theorem ring_buf_claims_within_storage_wrapping :
    let r := (runOps (ringBufInternalReset (⟨fun _ => 0, ⟨0, 0, 0⟩, ⟨0, 0, 0⟩, 8⟩ : RingBuf 16) 65530)
      [.put [1, 2, 3, 4, 5, 6] 6, .get 4, .putClaim 5 [7, 8, 9, 10, 11], .getClaim 1]).1
    (ringBufPutClaim r 4).2.1 + (ringBufPutClaim r 4).2.2 ≤ 8 ∧
      ringBufPutFinish r 3 = (r, -eInval) ∧ ringBufGetFinish r 2 = (r, -eInval) := by
  intro r
  obtain ⟨⟨hclaim, -⟩, -, hput, -, hpf, -⟩ :=
    ring_buf_claims_within_storage false ⟨fun _ => 0, ⟨0, 0, 0⟩, ⟨0, 0, 0⟩, 8⟩ 65530 (by decide)
      [.put [1, 2, 3, 4, 5, 6] 6, .get 4, .putClaim 5 [7, 8, 9, 10, 11], .getClaim 1] (by decide) 4 3
  refine ⟨hclaim, hpf (by rw [hput]; decide), ?_⟩
  obtain ⟨-, -, -, hget, -, hgf⟩ :=
    ring_buf_claims_within_storage false ⟨fun _ => 0, ⟨0, 0, 0⟩, ⟨0, 0, 0⟩, 8⟩ 65530 (by decide)
      [.put [1, 2, 3, 4, 5, 6] 6, .get 4, .putClaim 5 [7, 8, 9, 10, 11], .getClaim 1] (by decide) 4 2
  exact hgf (by rw [hget]; decide)

end Zephyr.Ring
