import Zephyr.Ring.Buffer

namespace Zephyr.Ring

open Zephyr.Lib

variable {w : Nat}

-- An offset less than two periods past a multiple folds back with one subtraction.
theorem mod_add_of_lt {T c N : Nat} (h : T % N + c < 2 * N) :
    (T + c) % N = if T % N + c < N then T % N + c else T % N + c - N := by
  rw [← Nat.mod_add_mod]
  split_ifs with hlt
  · exact Nat.mod_eq_of_lt hlt
  · rw [Nat.mod_eq_sub_mod (by omega), Nat.mod_eq_of_lt (by omega)]

theorem mul_div_add_mod (T N : Nat) : N * (T / N) + T % N = T := Nat.div_add_mod T N

theorem div_add_eq {T k N : Nat} (hN : 0 < N) : (T + k) / N = T / N + (T % N + k) / N := by
  conv_lhs => rw [← Nat.mod_add_div T N]
  rw [show T % N + N * (T / N) + k = (T % N + k) + N * (T / N) by ring, Nat.add_mul_div_left _ _ hN]
  ring

-- ring_buf_area_claim on an index whose base is the last multiple of the
-- capacity at or below its tail: the offset is the head's position modulo the capacity.
theorem ringBufAreaClaim_spec {N T c : Nat} {ring : RingBufIndex w} {v : BitVec w}
    (hw : 2 * N < 2 ^ w) (hN : 0 < N) (hc : c ≤ N)
    (hh : ring.head = v + ((T + c : Nat) : BitVec w)) (hb : ring.base = v + ((N * (T / N) : Nat) : BitVec w))
    (n : Nat) :
    ringBufAreaClaim N ring n =
      ({ ring with head := v + ((T + c + min n (N - (T + c) % N) : Nat) : BitVec w) }, (T + c) % N,
        min n (N - (T + c) % N)) := by
  have hT := mul_div_add_mod T N
  have hm := Nat.mod_lt T hN
  have hoff : (ring.head - ring.base).toNat = T % N + c := by
    rw [hh, hb, toNat_add_natCast_sub v (by omega) (by omega)]; omega
  have hmod := mod_add_of_lt (T := T) (c := c) (N := N) (by omega)
  -- the offset after the conditional subtraction
  have hoff' : (if N ≤ (ring.head - ring.base).toNat then ring.head - ring.base - (N : BitVec w)
      else ring.head - ring.base) = (((T + c) % N : Nat) : BitVec w) := by
    rw [hoff, hmod]
    split_ifs with h1 h2 h2
    · omega
    · rw [← BitVec.toNat_inj, BitVec.toNat_sub, hoff, toNat_natCast_of_lt (by omega),
        toNat_natCast_of_lt (by omega)]
      rw [show 2 ^ w - N + (T % N + c) = (T % N + c - N) + 2 ^ w by omega, Nat.add_mod_right,
        Nat.mod_eq_of_lt (by omega)]
    · rw [← BitVec.toNat_inj, hoff, toNat_natCast_of_lt (by omega)]
    · omega
  have hlt : (T + c) % N < N := Nat.mod_lt _ hN
  have hwrap : ((N : BitVec w) - (((T + c) % N : Nat) : BitVec w)).toNat = N - (T + c) % N := by
    rw [← Nat.cast_sub hlt.le, toNat_natCast_of_lt (by omega)]
  unfold ringBufAreaClaim
  simp only [hoff']
  rw [hwrap, toNat_natCast_of_lt (by omega : (T + c) % N < 2 ^ w), hh, add_natCast_add]

-- ring_buf_area_finish within the claim: the tail moves on, the head comes back
-- to it, and the base is again the last multiple of the capacity below the tail.
theorem ringBufAreaFinish_spec {N T c k : Nat} {ring : RingBufIndex w} {v : BitVec w}
    (hw : 2 * N < 2 ^ w) (hc : c ≤ N) (hk : k ≤ c)
    (ht : ring.tail = v + (T : BitVec w)) (hh : ring.head = v + ((T + c : Nat) : BitVec w))
    (hb : ring.base = v + ((N * (T / N) : Nat) : BitVec w)) :
    ringBufAreaFinish N ring k =
      (⟨v + ((T + k : Nat) : BitVec w), v + ((T + k : Nat) : BitVec w),
        v + ((N * ((T + k) / N) : Nat) : BitVec w)⟩, 0) := by
  have hcl : (ring.head - ring.tail).toNat = c := by
    rw [hh, ht, toNat_add_natCast_sub v (by omega) (by omega)]; omega
  unfold ringBufAreaFinish
  rw [if_neg (by rw [hcl]; omega)]
  simp only [ht, add_natCast_add, hb]
  rcases Nat.eq_zero_or_pos N with rfl | hN
  · simp
  have hT := mul_div_add_mod T N
  have hm := Nat.mod_lt T hN
  have hsub : T + k - N * (T / N) = T % N + k := by omega
  rw [toNat_add_natCast_sub v (by omega) (by omega), div_add_eq hN, hsub]
  congr 2
  split_ifs with h
  · rw [Nat.div_eq_of_lt_le (m := T % N + k) (k := 1) (by omega) (by omega), Nat.mul_add, Nat.mul_one]
  · rw [Nat.div_eq_of_lt_le (m := T % N + k) (k := 0) (by omega) (by omega), Nat.add_zero]

theorem ringBufAreaFinish_inval {bufSize k : Nat} {ring : RingBufIndex w}
    (hk : (ring.head - ring.tail).toNat < k) : ringBufAreaFinish bufSize ring k = (ring, -eInval) := by
  unfold ringBufAreaFinish
  rw [if_pos hk]

theorem ringBufAreaClaim_zero (bufSize : Nat) (ring : RingBufIndex w) :
    (ringBufAreaClaim bufSize ring 0).1 = ring ∧ (ringBufAreaClaim bufSize ring 0).2.2 = 0 := by
  unfold ringBufAreaClaim
  simp

-- Writing `L` at the residue of `t`, within one period: position `t + j` reads `L[j]`.
theorem writeBytes_mod_hit (mem : Nat → UInt8) {N t j : Nat} {L : List UInt8}
    (hfit : t % N + L.length ≤ N) (hj : j < L.length) :
    writeBytes mem (t % N) L ((t + j) % N) = L[j] := by
  rw [add_mod_of_mod_add_lt (by omega)]
  unfold writeBytes
  rw [if_pos (by omega), Nat.add_sub_cancel_left]
  simp [List.getD_eq_getElem?_getD, hj]

-- A position less than one period before `t` keeps its byte.
theorem writeBytes_mod_miss (mem : Nat → UInt8) {N t p : Nat} {L : List UInt8}
    (hfit : t % N + L.length ≤ N) (hp : p < t) (hpt : t + L.length ≤ p + N) :
    writeBytes mem (t % N) L (p % N) = mem (p % N) := by
  unfold writeBytes
  rw [if_neg]
  rintro ⟨h1, h2⟩
  have hq : (t + (p % N - t % N)) % N = p % N := by
    rw [add_mod_of_mod_add_lt (by omega)]; omega
  exact mod_ne_of_lt_of_lt_add (by omega) (by omega) hq.symm

-- The byte FIFO the ring buffer implements. `start` bytes have been get-finished
-- since the reset; `data` are the bytes put-finished and not get-finished, oldest
-- first, the first `got` of them get-claimed; `pending` are the bytes written
-- into the put claim and not finished.
structure Fifo where
  start : Nat
  data : List UInt8
  got : Nat
  pending : List UInt8

namespace Fifo

variable (size : Nat) (f : Fifo)

-- The storage from `start` on, in ring order.
def stored : List UInt8 := f.data ++ f.pending

def space : Nat := size - f.stored.length

-- The room left before the end of the storage from logical position `p`: a
-- claimed area is contiguous.
def contiguous (p : Nat) : Nat := size - p % size

def putClaimSize (n : Nat) : Nat := min (min n (f.space size)) (contiguous size (f.start + f.stored.length))

def getClaimSize (n : Nat) : Nat := min (min n (f.data.length - f.got)) (contiguous size (f.start + f.got))

-- A put claim the producer fills from `src`.
def putClaim (n : Nat) (src : List UInt8) : Fifo := { f with pending := f.pending ++ src.take (f.putClaimSize size n) }

def putFinish (k : Nat) : Fifo × Int :=
  if f.pending.length < k then (f, -eInval) else ({ f with data := f.data ++ f.pending.take k, pending := [] }, 0)

-- A get claim and the bytes the consumer reads through it.
def getClaim (n : Nat) : Fifo × List UInt8 :=
  ({ f with got := f.got + f.getClaimSize size n }, (f.data.drop f.got).take (f.getClaimSize size n))

def getFinish (k : Nat) : Fifo × Int :=
  if f.got < k then (f, -eInval) else (⟨f.start + k, f.data.drop k, 0, f.pending⟩, 0)

-- The copying calls, made with no claim of their own side pending.
def put (d : List UInt8) (n : Nat) : Fifo × Nat :=
  ({ f with data := f.data ++ d.take (min n (f.space size)) }, min n (f.space size))

def get (n : Nat) : Fifo × Nat × List UInt8 :=
  (⟨f.start + min n f.data.length, f.data.drop (min n f.data.length), 0, f.pending⟩, min n f.data.length,
    f.data.take (min n f.data.length))

def peek (n : Nat) : Nat × List UInt8 := (min n f.data.length, f.data.take (min n f.data.length))

theorem putClaimSize_le (n : Nat) :
    f.putClaimSize size n ≤ n ∧ f.putClaimSize size n ≤ f.space size ∧
      f.putClaimSize size n ≤ contiguous size (f.start + f.stored.length) := by
  unfold putClaimSize; omega

theorem getClaimSize_le (n : Nat) :
    f.getClaimSize size n ≤ n ∧ f.getClaimSize size n ≤ f.data.length - f.got ∧
      f.getClaimSize size n ≤ contiguous size (f.start + f.got) := by
  unfold getClaimSize; omega

-- A claim comes back empty only when nothing was asked for or nothing is left:
-- the wrap point never stops a claim at its start.
theorem contiguous_pos {size : Nat} (hN : 0 < size) (p : Nat) : 0 < contiguous size p := by
  have := Nat.mod_lt p hN
  unfold contiguous; omega

theorem putClaimSize_eq_zero {n : Nat} (hk : f.putClaimSize size n = 0) : min n (f.space size) = 0 := by
  rcases Nat.eq_zero_or_pos size with rfl | hN
  · simp [space]
  · have := contiguous_pos hN (f.start + f.stored.length)
    unfold putClaimSize at hk; omega

theorem getClaimSize_eq_zero {n : Nat} (hfit : f.data.length ≤ size) (hk : f.getClaimSize size n = 0) :
    min n (f.data.length - f.got) = 0 := by
  rcases Nat.eq_zero_or_pos size with rfl | hN
  · omega
  · have := contiguous_pos hN (f.start + f.got)
    unfold getClaimSize at hk; omega

end Fifo

-- `rb` holds `f` relative to the reset value `v`: each index is `v` plus a logical
-- position, each base is the last multiple of the capacity at or below its tail,
-- and the storage holds the bytes of `f` at their positions modulo the capacity.
structure Holds (rb : RingBuf w) (v : BitVec w) (f : Fifo) : Prop where
  small : 2 * rb.size < 2 ^ w
  fits : f.stored.length ≤ rb.size
  gotLe : f.got ≤ f.data.length
  getTail : rb.get.tail = v + (f.start : BitVec w)
  getHead : rb.get.head = v + ((f.start + f.got : Nat) : BitVec w)
  getBase : rb.get.base = v + ((rb.size * (f.start / rb.size) : Nat) : BitVec w)
  putTail : rb.put.tail = v + ((f.start + f.data.length : Nat) : BitVec w)
  putHead : rb.put.head = v + ((f.start + f.data.length + f.pending.length : Nat) : BitVec w)
  putBase : rb.put.base = v + ((rb.size * ((f.start + f.data.length) / rb.size) : Nat) : BitVec w)
  bytes : ∀ i (hi : i < f.stored.length), rb.buffer ((f.start + i) % rb.size) = f.stored[i]

theorem holds_reset (rb : RingBuf w) (v : BitVec w) (hw : 2 * rb.size < 2 ^ w) :
    Holds (ringBufInternalReset rb v) v ⟨0, [], 0, []⟩ where
  small := hw
  fits := by simp [Fifo.stored]
  gotLe := le_rfl
  getTail := by simp [ringBufInternalReset]
  getHead := by simp [ringBufInternalReset]
  getBase := by simp [ringBufInternalReset]
  putTail := by simp [ringBufInternalReset]
  putHead := by simp [ringBufInternalReset]
  putBase := by simp [ringBufInternalReset]
  bytes := fun i hi => absurd hi (by simp [Fifo.stored])

@[simp] theorem Fifo.length_stored (f : Fifo) : f.stored.length = f.data.length + f.pending.length := by
  simp [Fifo.stored]

section Holds

variable {rb : RingBuf w} {v : BitVec w} {f : Fifo}

theorem Holds.sizeGet (h : Holds rb v f) : ringBufSizeGet rb = f.data.length - f.got := by
  have := h.gotLe; have := h.fits; have := h.small
  unfold ringBufSizeGet
  rw [h.putTail, h.getHead, toNat_add_natCast_sub v (by omega) (by simp at *; omega)]
  omega

theorem Holds.spaceGet (h : Holds rb v f) : ringBufSpaceGet rb = f.space rb.size := by
  have := h.fits; have := h.small
  unfold ringBufSpaceGet Fifo.space
  rw [h.putHead, h.getTail, toNat_add_natCast_sub v (by omega) (by simp at *; omega)]
  simp only [Fifo.length_stored]
  omega

theorem Holds.isEmpty (h : Holds rb v f) : ringBufIsEmpty rb = true ↔ f.data.length = f.got := by
  have hs := h.sizeGet
  have := h.gotLe
  unfold ringBufSizeGet at hs
  unfold ringBufIsEmpty
  rw [beq_iff_eq]
  constructor
  · intro he; rw [he] at hs; simp at hs; omega
  · intro h0
    have h1 := BitVec.eq_of_toNat_eq (x := rb.put.tail - rb.get.head) (y := 0) (by rw [hs, h0, Nat.sub_self]; simp)
    exact (sub_eq_zero.1 h1).symm

theorem Holds.putHead_stored (h : Holds rb v f) :
    rb.put.head = v + ((f.start + f.stored.length : Nat) : BitVec w) := by
  rw [h.putHead, Fifo.length_stored, Nat.add_assoc]

-- ring_buf_put_claim: the claim starts at the end of the storage and is cut at
-- the free space and at the wrap point.
theorem Holds.putClaim_eq (h : Holds rb v f) (n : Nat) :
    ∃ off, ringBufPutClaim rb n =
      ({ rb with put := { rb.put with head := v + ((f.start + f.stored.length + f.putClaimSize rb.size n : Nat) : BitVec w) } },
        off, f.putClaimSize rb.size n) ∧
      (0 < f.putClaimSize rb.size n → off = (f.start + f.stored.length) % rb.size) := by
  unfold ringBufPutClaim
  dsimp only
  rw [h.spaceGet]
  rcases Nat.eq_zero_or_pos (min n (f.space rb.size)) with hm | hm
  · -- nothing to claim: the index is unchanged
    have hk : f.putClaimSize rb.size n = 0 := by simp [Fifo.putClaimSize, hm]
    obtain ⟨h1, h2⟩ := ringBufAreaClaim_zero rb.size rb.put
    refine ⟨(ringBufAreaClaim rb.size rb.put 0).2.1, ?_, by omega⟩
    rw [hm, hk, Nat.add_zero, ← h.putHead_stored, h1, Prod.mk.injEq, Prod.mk.injEq]
    exact ⟨rfl, rfl, h2⟩
  · have hN : 0 < rb.size := by unfold Fifo.space at hm; omega
    have hTc : f.start + f.data.length + f.pending.length = f.start + f.stored.length := by simp; omega
    rw [ringBufAreaClaim_spec h.small hN (by have := h.fits; simp at this; omega) h.putHead h.putBase, hTc]
    exact ⟨_, rfl, fun _ => rfl⟩

-- ring_buf_get_claim: the claim starts after the bytes already claimed and is
-- cut at the queue's end and at the wrap point.
theorem Holds.getClaim_eq (h : Holds rb v f) (n : Nat) :
    ∃ off, ringBufGetClaim rb n =
      ({ rb with get := { rb.get with head := v + ((f.start + f.got + f.getClaimSize rb.size n : Nat) : BitVec w) } },
        off, f.getClaimSize rb.size n) ∧
      (0 < f.getClaimSize rb.size n → off = (f.start + f.got) % rb.size) := by
  unfold ringBufGetClaim
  dsimp only
  rw [h.sizeGet]
  rcases Nat.eq_zero_or_pos (min n (f.data.length - f.got)) with hm | hm
  · have hk : f.getClaimSize rb.size n = 0 := by simp [Fifo.getClaimSize, hm]
    obtain ⟨h1, h2⟩ := ringBufAreaClaim_zero rb.size rb.get
    refine ⟨(ringBufAreaClaim rb.size rb.get 0).2.1, ?_, by omega⟩
    rw [hm, hk, Nat.add_zero, ← h.getHead, h1, Prod.mk.injEq, Prod.mk.injEq]
    exact ⟨rfl, rfl, h2⟩
  · have hN : 0 < rb.size := by have := h.fits; simp at this; omega
    rw [ringBufAreaClaim_spec h.small hN (by have := h.fits; have := h.gotLe; simp at *; omega) h.getHead h.getBase]
    exact ⟨_, rfl, fun _ => rfl⟩

@[simp] theorem Fifo.stored_append (L : List UInt8) :
    ({ f with pending := f.pending ++ L } : Fifo).stored = f.stored ++ L := by
  simp [Fifo.stored]

-- Writing at the end of the storage, within the free space and before the wrap
-- point, extends the pending bytes.
theorem Holds.append (h : Holds rb v f) {L : List UInt8} (hfit : f.stored.length + L.length ≤ rb.size)
    (hwrap : (f.start + f.stored.length) % rb.size + L.length ≤ rb.size) :
    Holds { rb with
        buffer := writeBytes rb.buffer ((f.start + f.stored.length) % rb.size) L,
        put := { rb.put with head := v + ((f.start + f.stored.length + L.length : Nat) : BitVec w) } } v
      { f with pending := f.pending ++ L } where
  small := h.small
  fits := by simpa using hfit
  gotLe := h.gotLe
  getTail := h.getTail
  getHead := h.getHead
  getBase := h.getBase
  putTail := h.putTail
  putHead := by simp only [Fifo.length_stored, List.length_append]; congr 2; omega
  putBase := h.putBase
  bytes := fun i hi => by
    dsimp only
    simp only [Fifo.stored_append]
    by_cases hi' : i < f.stored.length
    · -- an old byte lies less than one period before the write
      rw [writeBytes_mod_miss _ hwrap (by omega) (by omega), List.getElem_append_left hi']
      exact h.bytes i hi'
    · obtain ⟨j, rfl⟩ : ∃ j, i = f.stored.length + j := ⟨i - f.stored.length, by omega⟩
      have hj : j < L.length := by simp at hi; omega
      rw [← Nat.add_assoc, writeBytes_mod_hit _ hwrap hj, List.getElem_append_right (by omega)]
      simp

theorem Holds.putClaimed (h : Holds rb v f) : (rb.put.head - rb.put.tail).toNat = f.pending.length := by
  have := h.fits; have := h.small
  rw [h.putHead, h.putTail, toNat_add_natCast_sub v (by omega) (by simp at *; omega)]
  omega

theorem Holds.getClaimed (h : Holds rb v f) : (rb.get.head - rb.get.tail).toNat = f.got := by
  have := h.fits; have := h.small; have := h.gotLe
  rw [h.getHead, h.getTail, toNat_add_natCast_sub v (by omega) (by simp at *; omega)]
  omega

@[simp] theorem ringBufPutClaim_size (buf : RingBuf w) (n : Nat) : (ringBufPutClaim buf n).1.size = buf.size := rfl

@[simp] theorem ringBufPutClaim_buffer (buf : RingBuf w) (n : Nat) :
    (ringBufPutClaim buf n).1.buffer = buf.buffer := rfl

@[simp] theorem ringBufGetClaim_size (buf : RingBuf w) (n : Nat) : (ringBufGetClaim buf n).1.size = buf.size := rfl

@[simp] theorem ringBufGetClaim_buffer (buf : RingBuf w) (n : Nat) :
    (ringBufGetClaim buf n).1.buffer = buf.buffer := rfl

@[simp] theorem ringBufPutFinish_size (buf : RingBuf w) (n : Nat) : (ringBufPutFinish buf n).1.size = buf.size := rfl

@[simp] theorem ringBufGetFinish_size (buf : RingBuf w) (n : Nat) : (ringBufGetFinish buf n).1.size = buf.size := rfl

theorem writeBytes_nil (mem : Nat → UInt8) (off : Nat) : writeBytes mem off [] = mem := by
  funext i; simp [writeBytes]

-- ring_buf_put_claim, with the producer filling the claimed area from `src`.
theorem Holds.putClaim (h : Holds rb v f) (n : Nat) (src : List UInt8) (hn : n ≤ src.length) :
    (ringBufPutClaim rb n).2.2 = f.putClaimSize rb.size n ∧
    Holds { (ringBufPutClaim rb n).1 with
        buffer := writeBytes rb.buffer (ringBufPutClaim rb n).2.1 (src.take (ringBufPutClaim rb n).2.2) } v
      (f.putClaim rb.size n src) := by
  obtain ⟨off, heq, hoff⟩ := h.putClaim_eq n
  obtain ⟨hk1, hk2, hk3⟩ := Fifo.putClaimSize_le rb.size f n
  rw [heq]
  refine ⟨rfl, ?_⟩
  unfold Fifo.putClaim
  rcases Nat.eq_zero_or_pos (f.putClaimSize rb.size n) with h0 | hpos
  · -- nothing claimed, nothing written
    simp only [h0, List.take_zero, writeBytes_nil, List.append_nil, Nat.add_zero, ← h.putHead_stored]
    exact h
  · have hL : (src.take (f.putClaimSize rb.size n)).length = f.putClaimSize rb.size n := by simp; omega
    have hN : 0 < rb.size := by unfold Fifo.space at hk2; omega
    have hmod := Nat.mod_lt (f.start + f.stored.length) hN
    have h' := h.append (L := src.take (f.putClaimSize rb.size n))
      (by unfold Fifo.space at hk2; have := h.fits; omega) (by unfold Fifo.contiguous at hk3; omega)
    rw [hL] at h'
    rw [hoff hpos]
    exact h'

-- Claiming `k` more bytes on the get side.
theorem Holds.advanceGot (h : Holds rb v f) {k : Nat} (hk : f.got + k ≤ f.data.length) :
    Holds { rb with get := { rb.get with head := v + ((f.start + f.got + k : Nat) : BitVec w) } } v
      { f with got := f.got + k } where
  small := h.small
  fits := h.fits
  gotLe := hk
  getTail := h.getTail
  getHead := by dsimp only; rw [Nat.add_assoc]
  getBase := h.getBase
  putTail := h.putTail
  putHead := h.putHead
  putBase := h.putBase
  bytes := h.bytes

-- The bytes a get claim exposes are the next bytes of the queue.
theorem Holds.readBytes_queue (h : Holds rb v f) {k : Nat} (hk : f.got + k ≤ f.data.length)
    (hwrap : (f.start + f.got) % rb.size + k ≤ rb.size) :
    readBytes rb.buffer ((f.start + f.got) % rb.size) k = (f.data.drop f.got).take k := by
  apply List.ext_getElem
  · simp [readBytes]; omega
  · intro i h1 h2
    have hi : i < k := by simpa [readBytes] using h1
    have hq : f.got + i < f.stored.length := by simp; omega
    simp only [readBytes, List.getElem_map, List.getElem_range, List.getElem_take, List.getElem_drop]
    rw [← add_mod_of_mod_add_lt (by omega), Nat.add_assoc, h.bytes _ hq]
    simp only [Fifo.stored, List.getElem_append_left (show f.got + i < f.data.length by omega)]

-- ring_buf_get_claim, with the consumer reading the claimed area.
theorem Holds.getClaim (h : Holds rb v f) (n : Nat) :
    (ringBufGetClaim rb n).2.2 = f.getClaimSize rb.size n ∧
    readBytes rb.buffer (ringBufGetClaim rb n).2.1 (ringBufGetClaim rb n).2.2 = (f.getClaim rb.size n).2 ∧
    Holds (ringBufGetClaim rb n).1 v (f.getClaim rb.size n).1 := by
  obtain ⟨off, heq, hoff⟩ := h.getClaim_eq n
  obtain ⟨hk1, hk2, hk3⟩ := Fifo.getClaimSize_le rb.size f n
  rw [heq]
  refine ⟨rfl, ?_, h.advanceGot (by have := h.gotLe; omega)⟩
  unfold Fifo.getClaim
  rcases Nat.eq_zero_or_pos (f.getClaimSize rb.size n) with h0 | hpos
  · simp [h0, readBytes]
  · have hN : 0 < rb.size := by
      rcases Nat.eq_zero_or_pos rb.size with h1 | h1
      · unfold Fifo.contiguous at hk3; omega
      · exact h1
    have hmod := Nat.mod_lt (f.start + f.got) hN
    dsimp only
    rw [hoff hpos, h.readBytes_queue (by have := h.gotLe; omega) (by unfold Fifo.contiguous at hk3; omega)]

-- Finishing `k` pending bytes on the put side commits them and drops the rest of the claim.
theorem Holds.commit (h : Holds rb v f) {k : Nat} (hk : k ≤ f.pending.length) :
    Holds { rb with put := ⟨v + ((f.start + f.data.length + k : Nat) : BitVec w),
        v + ((f.start + f.data.length + k : Nat) : BitVec w),
        v + ((rb.size * ((f.start + f.data.length + k) / rb.size) : Nat) : BitVec w)⟩ } v
      { f with data := f.data ++ f.pending.take k, pending := [] } where
  small := h.small
  fits := by have := h.fits; simp at *; omega
  gotLe := by have := h.gotLe; simp; omega
  getTail := h.getTail
  getHead := h.getHead
  getBase := h.getBase
  putTail := by simp [Nat.min_eq_left hk, Nat.add_assoc]
  putHead := by simp [Nat.min_eq_left hk, Nat.add_assoc]
  putBase := by simp [Nat.min_eq_left hk, Nat.add_assoc]
  bytes := fun i hi => by
    have hi' : i < f.stored.length := by simp at hi ⊢; omega
    have hb := h.bytes i hi'
    simp only [Fifo.stored, List.append_nil] at hb ⊢
    rw [hb]
    simp [List.getElem_append]

-- Finishing `k` get-claimed bytes removes them from the queue and drops the rest of the claim.
theorem Holds.release (h : Holds rb v f) {k : Nat} (hk : k ≤ f.got) :
    Holds { rb with get := ⟨v + ((f.start + k : Nat) : BitVec w), v + ((f.start + k : Nat) : BitVec w),
        v + ((rb.size * ((f.start + k) / rb.size) : Nat) : BitVec w)⟩ } v
      ⟨f.start + k, f.data.drop k, 0, f.pending⟩ where
  small := h.small
  fits := by have := h.fits; simp at *; omega
  gotLe := Nat.zero_le _
  getTail := rfl
  getHead := rfl
  getBase := rfl
  putTail := by
    have hD : f.start + k + (f.data.drop k).length = f.start + f.data.length := by have := h.gotLe; simp; omega
    rw [hD]; exact h.putTail
  putHead := by
    have hD : f.start + k + (f.data.drop k).length = f.start + f.data.length := by have := h.gotLe; simp; omega
    rw [hD]; exact h.putHead
  putBase := by
    have hD : f.start + k + (f.data.drop k).length = f.start + f.data.length := by have := h.gotLe; simp; omega
    rw [hD]; exact h.putBase
  bytes := fun i hi => by
    have hkD : k ≤ f.data.length := by have := h.gotLe; omega
    have hi' : k + i < f.stored.length := by simp at hi ⊢; omega
    have hb := h.bytes (k + i) hi'
    simp only [Fifo.stored, ← List.drop_append_of_le_length hkD, List.getElem_drop]
    rw [Nat.add_assoc]
    exact hb

-- ring_buf_put_finish: `k` within the claim commits, a larger `k` is refused.
theorem Holds.putFinish (h : Holds rb v f) (k : Nat) :
    (ringBufPutFinish rb k).2 = (f.putFinish k).2 ∧ Holds (ringBufPutFinish rb k).1 v (f.putFinish k).1 := by
  unfold ringBufPutFinish Fifo.putFinish
  dsimp only
  by_cases hk : f.pending.length < k
  · rw [ringBufAreaFinish_inval (by rw [h.putClaimed]; exact hk), if_pos hk]
    exact ⟨rfl, h⟩
  · have hc : f.pending.length ≤ rb.size := by have := h.fits; simp at this; omega
    rw [ringBufAreaFinish_spec h.small hc (not_lt.1 hk) h.putTail h.putHead h.putBase, if_neg hk]
    exact ⟨rfl, h.commit (not_lt.1 hk)⟩

-- ring_buf_get_finish: `k` within the claim releases, a larger `k` is refused.
theorem Holds.getFinish (h : Holds rb v f) (k : Nat) :
    (ringBufGetFinish rb k).2 = (f.getFinish k).2 ∧ Holds (ringBufGetFinish rb k).1 v (f.getFinish k).1 := by
  unfold ringBufGetFinish Fifo.getFinish
  dsimp only
  by_cases hk : f.got < k
  · rw [ringBufAreaFinish_inval (by rw [h.getClaimed]; exact hk), if_pos hk]
    exact ⟨rfl, h⟩
  · have hc : f.got ≤ rb.size := by have h1 := h.fits; have := h.gotLe; simp at h1; omega
    rw [ringBufAreaFinish_spec h.small hc (not_lt.1 hk) h.getTail h.getHead h.getBase, if_neg hk]
    exact ⟨rfl, h.release (not_lt.1 hk)⟩

-- The loop of ring_buf_put: claim after claim, each filled from the data, until
-- the size is copied or the space is used up.
theorem Holds.putLoop (h : Holds rb v f) (data : List UInt8) (size total : Nat) (hd : size ≤ data.length) :
    (ringBufPutLoop rb data size total).2 = total + min size (f.space rb.size) ∧
    Holds (ringBufPutLoop rb data size total).1 v
      { f with pending := f.pending ++ data.take (min size (f.space rb.size)) } := by
  induction size using Nat.strong_induction_on generalizing rb f data total with
  | _ size ih =>
  obtain ⟨hk1, hk2, hk3⟩ := Fifo.putClaimSize_le rb.size f size
  obtain ⟨hk, hput⟩ := h.putClaim size data hd
  rw [hk] at hput
  rw [ringBufPutLoop]
  simp only [hk]
  split_ifs with h0 hrest
  · -- nothing claimed: no space left, or nothing asked for
    unfold Fifo.putClaim at hput
    rw [h0, List.take_zero, writeBytes_nil] at hput
    rw [Fifo.putClaimSize_eq_zero rb.size f h0, List.take_zero]
    exact ⟨rfl, hput⟩
  · -- the claim took the rest of the data
    have hm : min size (f.space rb.size) = f.putClaimSize rb.size size := by omega
    rw [hm]
    exact ⟨rfl, hput⟩
  · -- the claim stopped at the wrap point: the loop goes on from the start of the storage
    have hL : (data.take (f.putClaimSize rb.size size)).length = f.putClaimSize rb.size size := by
      simp; omega
    have hsp : (f.putClaim rb.size size data).space rb.size = f.space rb.size - f.putClaimSize rb.size size := by
      unfold Fifo.space Fifo.putClaim
      rw [Fifo.stored_append, List.length_append, hL]
      omega
    obtain ⟨ih1, ih2⟩ := ih (size - f.putClaimSize rb.size size) (by omega) hput
      (data.drop (f.putClaimSize rb.size size)) (total + f.putClaimSize rb.size size) (by simp; omega)
    dsimp only at ih1 ih2
    simp only [ringBufPutClaim_size, hsp] at ih1 ih2
    simp only [ringBufPutClaim_size, ringBufPutClaim_buffer]
    have hm : f.putClaimSize rb.size size +
        min (size - f.putClaimSize rb.size size) (f.space rb.size - f.putClaimSize rb.size size) =
        min size (f.space rb.size) := by omega
    refine ⟨by rw [ih1]; omega, ?_⟩
    rw [← hm, List.take_add]
    simpa [Fifo.putClaim, List.append_assoc] using ih2

-- The loop of ring_buf_get and ring_buf_peek: claim after claim, each read out,
-- until the size is read or the queue is used up.
theorem Holds.getLoop (h : Holds rb v f) (size total : Nat) (out : List UInt8) :
    (ringBufGetLoop rb size total out).2 =
      (total + min size (f.data.length - f.got),
        out ++ (f.data.drop f.got).take (min size (f.data.length - f.got))) ∧
    Holds (ringBufGetLoop rb size total out).1 v
      { f with got := f.got + min size (f.data.length - f.got) } := by
  induction size using Nat.strong_induction_on generalizing rb f total out with
  | _ size ih =>
  obtain ⟨hk1, hk2, hk3⟩ := Fifo.getClaimSize_le rb.size f size
  obtain ⟨hk, hread, hget⟩ := h.getClaim size
  rw [hk] at hread
  unfold Fifo.getClaim at hread hget
  rw [ringBufGetLoop]
  simp only [hk, ringBufGetClaim_buffer, hread]
  split_ifs with h0 hrest
  · -- nothing claimed: the queue is used up, or nothing asked for
    have hm := Fifo.getClaimSize_eq_zero rb.size f (by have h1 := h.fits; simp at h1; omega) h0
    rw [h0] at hget
    rw [hm]
    exact ⟨by simp, hget⟩
  · -- the claim took the rest of the size
    have hm : min size (f.data.length - f.got) = f.getClaimSize rb.size size := by omega
    rw [hm]
    exact ⟨rfl, hget⟩
  · -- the claim stopped at the wrap point: the loop goes on from the start of the storage
    obtain ⟨ih1, ih2⟩ := ih (size - f.getClaimSize rb.size size) (by omega) hget
      (total + f.getClaimSize rb.size size) (out ++ (f.data.drop f.got).take (f.getClaimSize rb.size size))
    have hm : f.getClaimSize rb.size size +
        min (size - f.getClaimSize rb.size size) (f.data.length - (f.got + f.getClaimSize rb.size size)) =
        min size (f.data.length - f.got) := by omega
    rw [ih1, ← hm, List.take_add, List.drop_drop, List.append_assoc]
    refine ⟨by rw [Nat.add_assoc], ?_⟩
    simpa [Nat.add_assoc] using ih2

-- ring_buf_put with no put claim pending appends the first min(n, space) bytes.
theorem Holds.put (h : Holds rb v f) (hp : f.pending = []) (d : List UInt8) (n : Nat) (hn : n ≤ d.length) :
    (ringBufPut rb d n).2 = (f.put rb.size d n).2 ∧ Holds (ringBufPut rb d n).1 v (f.put rb.size d n).1 := by
  obtain ⟨hl, hh⟩ := h.putLoop d n 0 hn
  obtain ⟨-, hfin⟩ := hh.putFinish (min n (f.space rb.size))
  rw [Nat.zero_add] at hl
  unfold ringBufPut
  dsimp only
  rw [hl]
  refine ⟨rfl, ?_⟩
  unfold Fifo.putFinish at hfin
  rw [if_neg (by simp [hp]; omega)] at hfin
  simpa [Fifo.put, hp, List.take_take] using hfin

-- ring_buf_get with no get claim pending removes and returns the first min(n, |Q|) bytes.
theorem Holds.get (h : Holds rb v f) (hg : f.got = 0) (n : Nat) :
    (ringBufGet rb n).2 = (f.get n).2 ∧ Holds (ringBufGet rb n).1 v (f.get n).1 := by
  obtain ⟨hl, hh⟩ := h.getLoop n 0 []
  obtain ⟨-, hfin⟩ := hh.getFinish (min n f.data.length)
  unfold ringBufGet
  dsimp only
  simp only [hg, Nat.sub_zero, Nat.zero_add, List.drop_zero, List.nil_append] at hl hfin
  rw [hl]
  refine ⟨rfl, ?_⟩
  unfold Fifo.getFinish at hfin
  rw [if_neg (by simp)] at hfin
  exact hfin

-- ring_buf_peek with no get claim pending returns the same bytes and leaves the FIFO as it was.
theorem Holds.peek (h : Holds rb v f) (hg : f.got = 0) (n : Nat) :
    (ringBufPeek rb n).2 = f.peek n ∧ Holds (ringBufPeek rb n).1 v f := by
  obtain ⟨hl, hh⟩ := h.getLoop n 0 []
  obtain ⟨-, hfin⟩ := hh.getFinish 0
  unfold ringBufPeek
  dsimp only
  simp only [hg, Nat.sub_zero, Nat.zero_add, List.drop_zero, List.nil_append] at hl hfin
  rw [hl]
  refine ⟨rfl, ?_⟩
  unfold Fifo.getFinish at hfin
  rw [if_neg (by simp)] at hfin
  have hf : (⟨f.start, f.data, 0, f.pending⟩ : Fifo) = f := by rw [← hg]
  simpa only [Nat.add_zero, List.drop_zero, hf] using hfin

end Holds

end Zephyr.Ring
