import Zephyr.Msgq.Msgq

namespace Zephyr.Msgq

variable {α : Type}

def readIdx (q : KMsgq α) : Nat := (q.readPtr - q.bufferStart) / q.msgSize

def slotAddr (q : KMsgq α) (i : Nat) : Nat :=
  q.bufferStart + (readIdx q + i) % q.maxMsgs * q.msgSize

-- The deque a message queue stands for: its used slots, read cyclically
-- from read_ptr.
def contents (q : KMsgq α) : List α :=
  (List.range q.usedMsgs).map fun i => q.buf (slotAddr q i)

structure MsgqOk (q : KMsgq α) : Prop where
  msgSize_pos : 0 < q.msgSize
  maxMsgs_pos : 0 < q.maxMsgs
  bufferEnd_eq : q.bufferEnd = q.bufferStart + q.maxMsgs * q.msgSize
  used_le : q.usedMsgs ≤ q.maxMsgs
  readIdx_lt : readIdx q < q.maxMsgs
  readPtr_eq : q.readPtr = q.bufferStart + readIdx q * q.msgSize
  writePtr_eq : q.writePtr = slotAddr q q.usedMsgs

theorem length_contents (q : KMsgq α) : (contents q).length = q.usedMsgs := by
  simp [contents]

theorem getElem?_contents (q : KMsgq α) (i : Nat) (h : i < q.usedMsgs) :
    (contents q)[i]? = some (q.buf (slotAddr q i)) := by
  simp [contents, h]

theorem readIdx_of_slot (q : KMsgq α) (r : Nat) (hS : 0 < q.msgSize)
    (h : q.readPtr = q.bufferStart + r * q.msgSize) : readIdx q = r := by
  rw [readIdx, h, Nat.add_sub_cancel_left, Nat.mul_div_cancel _ hS]

theorem msgqOk_init (buffer : Nat) (old : Nat → α) (msgSize maxMsgs : Nat) (hS : 0 < msgSize)
    (hM : 0 < maxMsgs) : MsgqOk (kMsgqInit buffer old msgSize maxMsgs) := by
  have hr : readIdx (kMsgqInit buffer old msgSize maxMsgs) = 0 :=
    readIdx_of_slot _ 0 hS (by simp [kMsgqInit])
  refine ⟨hS, hM, rfl, Nat.zero_le _, by rw [hr]; exact hM, ?_, ?_⟩
  · rw [hr]; simp [kMsgqInit]
  · rw [slotAddr, hr]; simp [kMsgqInit]

-- With a buffer under 4 GiB the uint32 offsets of peek_at are exact and it
-- reads Q[idx].
theorem kMsgqPeekAt_of_small (s : MsgqSys α) (hq : MsgqOk s.q)
    (hsmall : s.q.maxMsgs * s.q.msgSize < 2 ^ 32) (idx : Nat) :
    kMsgqPeekAt s idx =
      if idx < (contents s.q).length then (0, (contents s.q)[idx]?) else (-ENOMSG, none) := by
  rw [length_contents]
  by_cases hidx : idx < s.q.usedMsgs
  · obtain ⟨hS, hM, hE, hU, hR, hRP, -⟩ := hq
    have hend : s.q.bufferEnd - s.q.readPtr = (s.q.maxMsgs - readIdx s.q) * s.q.msgSize := by
      rw [hE, hRP, Nat.sub_mul]
      omega
    have hlt₁ : (s.q.maxMsgs - readIdx s.q) * s.q.msgSize < 2 ^ 32 :=
      lt_of_le_of_lt (Nat.mul_le_mul_right _ (Nat.sub_le _ _)) hsmall
    have hlt₂ : idx * s.q.msgSize < 2 ^ 32 :=
      lt_of_le_of_lt (Nat.mul_le_mul_right _ (by omega)) hsmall
    simp only [kMsgqPeekAt, hidx, if_true, hend, Nat.mod_eq_of_lt hlt₁, Nat.mod_eq_of_lt hlt₂,
      getElem?_contents _ _ hidx, slotAddr]
    by_cases hw : s.q.maxMsgs - readIdx s.q ≤ idx
    · -- the message lies past the wrap-around
      have hle : (s.q.maxMsgs - readIdx s.q) * s.q.msgSize ≤ idx * s.q.msgSize :=
        Nat.mul_le_mul_right _ hw
      have hmod : (readIdx s.q + idx) % s.q.maxMsgs = readIdx s.q + idx - s.q.maxMsgs := by
        rw [Nat.mod_eq_sub_mod (by omega), Nat.mod_eq_of_lt (by omega)]
      have hoff : idx * s.q.msgSize - (s.q.maxMsgs - readIdx s.q) * s.q.msgSize =
          (readIdx s.q + idx - s.q.maxMsgs) * s.q.msgSize := by
        rw [← Nat.sub_mul]
        congr 1
        omega
      simp only [hle, if_true, hmod, hoff]
    · have hgt : ¬ (s.q.maxMsgs - readIdx s.q) * s.q.msgSize ≤ idx * s.q.msgSize :=
        fun h => hw (Nat.le_of_mul_le_mul_right h hS)
      have hmod : (readIdx s.q + idx) % s.q.maxMsgs = readIdx s.q + idx := Nat.mod_eq_of_lt (by omega)
      simp only [hgt, if_false, hmod, hRP, Nat.add_mul]
      congr 3
      omega
  · simp [kMsgqPeekAt, hidx]

/-! The pointer moves of msg_q.c, on the deque -/

-- put_msg_in_queue at the back: the message goes in at write_ptr.
def pushBack (q : KMsgq α) (data : α) : KMsgq α :=
  { q with buf := Function.update q.buf q.writePtr data, writePtr := advance q q.writePtr,
           usedMsgs := q.usedMsgs + 1 }

-- put_msg_in_queue at the front: read_ptr steps back a slot, from buffer_start to the last.
def pushFront (q : KMsgq α) (data : α) : KMsgq α :=
  let r := (if q.readPtr = q.bufferStart then q.bufferEnd else q.readPtr) - q.msgSize
  { q with readPtr := r, buf := Function.update q.buf r data, usedMsgs := q.usedMsgs + 1 }

-- z_impl_k_msgq_get takes the message at read_ptr.
def popFront (q : KMsgq α) : KMsgq α :=
  { q with readPtr := advance q q.readPtr, usedMsgs := q.usedMsgs - 1 }

section Ring

variable {q : KMsgq α}

theorem slotAddr_add_maxMsgs (q : KMsgq α) (i : Nat) : slotAddr q (i + q.maxMsgs) = slotAddr q i := by
  rw [slotAddr, slotAddr, ← Nat.add_assoc, Nat.add_mod_right]

-- Slot addresses follow read_ptr: a queue whose read slot is k on from q's has q's slots k on.
theorem slotAddr_of_readIdx {q' : KMsgq α} {k : Nat} (hr : readIdx q' = (readIdx q + k) % q.maxMsgs)
    (hb : q'.bufferStart = q.bufferStart) (hm : q'.maxMsgs = q.maxMsgs) (hs : q'.msgSize = q.msgSize)
    (i : Nat) : slotAddr q' i = slotAddr q (k + i) := by
  rw [slotAddr, slotAddr, hb, hm, hs, hr, Nat.mod_add_mod, Nat.add_assoc]

theorem MsgqOk.readPtr_eq_slotAddr (h : MsgqOk q) : q.readPtr = slotAddr q 0 := by
  rw [h.readPtr_eq, slotAddr, Nat.add_zero, Nat.mod_eq_of_lt h.readIdx_lt]

-- The first max_msgs slots from read_ptr are distinct.
theorem MsgqOk.slotAddr_inj (h : MsgqOk q) {i j : Nat} (hi : i < q.maxMsgs) (hj : j < q.maxMsgs)
    (he : slotAddr q i = slotAddr q j) : i = j := by
  have hm : (readIdx q + i) % q.maxMsgs = (readIdx q + j) % q.maxMsgs :=
    Nat.eq_of_mul_eq_mul_right h.msgSize_pos (Nat.add_left_cancel he)
  have hc := Nat.ModEq.add_left_cancel' (readIdx q) hm
  rwa [Nat.ModEq, Nat.mod_eq_of_lt hi, Nat.mod_eq_of_lt hj] at hc

-- Stepping a pointer past its slot, wrapping at buffer_end, is the next slot.
theorem MsgqOk.advance_slotAddr (h : MsgqOk q) (i : Nat) :
    advance q (slotAddr q i) = slotAddr q (i + 1) := by
  have hsucc : (readIdx q + (i + 1)) % q.maxMsgs = ((readIdx q + i) % q.maxMsgs + 1) % q.maxMsgs := by
    rw [Nat.mod_add_mod, Nat.add_assoc]
  have hlt : (readIdx q + i) % q.maxMsgs < q.maxMsgs := Nat.mod_lt _ h.maxMsgs_pos
  unfold advance slotAddr
  rw [h.bufferEnd_eq, hsucc]
  generalize (readIdx q + i) % q.maxMsgs = a at hlt ⊢
  rw [Nat.add_assoc, ← Nat.succ_mul]
  by_cases hw : a + 1 = q.maxMsgs
  · rw [if_pos (by rw [Nat.succ_eq_add_one, hw]), hw, Nat.mod_self, Nat.zero_mul, Nat.add_zero]
  · have hne : a.succ * q.msgSize ≠ q.maxMsgs * q.msgSize :=
      fun he => hw (Nat.eq_of_mul_eq_mul_right h.msgSize_pos he)
    rw [if_neg (fun he => hne (Nat.add_left_cancel he)), Nat.mod_eq_of_lt (by omega)]

theorem MsgqOk.pushBack (h : MsgqOk q) (hlt : q.usedMsgs < q.maxMsgs) (data : α) :
    MsgqOk (pushBack q data) := by
  refine ⟨h.msgSize_pos, h.maxMsgs_pos, h.bufferEnd_eq, hlt, h.readIdx_lt, h.readPtr_eq, ?_⟩
  show advance q q.writePtr = slotAddr q (q.usedMsgs + 1)
  rw [h.writePtr_eq, h.advance_slotAddr]

theorem contents_pushBack (h : MsgqOk q) (hlt : q.usedMsgs < q.maxMsgs) (data : α) :
    contents (pushBack q data) = contents q ++ [data] := by
  show (List.range (q.usedMsgs + 1)).map (fun i => Function.update q.buf q.writePtr data (slotAddr q i)) =
    contents q ++ [data]
  rw [List.range_succ, List.map_append, contents, h.writePtr_eq]
  congr 1
  · refine List.map_congr_left fun i hi => Function.update_of_ne (fun he => ?_) _ _
    have hi : i < q.usedMsgs := List.mem_range.1 hi
    exact absurd (h.slotAddr_inj (by omega) hlt he) (by omega)
  · simp

theorem MsgqOk.readIdx_popFront (h : MsgqOk q) : readIdx (popFront q) = (readIdx q + 1) % q.maxMsgs := by
  apply readIdx_of_slot (popFront q) _ h.msgSize_pos
  show advance q q.readPtr = q.bufferStart + (readIdx q + 1) % q.maxMsgs * q.msgSize
  rw [h.readPtr_eq_slotAddr, h.advance_slotAddr]
  rfl

theorem MsgqOk.popFront (h : MsgqOk q) (hpos : 0 < q.usedMsgs) : MsgqOk (popFront q) := by
  have hr := h.readIdx_popFront
  have hslot := slotAddr_of_readIdx hr rfl rfl rfl
  refine ⟨h.msgSize_pos, h.maxMsgs_pos, h.bufferEnd_eq, Nat.le_trans (Nat.sub_le _ _) h.used_le,
    by rw [hr]; exact Nat.mod_lt _ h.maxMsgs_pos, ?_, ?_⟩
  · show advance q q.readPtr = q.bufferStart + readIdx (Msgq.popFront q) * q.msgSize
    rw [h.readPtr_eq_slotAddr, h.advance_slotAddr, hr]
    rfl
  · show q.writePtr = slotAddr (Msgq.popFront q) (q.usedMsgs - 1)
    rw [hslot, h.writePtr_eq]
    congr 1
    omega

-- The message at read_ptr is the head of the deque, and taking it leaves the tail.
theorem contents_eq_popFront (h : MsgqOk q) (hpos : 0 < q.usedMsgs) :
    contents q = q.buf q.readPtr :: contents (popFront q) := by
  obtain ⟨n, hn⟩ : ∃ n, q.usedMsgs = n + 1 := ⟨q.usedMsgs - 1, by omega⟩
  have hslot := slotAddr_of_readIdx h.readIdx_popFront rfl rfl rfl
  show (List.range q.usedMsgs).map (fun i => q.buf (slotAddr q i)) =
    q.buf q.readPtr :: (List.range (q.usedMsgs - 1)).map (fun i => q.buf (slotAddr (popFront q) i))
  rw [hn, List.range_succ_eq_map, List.map_cons, List.map_map, Nat.add_sub_cancel,
    h.readPtr_eq_slotAddr]
  congr 1
  refine List.map_congr_left fun i _ => ?_
  rw [hslot, Nat.add_comm 1 i]
  rfl

-- The slot before read_ptr, wrapping from buffer_start to the last slot.
theorem MsgqOk.prevReadPtr_eq (h : MsgqOk q) :
    (if q.readPtr = q.bufferStart then q.bufferEnd else q.readPtr) - q.msgSize =
      q.bufferStart + (readIdx q + (q.maxMsgs - 1)) % q.maxMsgs * q.msgSize := by
  have hS := h.msgSize_pos
  have hm := h.maxMsgs_pos
  have hr := h.readIdx_lt
  by_cases h0 : readIdx q = 0
  · have hrp : q.readPtr = q.bufferStart := by rw [h.readPtr_eq, h0, Nat.zero_mul, Nat.add_zero]
    have hle : q.msgSize ≤ q.maxMsgs * q.msgSize := Nat.le_mul_of_pos_left _ hm
    rw [if_pos hrp, h.bufferEnd_eq, h0, Nat.zero_add, Nat.mod_eq_of_lt (by omega), Nat.sub_one_mul]
    omega
  · have hle : q.msgSize ≤ readIdx q * q.msgSize := Nat.le_mul_of_pos_left _ (by omega)
    have hrp : q.readPtr ≠ q.bufferStart := by rw [h.readPtr_eq]; omega
    have hmod : (readIdx q + (q.maxMsgs - 1)) % q.maxMsgs = readIdx q - 1 := by
      rw [show readIdx q + (q.maxMsgs - 1) = readIdx q - 1 + q.maxMsgs by omega, Nat.add_mod_right,
        Nat.mod_eq_of_lt (by omega)]
    rw [if_neg hrp, h.readPtr_eq, hmod, Nat.sub_one_mul]
    omega

theorem MsgqOk.readIdx_pushFront (h : MsgqOk q) (data : α) :
    readIdx (pushFront q data) = (readIdx q + (q.maxMsgs - 1)) % q.maxMsgs :=
  readIdx_of_slot (pushFront q data) _ h.msgSize_pos h.prevReadPtr_eq

theorem MsgqOk.pushFront (h : MsgqOk q) (hlt : q.usedMsgs < q.maxMsgs) (data : α) :
    MsgqOk (pushFront q data) := by
  have hr := h.readIdx_pushFront data
  have hslot := slotAddr_of_readIdx hr rfl rfl rfl
  refine ⟨h.msgSize_pos, h.maxMsgs_pos, h.bufferEnd_eq, hlt,
    by rw [hr]; exact Nat.mod_lt _ h.maxMsgs_pos, ?_, ?_⟩
  · show _ - q.msgSize = q.bufferStart + readIdx (Msgq.pushFront q data) * q.msgSize
    rw [h.prevReadPtr_eq, hr]
  · show q.writePtr = slotAddr (Msgq.pushFront q data) (q.usedMsgs + 1)
    rw [hslot, h.writePtr_eq, show q.maxMsgs - 1 + (q.usedMsgs + 1) = q.usedMsgs + q.maxMsgs by
      have := h.maxMsgs_pos; omega, slotAddr_add_maxMsgs]

theorem contents_pushFront (h : MsgqOk q) (hlt : q.usedMsgs < q.maxMsgs) (data : α) :
    contents (pushFront q data) = data :: contents q := by
  have hslot := slotAddr_of_readIdx (h.readIdx_pushFront data) rfl rfl rfl
  have hfirst : slotAddr (pushFront q data) 0 = slotAddr q (q.maxMsgs - 1) := hslot 0
  have hm := h.maxMsgs_pos
  show (List.range (q.usedMsgs + 1)).map (fun i => Function.update q.buf
      ((if q.readPtr = q.bufferStart then q.bufferEnd else q.readPtr) - q.msgSize)
      data (slotAddr (pushFront q data) i)) = data :: contents q
  rw [List.range_succ_eq_map, List.map_cons, List.map_map, h.prevReadPtr_eq, contents]
  have hprev : q.bufferStart + (readIdx q + (q.maxMsgs - 1)) % q.maxMsgs * q.msgSize =
      slotAddr q (q.maxMsgs - 1) := rfl
  rw [hprev, hfirst, Function.update_self]
  congr 1
  refine List.map_congr_left fun i hi => ?_
  have hi : i < q.usedMsgs := List.mem_range.1 hi
  have hs : slotAddr (pushFront q data) (i + 1) = slotAddr q i := by
    rw [hslot, show q.maxMsgs - 1 + (i + 1) = i + q.maxMsgs by omega, slotAddr_add_maxMsgs]
  simp only [Function.comp_apply, Nat.succ_eq_add_one, hs]
  exact Function.update_of_ne (fun he => absurd (h.slotAddr_inj (by omega) (by omega) he) (by omega)) _ _

-- k_msgq_purge moves read_ptr to write_ptr and empties the deque.
theorem MsgqOk.purge (h : MsgqOk q) (w : List Nat) :
    MsgqOk { q with waitQ := w, usedMsgs := 0, readPtr := q.writePtr } := by
  have hr : readIdx { q with waitQ := w, usedMsgs := 0, readPtr := q.writePtr } =
      (readIdx q + q.usedMsgs) % q.maxMsgs :=
    readIdx_of_slot _ _ h.msgSize_pos h.writePtr_eq
  refine ⟨h.msgSize_pos, h.maxMsgs_pos, h.bufferEnd_eq, Nat.zero_le _,
    by rw [hr]; exact Nat.mod_lt _ h.maxMsgs_pos, by rw [hr]; exact h.writePtr_eq, ?_⟩
  show q.writePtr = q.bufferStart + (_ + 0) % q.maxMsgs * q.msgSize
  rw [hr, Nat.add_zero, Nat.mod_mod, h.writePtr_eq]
  rfl

theorem MsgqOk.setWaitQ (h : MsgqOk q) (w : List Nat) : MsgqOk { q with waitQ := w } :=
  ⟨h.1, h.2, h.3, h.4, h.5, h.6, h.7⟩

end Ring

-- Three 2 GiB slots on a 64-bit target: a 6 GiB buffer.
def bigMsgq : MsgqSys Nat :=
  { q := kMsgqInit 4096 (fun _ => 0) (2 ^ 31) 3, threads := fun _ => ⟨none, 0, none⟩,
    prio := fun _ => 0 }

def bigMsgqTwo : MsgqSys Nat := (kMsgqPut (kMsgqPut bigMsgq 1 10 false).1 1 11 false).1

theorem msgq_peek_at_truncated_offset_reads_head :
    (kMsgqPut bigMsgq 1 10 false).2 = some 0 ∧
    (kMsgqPut (kMsgqPut bigMsgq 1 10 false).1 1 11 false).2 = some 0 ∧
    contents bigMsgqTwo.q = [10, 11] ∧
    kMsgqPeekAt bigMsgqTwo 1 = (0, some 10) := by
  decide

end Zephyr.Msgq
