import Zephyr.Ring.Run

namespace Zephyr.Ring

variable {w : Nat}

def eNoSpc : Int := 28

def eNoData : Int := 61

-- sys_ringq: a ring buffer whose calls move `itemSize` bytes at a time.
structure SysRingq (w : Nat) where
  rb : RingBuf w
  itemSize : Nat

def sysRingqInit (data : Nat → UInt8) (dataSize itemSize : Nat) : SysRingq w :=
  -- data_size is rounded down to a multiple of item_size
  ⟨ringBufInit (dataSize / itemSize * itemSize) data, itemSize⟩

def sysRingqReset (ringq : SysRingq w) : SysRingq w := { ringq with rb := ringBufReset ringq.rb }

def sysRingqEmpty (ringq : SysRingq w) : Bool := ringBufIsEmpty ringq.rb

def sysRingqFull (ringq : SysRingq w) : Bool := ringBufSpaceGet ringq.rb == 0

def sysRingqSpace (ringq : SysRingq w) : Nat := ringBufSpaceGet ringq.rb / ringq.itemSize

def sysRingqCapacity (ringq : SysRingq w) : Nat := ringBufCapacityGet ringq.rb / ringq.itemSize

def sysRingqSize (ringq : SysRingq w) : Nat := ringBufSizeGet ringq.rb / ringq.itemSize

def sysRingqPut (ringq : SysRingq w) (element : List UInt8) : SysRingq w × Int :=
  let r := ringBufPut ringq.rb element ringq.itemSize
  ({ ringq with rb := r.1 }, if r.2 = 0 then -eNoSpc else 0)

-- The status and the bytes copied into the caller's element.
def sysRingqGet (ringq : SysRingq w) : SysRingq w × Int × List UInt8 :=
  let r := ringBufGet ringq.rb ringq.itemSize
  ({ ringq with rb := r.1 }, if r.2.1 = 0 then -eNoData else 0, r.2.2)

def sysRingqPeek (ringq : SysRingq w) : SysRingq w × Int × List UInt8 :=
  let r := ringBufPeek ringq.rb ringq.itemSize
  ({ ringq with rb := r.1 }, if r.2.1 = 0 then -eNoData else 0, r.2.2)

-- What a sys_ringq is for: a FIFO of whole elements holding at most `cap` of them.
structure ElemQueue (cap : Nat) where
  elems : List (List UInt8)
  le_cap : elems.length ≤ cap

namespace ElemQueue

variable {cap : Nat}

def empty : ElemQueue cap := ⟨[], Nat.zero_le cap⟩

def put (q : ElemQueue cap) (e : List UInt8) : ElemQueue cap × Int :=
  if h : q.elems.length < cap then (⟨q.elems ++ [e], by simpa using Nat.succ_le_of_lt h⟩, 0) else (q, -eNoSpc)

def get : ElemQueue cap → ElemQueue cap × Int × List UInt8
  | ⟨[], h⟩ => (⟨[], h⟩, -eNoData, [])
  | ⟨e :: es, h⟩ => (⟨es, Nat.le_of_succ_le h⟩, 0, e)

def peek (q : ElemQueue cap) : Int × List UInt8 :=
  match q.elems with
  | [] => (-eNoData, [])
  | e :: _ => (0, e)

end ElemQueue

inductive RingqOp where
  | put (element : List UInt8)
  | get
  | peek
  | reset
  deriving Repr

def RingqOp.run (ringq : SysRingq w) : RingqOp → SysRingq w × Int × List UInt8
  | .put e => let r := sysRingqPut ringq e; (r.1, r.2, [])
  | .get => sysRingqGet ringq
  | .peek => sysRingqPeek ringq
  | .reset => (sysRingqReset ringq, 0, [])

def RingqOp.apply {cap : Nat} (q : ElemQueue cap) : RingqOp → ElemQueue cap × Int × List UInt8
  | .put e => let r := q.put e; (r.1, r.2, [])
  | .get => q.get
  | .peek => (q, q.peek)
  | .reset => (ElemQueue.empty, 0, [])

-- The caller's side: an element passed to sys_ringq_put has item_size bytes.
def RingqOp.Legal (itemSize : Nat) : RingqOp → Prop
  | .put e => e.length = itemSize
  | _ => True

instance RingqOp.decLegal (itemSize : Nat) (op : RingqOp) : Decidable (op.Legal itemSize) := by
  cases op <;> unfold RingqOp.Legal <;> infer_instance

def runRingq (ringq : SysRingq w) : List RingqOp → SysRingq w × List (Int × List UInt8)
  | [] => (ringq, [])
  | op :: ops =>
    let r := op.run ringq
    let rest := runRingq r.1 ops
    (rest.1, r.2 :: rest.2)

def ElemQueue.applyOps {cap : Nat} (q : ElemQueue cap) : List RingqOp → ElemQueue cap × List (Int × List UInt8)
  | [] => (q, [])
  | op :: ops =>
    let r := op.apply q
    let rest := r.1.applyOps ops
    (rest.1, r.2 :: rest.2)

theorem RingqOp.itemSize_run (ringq : SysRingq w) (op : RingqOp) : (op.run ringq).1.itemSize = ringq.itemSize := by
  cases op <;> rfl

theorem length_flatten_of_length_eq {es : List (List UInt8)} {k : Nat} (h : ∀ e ∈ es, e.length = k) :
    es.flatten.length = es.length * k := by
  induction es with
  | nil => simp
  | cons e es ih =>
    rw [List.flatten_cons, List.length_append, h e (by simp), ih (fun x hx => h x (by simp [hx])),
      List.length_cons, Nat.succ_mul, Nat.add_comm]

-- A sys_ringq against its element queue: the ring buffer has room for exactly
-- `cap` elements and holds the bytes of the queued elements, back to back, with
-- no claim of either side pending.
structure RingqHolds {cap : Nat} (ringq : SysRingq w) (q : ElemQueue cap) : Prop where
  pos : 0 < ringq.itemSize
  size : ringq.rb.size = cap * ringq.itemSize
  whole : ∀ e ∈ q.elems, e.length = ringq.itemSize
  fifo : ∃ start, Holds ringq.rb 0 ⟨start, q.elems.flatten, 0, []⟩

section RingqHolds

variable {cap : Nat} {ringq : SysRingq w} {q : ElemQueue cap}

theorem RingqHolds.length_flatten (h : RingqHolds ringq q) : q.elems.flatten.length = q.elems.length * ringq.itemSize :=
  length_flatten_of_length_eq h.whole

-- The free space of the ring buffer is a whole number of elements.
theorem RingqHolds.spaceGet (h : RingqHolds ringq q) :
    ringBufSpaceGet ringq.rb = (cap - q.elems.length) * ringq.itemSize := by
  obtain ⟨start, hf⟩ := h.fifo
  rw [hf.spaceGet, Fifo.space, Fifo.stored, List.append_nil, h.length_flatten, h.size, Nat.sub_mul]

theorem RingqHolds.sizeGet (h : RingqHolds ringq q) : ringBufSizeGet ringq.rb = q.elems.length * ringq.itemSize := by
  obtain ⟨start, hf⟩ := h.fifo
  rw [hf.sizeGet, Nat.sub_zero, h.length_flatten]

theorem RingqHolds.put (h : RingqHolds ringq q) {e : List UInt8} (he : e.length = ringq.itemSize) :
    (sysRingqPut ringq e).2 = (q.put e).2 ∧ RingqHolds (sysRingqPut ringq e).1 (q.put e).1 := by
  obtain ⟨start, hf⟩ := h.fifo
  obtain ⟨hr, hh⟩ := hf.put rfl e ringq.itemSize he.ge
  have hs : (ringBufPut ringq.rb e ringq.itemSize).1.size = cap * ringq.itemSize :=
    (RingOp.size_run ringq.rb (.put e ringq.itemSize)).trans h.size
  have hspace : Fifo.space ringq.rb.size ⟨start, q.elems.flatten, 0, []⟩ = (cap - q.elems.length) * ringq.itemSize := by
    rw [← hf.spaceGet, h.spaceGet]
  simp only [Fifo.put, hspace] at hr hh
  unfold sysRingqPut ElemQueue.put
  by_cases hlt : q.elems.length < cap
  · -- room for one more element: ring_buf_put copies all item_size bytes
    have hmin : min ringq.itemSize ((cap - q.elems.length) * ringq.itemSize) = ringq.itemSize :=
      Nat.min_eq_left (Nat.le_mul_of_pos_left _ (by omega))
    rw [hmin, List.take_of_length_le he.le] at hh
    rw [hmin] at hr
    simp only [hr, dif_pos hlt, if_neg (Nat.pos_iff_ne_zero.mp h.pos)]
    refine ⟨trivial, h.pos, hs, fun x hx => ?_, start, by simpa using hh⟩
    rcases List.mem_append.mp hx with hx | hx
    · exact h.whole x hx
    · rw [List.mem_singleton.mp hx, he]
  · -- full: no space, nothing is copied
    have hzero : cap - q.elems.length = 0 := by omega
    rw [hzero, Nat.zero_mul, Nat.min_zero] at hh hr
    simp only [hr, dif_neg hlt]
    exact ⟨rfl, h.pos, hs, h.whole, start, by simpa using hh⟩

-- The bytes ring_buf_get or ring_buf_peek takes from the front: one whole element, or none.
theorem RingqHolds.front (h : RingqHolds ringq q) :
    min ringq.itemSize q.elems.flatten.length = if q.elems = [] then 0 else ringq.itemSize := by
  rw [h.length_flatten]
  split
  · simp [*]
  · have : 1 ≤ q.elems.length := List.length_pos_iff.mpr ‹_›
    exact Nat.min_eq_left (Nat.le_mul_of_pos_left _ this)

theorem RingqHolds.get (h : RingqHolds ringq q) :
    (sysRingqGet ringq).2 = q.get.2 ∧ RingqHolds (sysRingqGet ringq).1 q.get.1 := by
  obtain ⟨start, hf⟩ := h.fifo
  obtain ⟨hr, hh⟩ := hf.get rfl ringq.itemSize
  have hs : (ringBufGet ringq.rb ringq.itemSize).1.size = cap * ringq.itemSize :=
    (RingOp.size_run ringq.rb (.get ringq.itemSize)).trans h.size
  have hfront := h.front
  simp only [Fifo.get, hfront] at hr hh
  obtain ⟨elems, hcap⟩ := q
  unfold sysRingqGet
  cases elems with
  | nil =>
    simp only at hr hh
    simp only [hr, ElemQueue.get]
    exact ⟨rfl, h.pos, hs, h.whole, start, by simpa using hh⟩
  | cons e es =>
    have he : e.length = ringq.itemSize := h.whole e (by simp)
    simp only [reduceCtorEq, if_false, List.flatten_cons] at hr hh
    simp only [List.take_left' he, List.drop_left' he] at hr hh
    simp only [hr, ElemQueue.get, if_neg (Nat.pos_iff_ne_zero.mp h.pos)]
    exact ⟨trivial, h.pos, hs, fun x hx => h.whole x (by simp [hx]), _, hh⟩

theorem RingqHolds.peek (h : RingqHolds ringq q) :
    (sysRingqPeek ringq).2 = q.peek ∧ RingqHolds (sysRingqPeek ringq).1 q := by
  obtain ⟨start, hf⟩ := h.fifo
  obtain ⟨hr, hh⟩ := hf.peek rfl ringq.itemSize
  have hs : (ringBufPeek ringq.rb ringq.itemSize).1.size = cap * ringq.itemSize :=
    (RingOp.size_run ringq.rb (.peek ringq.itemSize)).trans h.size
  have hfront := h.front
  simp only [Fifo.peek, hfront] at hr
  refine ⟨?_, h.pos, hs, h.whole, start, hh⟩
  obtain ⟨elems, hcap⟩ := q
  unfold sysRingqPeek ElemQueue.peek
  cases elems with
  | nil => simp [hr]
  | cons e es =>
    have he : e.length = ringq.itemSize := h.whole e (by simp)
    simp only [reduceCtorEq, if_false, List.flatten_cons, List.take_left' he] at hr
    simp [hr, Nat.pos_iff_ne_zero.mp h.pos]

theorem RingqHolds.reset (h : RingqHolds ringq q) : RingqHolds (sysRingqReset ringq) (ElemQueue.empty : ElemQueue cap) := by
  obtain ⟨start, hf⟩ := h.fifo
  exact ⟨h.pos, h.size, by simp [ElemQueue.empty], 0, holds_reset ringq.rb 0 hf.small⟩

theorem RingqHolds.run (h : RingqHolds ringq q) (op : RingqOp) (hl : op.Legal ringq.itemSize) :
    (op.run ringq).2 = (op.apply q).2 ∧ RingqHolds (op.run ringq).1 (op.apply q).1 := by
  cases op with
  | put e =>
    obtain ⟨hr, hh⟩ := h.put hl
    exact ⟨by simp [RingqOp.run, RingqOp.apply, hr], hh⟩
  | get => exact h.get
  | peek =>
    obtain ⟨hr, hh⟩ := h.peek
    exact ⟨by simp [RingqOp.run, RingqOp.apply, hr], hh⟩
  | reset => exact ⟨rfl, h.reset⟩

-- Every call keeps the relation, so a whole run does, by induction over the calls.
theorem RingqHolds.runRingq (h : RingqHolds ringq q) (ops : List RingqOp)
    (hl : ∀ op ∈ ops, op.Legal ringq.itemSize) :
    (runRingq ringq ops).2 = (q.applyOps ops).2 ∧ RingqHolds (runRingq ringq ops).1 (q.applyOps ops).1 := by
  induction ops generalizing ringq q with
  | nil => exact ⟨rfl, h⟩
  | cons op ops ih =>
    obtain ⟨hr, hh⟩ := h.run op (hl op (by simp))
    have hl' : ∀ op' ∈ ops, op'.Legal (op.run ringq).1.itemSize := by
      rw [RingqOp.itemSize_run]
      exact fun op' hop => hl op' (by simp [hop])
    obtain ⟨hr', hh'⟩ := ih hh hl'
    exact ⟨by simp [runRingq, ElemQueue.applyOps, hr, hr'], hh'⟩

-- Empty and full read off the element count.
theorem RingqHolds.empty (h : RingqHolds ringq q) : sysRingqEmpty ringq = true ↔ q.elems = [] := by
  obtain ⟨start, hf⟩ := h.fifo
  rw [sysRingqEmpty, hf.isEmpty, h.length_flatten, Nat.mul_eq_zero, or_iff_left (Nat.pos_iff_ne_zero.mp h.pos),
    List.length_eq_zero_iff]

theorem RingqHolds.full (h : RingqHolds ringq q) : sysRingqFull ringq = true ↔ q.elems.length = cap := by
  have hle := q.le_cap
  rw [sysRingqFull, beq_iff_eq, h.spaceGet, Nat.mul_eq_zero, or_iff_left (Nat.pos_iff_ne_zero.mp h.pos)]
  omega

end RingqHolds

theorem runRingq_itemSize (ringq : SysRingq w) (ops : List RingqOp) : (runRingq ringq ops).1.itemSize = ringq.itemSize := by
  induction ops generalizing ringq with
  | nil => rfl
  | cons op ops ih => rw [runRingq, ih, RingqOp.itemSize_run]

theorem ringqHolds_init (large : Bool) (data : Nat → UInt8) {dataSize itemSize : Nat} (hitem : 0 < itemSize)
    (hsize : dataSize / itemSize * itemSize ≤ ringBufferMaxSize large) :
    RingqHolds (sysRingqInit (w := idxBits large) data dataSize itemSize)
      (ElemQueue.empty : ElemQueue (dataSize / itemSize)) :=
  ⟨hitem, rfl, by simp [ElemQueue.empty], 0, holds_reset _ 0 (two_mul_lt_of_le_maxSize hsize)⟩

-- From sys_ringq_init, any run of put, get, peek and reset answers as the queue of
-- whole elements of capacity data_size / item_size, and the ring buffer's free
-- space and used size stay whole numbers of elements.
theorem sys_ringq_refines_elem_queue (large : Bool) (data : Nat → UInt8) (dataSize itemSize : Nat)
    (hitem : 0 < itemSize) (hsize : dataSize / itemSize * itemSize ≤ ringBufferMaxSize large)
    (ops : List RingqOp) (hl : ∀ op ∈ ops, op.Legal itemSize) :
    let r := runRingq (sysRingqInit (w := idxBits large) data dataSize itemSize) ops
    let q := (ElemQueue.empty : ElemQueue (dataSize / itemSize)).applyOps ops
    r.2 = q.2 ∧
      ringBufSpaceGet r.1.rb = (dataSize / itemSize - q.1.elems.length) * itemSize ∧
      ringBufSizeGet r.1.rb = q.1.elems.length * itemSize ∧
      sysRingqCapacity r.1 = dataSize / itemSize ∧
      sysRingqSpace r.1 = dataSize / itemSize - q.1.elems.length ∧
      sysRingqSize r.1 = q.1.elems.length ∧
      (sysRingqEmpty r.1 = true ↔ q.1.elems = []) ∧
      (sysRingqFull r.1 = true ↔ q.1.elems.length = dataSize / itemSize) := by
  intro r q
  obtain ⟨hr, h⟩ := (ringqHolds_init large data hitem hsize).runRingq ops hl
  have hi : r.1.itemSize = itemSize := runRingq_itemSize _ ops
  have hspace := h.spaceGet
  have hsz := h.sizeGet
  rw [hi] at hspace hsz
  refine ⟨hr, hspace, hsz, ?_, ?_, ?_, h.empty, h.full⟩
  · rw [sysRingqCapacity, ringBufCapacityGet, h.size, hi, Nat.mul_div_cancel _ hitem]
  · rw [sysRingqSpace, hspace, hi, Nat.mul_div_cancel _ hitem]
  · rw [sysRingqSize, hsz, hi, Nat.mul_div_cancel _ hitem]

theorem sys_ringq_refines_elem_queue_wrapping :
    (runRingq (sysRingqInit (w := idxBits false) (fun _ => 0) 10 3)
      [.put [1, 2, 3], .put [4, 5, 6], .get, .put [7, 8, 9], .put [10, 11, 12], .put [13, 14, 15], .peek,
        .get, .get, .get, .get, .reset, .put [16, 17, 18]]).2 =
      [(0, []), (0, []), (0, [1, 2, 3]), (0, []), (0, []), (-eNoSpc, []), (0, [4, 5, 6]), (0, [4, 5, 6]),
        (0, [7, 8, 9]), (0, [10, 11, 12]), (-eNoData, []), (0, []), (0, [])] :=
  (sys_ringq_refines_elem_queue false (fun _ => 0) 10 3 (by decide) (by decide) _ (by decide)).1.trans (by decide)

end Zephyr.Ring
