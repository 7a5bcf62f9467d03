import Zephyr.Ring.Run

namespace Zephyr.Ring

variable {w : Nat}

def eMsgSize : Int := 122

def eAgain : Int := 11

-- struct ring_element as the bytes of its little-endian word: the 16-bit type,
-- then length (in 32-bit words), then value.
def ringElement (type : UInt16) (length value : UInt8) : List UInt8 :=
  [type.toUInt8, (type / 256).toUInt8, length, value]

def ringElementType (header : List UInt8) : UInt16 :=
  (header.getD 0 0).toUInt16 + (header.getD 1 0).toUInt16 * 256

def ringElementLength (header : List UInt8) : UInt8 := header.getD 2 0

def ringElementValue (header : List UInt8) : UInt8 := header.getD 3 0

-- `data32` are the bytes of the size32 words to store.
def ringBufItemPut (buf : RingBuf w) (type : UInt16) (value : UInt8) (data32 : List UInt8) (size32 : UInt8) :
    RingBuf w × Int :=
  let space := ringBufSpaceGet buf
  let size := size32.toNat * 4
  if size + 4 > space then (buf, -eMsgSize) else
  let c := ringBufPutClaim buf 4
  -- __ASSERT_NO_MSG(err == sizeof(struct ring_element)): the header is stored at dst whole
  let buf := { c.1 with buffer := writeBytes c.1.buffer c.2.1 (ringElement type size32 value) }
  -- the do-while loop is ring_buf_put's, with total_size starting after the header
  let r := ringBufPutLoop buf data32 size 4
  ((ringBufPutFinish r.1 r.2).1, 0)

-- What ring_buf_item_get writes through its pointers; *size32 holds the room of
-- data32, in words, on entry.
structure ItemOut where
  type : UInt16
  value : UInt8
  size32 : UInt8
  data : List UInt8
  deriving DecidableEq, Repr

-- `hasData` is data32 != NULL; without it the item's words are dropped.
def ringBufItemGet (buf : RingBuf w) (hasData : Bool) (out : ItemOut) : RingBuf w × Int × ItemOut :=
  if ringBufIsEmpty buf then (buf, -eAgain, out) else
  let c := ringBufGetClaim buf 4
  let header := readBytes c.1.buffer c.2.1 4
  if hasData && ringElementLength header > out.size32 then
    ((ringBufGetFinish c.1 0).1, -eMsgSize, { out with size32 := ringElementLength header })
  else
  let size32 := ringElementLength header
  let r := ringBufGetLoop c.1 (size32.toNat * 4) 4 []
  ((ringBufGetFinish r.1 r.2.1).1, 0,
    ⟨ringElementType header, ringElementValue header, size32, if hasData then r.2.2 else out.data⟩)

@[simp] theorem ringElement_length (type : UInt16) (length value : UInt8) :
    (ringElement type length value).length = 4 := rfl

theorem ringElementType_ringElement (type : UInt16) (length value : UInt8) :
    ringElementType (ringElement type length value) = type := by
  apply UInt16.toNat_inj.mp
  simp only [ringElementType, ringElement, List.getD_cons_zero, List.getD_cons_succ, UInt16.toNat_add,
    UInt16.toNat_mul, UInt8.toNat_toUInt16, UInt16.toNat_toUInt8, UInt16.toNat_div]
  have := type.toNat_lt
  simp
  omega

@[simp] theorem ringElement_decode (type : UInt16) (length value : UInt8) :
    ringElementType (ringElement type length value) = type ∧
      ringElementLength (ringElement type length value) = length ∧
      ringElementValue (ringElement type length value) = value :=
  ⟨ringElementType_ringElement type length value, rfl, rfl⟩

-- An item as ring_buf_item_put takes it.
structure Item where
  type : UInt16
  value : UInt8
  size32 : UInt8
  data : List UInt8
  deriving DecidableEq, Repr

def Item.bytes (it : Item) : List UInt8 := ringElement it.type it.size32 it.value ++ it.data

-- The room an item takes: its header and its words.
def Item.footprint (it : Item) : Nat := it.size32.toNat * 4 + 4

-- What item mode is for: a FIFO of items whose footprints fit in `cap` bytes.
structure ItemQueue (cap : Nat) where
  items : List Item
  used_le : (items.map Item.footprint).sum ≤ cap

namespace ItemQueue

variable {cap : Nat}

def used (q : ItemQueue cap) : Nat := (q.items.map Item.footprint).sum

def empty : ItemQueue cap := ⟨[], Nat.zero_le cap⟩

def put (q : ItemQueue cap) (it : Item) : ItemQueue cap × Int :=
  if h : cap - q.used < it.footprint then (q, -eMsgSize)
  else (⟨q.items ++ [it], by have := q.used_le; simp only [used] at h; simp; omega⟩, 0)

def get (q : ItemQueue cap) (hasData : Bool) (out : ItemOut) : ItemQueue cap × Int × ItemOut :=
  match q with
  | ⟨[], h⟩ => (⟨[], h⟩, -eAgain, out)
  | ⟨it :: rest, h⟩ =>
    if hasData && it.size32 > out.size32 then (⟨it :: rest, h⟩, -eMsgSize, { out with size32 := it.size32 })
    else (⟨rest, (Nat.le_add_left _ _).trans h⟩, 0,
      ⟨it.type, it.value, it.size32, if hasData then it.data else out.data⟩)

end ItemQueue

inductive ItemOp where
  | put (type : UInt16) (value : UInt8) (data32 : List UInt8) (size32 : UInt8)
  | get (hasData : Bool) (out : ItemOut)
  deriving Repr

-- Each call with its status and, for a get, what it wrote through its pointers.
def ItemOp.run (buf : RingBuf w) : ItemOp → RingBuf w × Int × Option ItemOut
  | .put t v d s => let r := ringBufItemPut buf t v d s; (r.1, r.2, none)
  | .get hasData out => let r := ringBufItemGet buf hasData out; (r.1, r.2.1, some r.2.2)

def ItemOp.apply {cap : Nat} (q : ItemQueue cap) : ItemOp → ItemQueue cap × Int × Option ItemOut
  | .put t v d s => let r := q.put ⟨t, v, s, d⟩; (r.1, r.2, none)
  | .get hasData out => let r := q.get hasData out; (r.1, r.2.1, some r.2.2)

-- The caller's side: data32 holds size32 words.
def ItemOp.Legal : ItemOp → Prop
  | .put _ _ d s => d.length = s.toNat * 4
  | .get _ _ => True

instance ItemOp.decLegal (op : ItemOp) : Decidable op.Legal := by
  cases op <;> unfold ItemOp.Legal <;> infer_instance

def runItems (buf : RingBuf w) : List ItemOp → RingBuf w × List (Int × Option ItemOut)
  | [] => (buf, [])
  | op :: ops =>
    let r := op.run buf
    let rest := runItems r.1 ops
    (rest.1, r.2 :: rest.2)

def ItemQueue.applyOps {cap : Nat} (q : ItemQueue cap) : List ItemOp → ItemQueue cap × List (Int × Option ItemOut)
  | [] => (q, [])
  | op :: ops =>
    let r := op.apply q
    let rest := r.1.applyOps ops
    (rest.1, r.2 :: rest.2)

theorem footprint_sum_mod_four (items : List Item) : (items.map Item.footprint).sum % 4 = 0 := by
  induction items with
  | nil => rfl
  | cons it items ih =>
    rw [List.map_cons, List.sum_cons, Item.footprint]
    omega

theorem length_flatten_bytes {items : List Item} (h : ∀ it ∈ items, it.data.length = it.size32.toNat * 4) :
    (items.map Item.bytes).flatten.length = (items.map Item.footprint).sum := by
  induction items with
  | nil => rfl
  | cons it items ih =>
    rw [List.map_cons, List.flatten_cons, List.length_append, ih (fun x hx => h x (by simp [hx])),
      List.map_cons, List.sum_cons, Item.bytes, List.length_append, ringElement_length, h it (by simp),
      Item.footprint]
    omega

-- From an offset that is a multiple of 4, the storage (of a size that is one too)
-- has at least 4 bytes before its end: a header is never split.
theorem contiguous_ge_four {N x : Nat} (hN : 0 < N) (hN4 : N % 4 = 0) (hx : x % 4 = 0) :
    4 ≤ Fifo.contiguous N x := by
  have hd : 4 ∣ x % N := (Nat.dvd_mod_iff (Nat.dvd_of_mod_eq_zero hN4)).2 (Nat.dvd_of_mod_eq_zero hx)
  have := Nat.mod_lt x hN
  unfold Fifo.contiguous
  omega

section Holds

variable {rb : RingBuf w} {v : BitVec w} {f : Fifo}

theorem Holds.putClaim_four (h : Holds rb v f) (hal : rb.size % 4 = 0) (hst : (f.start + f.stored.length) % 4 = 0)
    (hs : 4 ≤ f.space rb.size) : (ringBufPutClaim rb 4).2.2 = 4 := by
  obtain ⟨off, hk, -⟩ := h.putClaim_eq 4
  have hc := contiguous_ge_four (N := rb.size) (by unfold Fifo.space at hs; omega) hal hst
  rw [hk]
  dsimp only
  unfold Fifo.putClaimSize
  omega

theorem Holds.getClaim_four (h : Holds rb v f) (hal : rb.size % 4 = 0) (hst : (f.start + f.got) % 4 = 0)
    (hd : f.got + 4 ≤ f.data.length) : (ringBufGetClaim rb 4).2.2 = 4 := by
  obtain ⟨off, hk, -⟩ := h.getClaim_eq 4
  have hfit := h.fits
  simp only [Fifo.length_stored] at hfit
  have hc := contiguous_ge_four (N := rb.size) (by omega) hal hst
  rw [hk]
  dsimp only
  unfold Fifo.getClaimSize
  omega

-- The get indices are fixed by the FIFO a buffer holds.
theorem Holds.eq_of_get {rb' : RingBuf w} (h : Holds rb v f) (h' : Holds rb' v f) (hbuf : rb'.buffer = rb.buffer)
    (hput : rb'.put = rb.put) (hs : rb'.size = rb.size) : rb' = rb := by
  obtain ⟨buf', put', ⟨gh', gt', gb'⟩, s'⟩ := rb'
  obtain ⟨buf, put, ⟨gh, gt, gb⟩, s⟩ := rb
  simp only at hbuf hput hs
  subst hbuf hput hs
  have e1 := h.getHead; have e2 := h.getTail; have e3 := h.getBase
  have e1' := h'.getHead; have e2' := h'.getTail; have e3' := h'.getBase
  simp only at e1 e2 e3 e1' e2' e3'
  rw [e1, e2, e3, e1', e2', e3']

-- A get claim undone by ring_buf_get_finish(buf, 0) gives back the very buffer.
theorem Holds.getFinish_zero_getClaim (h : Holds rb v f) (hg : f.got = 0) (n : Nat) :
    (ringBufGetFinish (ringBufGetClaim rb n).1 0).1 = rb := by
  obtain ⟨-, -, hc⟩ := h.getClaim n
  obtain ⟨-, hfin⟩ := hc.getFinish 0
  have hf : ((f.getClaim rb.size n).1.getFinish 0).1 = f := by
    obtain ⟨start, data, got, pending⟩ := f
    subst hg
    simp [Fifo.getClaim, Fifo.getFinish]
  rw [hf] at hfin
  exact h.eq_of_get hfin rfl rfl rfl

-- ring_buf_item_put once it has found room: the header claim takes 4 bytes, the
-- loop the words, and the finish commits both.
theorem Holds.itemPut {start : Nat} {D : List UInt8} (h : Holds rb v ⟨start, D, 0, []⟩)
    (hal : rb.size % 4 = 0) (hst : (start + D.length) % 4 = 0) (type : UInt16) (value : UInt8)
    {data32 : List UInt8} {size32 : UInt8} (hd : data32.length = size32.toNat * 4)
    (hfit : D.length + (size32.toNat * 4 + 4) ≤ rb.size) :
    let c := ringBufPutClaim rb 4
    let r := ringBufPutLoop { c.1 with buffer := writeBytes c.1.buffer c.2.1 (ringElement type size32 value) }
      data32 (size32.toNat * 4) 4
    Holds (ringBufPutFinish r.1 r.2).1 v ⟨start, D ++ (ringElement type size32 value ++ data32), 0, []⟩ := by
  dsimp only
  simp only [ringBufPutClaim_buffer, ringBufPutClaim_size]
  have hc4 : (ringBufPutClaim rb 4).2.2 = 4 :=
    h.putClaim_four hal (by simpa using hst) (by simp only [Fifo.space, Fifo.length_stored]; simp; omega)
  obtain ⟨hk, hc⟩ := h.putClaim 4 (ringElement type size32 value) (by simp)
  have hf1 : Fifo.putClaim rb.size ⟨start, D, 0, []⟩ 4 (ringElement type size32 value) =
      ⟨start, D, 0, ringElement type size32 value⟩ := by
    rw [Fifo.putClaim, ← hk, hc4, List.take_of_length_le (by simp)]
    rfl
  rw [hc4, List.take_of_length_le (by simp), hf1] at hc
  -- the loop copies all the words: the space after the header is enough
  obtain ⟨hl, hloop⟩ := hc.putLoop data32 (size32.toNat * 4) 4 hd.ge
  have hmin : min (size32.toNat * 4) (Fifo.space rb.size ⟨start, D, 0, ringElement type size32 value⟩) =
      size32.toNat * 4 := by
    simp only [Fifo.space, Fifo.length_stored, ringElement_length]
    omega
  simp only [ringBufPutClaim_size, hmin, List.take_of_length_le hd.le] at hl hloop
  obtain ⟨-, hfin⟩ := hloop.putFinish (4 + size32.toNat * 4)
  have hlen : (ringElement type size32 value ++ data32).length = 4 + size32.toNat * 4 := by simp [hd]
  simp only [Fifo.putFinish, hlen, lt_irrefl, if_false] at hfin
  rw [List.take_of_length_le hlen.le] at hfin
  rw [hl]
  exact hfin

-- ring_buf_item_get on a queue that starts with a header and its words: the
-- header claim reads the header, the loop the words, and the finish drops both.
theorem Holds.itemGet {start : Nat} {hdr d R : List UInt8} (h : Holds rb v ⟨start, hdr ++ d ++ R, 0, []⟩)
    (hal : rb.size % 4 = 0) (hst : start % 4 = 0) (hh : hdr.length = 4) :
    let c := ringBufGetClaim rb 4
    let r := ringBufGetLoop c.1 d.length 4 []
    readBytes c.1.buffer c.2.1 4 = hdr ∧ r.2 = (4 + d.length, d) ∧
      Holds (ringBufGetFinish r.1 (4 + d.length)).1 v ⟨start + (4 + d.length), R, 0, []⟩ := by
  dsimp only
  simp only [ringBufGetClaim_buffer]
  have hc4 : (ringBufGetClaim rb 4).2.2 = 4 := h.getClaim_four hal (by simpa using hst) (by simp [hh])
  obtain ⟨hk, hread, hc⟩ := h.getClaim 4
  have hf1 : Fifo.getClaim rb.size ⟨start, hdr ++ d ++ R, 0, []⟩ 4 = (⟨start, hdr ++ d ++ R, 4, []⟩, hdr) := by
    rw [Fifo.getClaim, ← hk, hc4, List.drop_zero, List.append_assoc, List.take_left' hh]
  rw [hc4, hf1] at hread
  rw [hf1] at hc
  -- the loop reads the words that follow the header
  obtain ⟨hl, hloop⟩ := hc.getLoop d.length 4 []
  have hmin : min d.length ((hdr ++ (d ++ R)).length - 4) = d.length := by simp [hh]
  simp only [List.append_assoc, hmin, List.drop_left' hh, List.take_left, List.nil_append] at hl hloop
  obtain ⟨-, hfin⟩ := hloop.getFinish (4 + d.length)
  simp only [Fifo.getFinish, lt_irrefl, if_false, ← List.append_assoc] at hfin
  rw [List.drop_left' (by simp [hh])] at hfin
  exact ⟨hread, hl, hfin⟩

end Holds

theorem ringBufItemPut_size (buf : RingBuf w) (type : UInt16) (value : UInt8) (data32 : List UInt8) (size32 : UInt8) :
    (ringBufItemPut buf type value data32 size32).1.size = buf.size := by
  unfold ringBufItemPut
  dsimp only
  split
  · rfl
  · simp [ringBufPutLoop_size]

theorem ringBufItemGet_size (buf : RingBuf w) (hasData : Bool) (out : ItemOut) :
    (ringBufItemGet buf hasData out).1.size = buf.size := by
  unfold ringBufItemGet
  dsimp only
  split
  · rfl
  · split
    · rfl
    · simp [ringBufGetLoop_size]

-- ring_buf_item_put refuses exactly the items that do not fit, and then changes nothing.
theorem ringBufItemPut_msgSize_iff (buf : RingBuf w) (type : UInt16) (value : UInt8) (data32 : List UInt8)
    (size32 : UInt8) :
    (ringBufItemPut buf type value data32 size32).2 = -eMsgSize ↔ ringBufSpaceGet buf < size32.toNat * 4 + 4 := by
  unfold ringBufItemPut
  dsimp only
  split
  · exact iff_of_true rfl ‹_›
  · exact iff_of_false (by simp [eMsgSize]) ‹_›

theorem ringBufItemPut_of_msgSize {buf : RingBuf w} {type : UInt16} {value : UInt8} {data32 : List UInt8}
    {size32 : UInt8} (h : (ringBufItemPut buf type value data32 size32).2 = -eMsgSize) :
    (ringBufItemPut buf type value data32 size32).1 = buf := by
  have hlt := (ringBufItemPut_msgSize_iff buf type value data32 size32).1 h
  unfold ringBufItemPut
  rw [if_pos hlt]

-- An item-mode ring buffer against its item queue: the storage is a whole number
-- of words and holds the items, header then words, back to back from a 4-aligned
-- logical position, with no claim pending.
structure ItemHolds {cap : Nat} (rb : RingBuf w) (v : BitVec w) (q : ItemQueue cap) : Prop where
  size : rb.size = cap
  aligned : cap % 4 = 0
  whole : ∀ it ∈ q.items, it.data.length = it.size32.toNat * 4
  fifo : ∃ start, start % 4 = 0 ∧ Holds rb v ⟨start, (q.items.map Item.bytes).flatten, 0, []⟩

section ItemHolds

variable {cap : Nat} {rb : RingBuf w} {v : BitVec w} {q : ItemQueue cap}

theorem ItemHolds.length_bytes (h : ItemHolds rb v q) : (q.items.map Item.bytes).flatten.length = q.used :=
  length_flatten_bytes h.whole

theorem ItemHolds.spaceGet (h : ItemHolds rb v q) : ringBufSpaceGet rb = cap - q.used := by
  obtain ⟨start, -, hf⟩ := h.fifo
  rw [hf.spaceGet, Fifo.space, Fifo.stored, List.append_nil, h.length_bytes, h.size]

-- The header claims of ring_buf_item_put and ring_buf_item_get get all 4 bytes.
theorem ItemHolds.putClaim_four (h : ItemHolds rb v q) (hs : 4 ≤ ringBufSpaceGet rb) :
    (ringBufPutClaim rb 4).2.2 = 4 := by
  obtain ⟨start, hst, hf⟩ := h.fifo
  have hmod := footprint_sum_mod_four q.items
  refine hf.putClaim_four (h.size ▸ h.aligned) ?_ (by rwa [← hf.spaceGet])
  simp only [Fifo.length_stored, List.length_nil, Nat.add_zero, h.length_bytes, ItemQueue.used]
  omega

theorem ItemHolds.getClaim_four (h : ItemHolds rb v q) (he : ringBufIsEmpty rb = false) :
    (ringBufGetClaim rb 4).2.2 = 4 := by
  obtain ⟨start, hst, hf⟩ := h.fifo
  obtain ⟨items, hused⟩ := q
  cases items with
  | nil => rw [hf.isEmpty.2 rfl] at he; cases he
  | cons it rest =>
    refine hf.getClaim_four (h.size ▸ h.aligned) (by simpa using hst) ?_
    simp [Item.bytes]

theorem ItemHolds.put (h : ItemHolds rb v q) (type : UInt16) (value : UInt8) {data32 : List UInt8} {size32 : UInt8}
    (hd : data32.length = size32.toNat * 4) :
    (ringBufItemPut rb type value data32 size32).2 = (q.put ⟨type, value, size32, data32⟩).2 ∧
      ItemHolds (ringBufItemPut rb type value data32 size32).1 v (q.put ⟨type, value, size32, data32⟩).1 := by
  have hspace := h.spaceGet
  by_cases hfit : cap - q.used < Item.footprint ⟨type, value, size32, data32⟩
  · -- no room: -EMSGSIZE, and the buffer is left as it was
    have hmsg : (ringBufItemPut rb type value data32 size32).2 = -eMsgSize :=
      (ringBufItemPut_msgSize_iff rb type value data32 size32).2 (by rw [hspace]; exact hfit)
    rw [ringBufItemPut_of_msgSize hmsg, hmsg]
    unfold ItemQueue.put
    rw [dif_pos hfit]
    exact ⟨rfl, h⟩
  · obtain ⟨start, hst, hf⟩ := h.fifo
    have hused := q.used_le
    have hmod := footprint_sum_mod_four q.items
    simp only [Item.footprint] at hfit
    have hput := hf.itemPut (h.size ▸ h.aligned)
      (by rw [h.length_bytes, ItemQueue.used]; omega) type value hd
      (by rw [h.length_bytes, h.size]; unfold ItemQueue.used at hfit ⊢; omega)
    unfold ringBufItemPut ItemQueue.put
    rw [if_neg (by rw [hspace]; omega), dif_neg (by unfold Item.footprint; omega)]
    refine ⟨rfl, by simp [ringBufPutLoop_size, h.size], h.aligned, fun it hit => ?_, start, hst, ?_⟩
    · rcases List.mem_append.mp hit with hit | hit
      · exact h.whole it hit
      · rw [List.mem_singleton.mp hit]
        exact hd
    · simpa [Item.bytes] using hput

-- A queue that starts with `it`: the storage starts with its header and words.
theorem ItemHolds.front {it : Item} {rest : List Item} (h : ItemHolds rb v q) (hq : q.items = it :: rest) :
    ∃ start, start % 4 = 0 ∧ it.data.length = it.size32.toNat * 4 ∧
      Holds rb v ⟨start, ringElement it.type it.size32 it.value ++ it.data ++ (rest.map Item.bytes).flatten, 0, []⟩ := by
  obtain ⟨start, hst, hf⟩ := h.fifo
  have hflat : (q.items.map Item.bytes).flatten =
      ringElement it.type it.size32 it.value ++ it.data ++ (rest.map Item.bytes).flatten := by
    simp [hq, Item.bytes]
  rw [hflat] at hf
  exact ⟨start, hst, h.whole it (by simp [hq]), hf⟩

-- ring_buf_item_get on a queue that starts with `it`: the header is read back,
-- and either the destination is too small and the claim undone, or the item is
-- taken whole.
theorem ItemHolds.itemGet_cons {it : Item} {rest : List Item} (h : ItemHolds rb v q) (hq : q.items = it :: rest)
    (hasData : Bool) (out : ItemOut) :
    ringBufItemGet rb hasData out =
      if (hasData && it.size32 > out.size32) = true then (rb, -eMsgSize, { out with size32 := it.size32 })
      else ((ringBufGetFinish (ringBufGetLoop (ringBufGetClaim rb 4).1 (it.size32.toNat * 4) 4 []).1
          (4 + it.size32.toNat * 4)).1, 0, ⟨it.type, it.value, it.size32, if hasData then it.data else out.data⟩) := by
  obtain ⟨start, hst, hw, hf⟩ := h.front hq
  have he : ringBufIsEmpty rb = false := by
    rw [Bool.eq_false_iff]
    intro he
    have := hf.isEmpty.1 he
    simp at this
  obtain ⟨hread, hl, -⟩ := hf.itemGet (h.size ▸ h.aligned) hst (ringElement_length _ _ _)
  obtain ⟨htype, hlen, hval⟩ := ringElement_decode it.type it.size32 it.value
  simp only [ringBufGetClaim_buffer] at hread
  rw [hw] at hl
  unfold ringBufItemGet
  simp only [he, Bool.false_eq_true, if_false, ringBufGetClaim_buffer, hread, htype, hlen, hval]
  by_cases hbig : (hasData && it.size32 > out.size32) = true
  · rw [if_pos hbig, if_pos hbig, hf.getFinish_zero_getClaim rfl 4]
  · rw [if_neg hbig, if_neg hbig, hl]

theorem ItemHolds.get (h : ItemHolds rb v q) (hasData : Bool) (out : ItemOut) :
    (ringBufItemGet rb hasData out).2 = (q.get hasData out).2 ∧
      ItemHolds (ringBufItemGet rb hasData out).1 v (q.get hasData out).1 := by
  obtain ⟨items, hused⟩ := q
  cases items with
  | nil =>
    -- an empty buffer: -EAGAIN
    obtain ⟨start, -, hf⟩ := h.fifo
    unfold ringBufItemGet ItemQueue.get
    rw [if_pos (hf.isEmpty.2 rfl)]
    exact ⟨rfl, h⟩
  | cons it rest =>
    rw [h.itemGet_cons rfl hasData out]
    by_cases hbig : (hasData && it.size32 > out.size32) = true
    · -- the destination is too small: nothing changes
      simp only [ItemQueue.get, hbig, if_true]
      exact ⟨trivial, h⟩
    · obtain ⟨start, hst, hw, hf⟩ := h.front rfl
      obtain ⟨-, -, hfin⟩ := hf.itemGet (h.size ▸ h.aligned) hst (ringElement_length _ _ _)
      rw [hw] at hfin
      rw [Bool.not_eq_true] at hbig
      simp only [ItemQueue.get, hbig, Bool.false_eq_true, if_false]
      exact ⟨trivial, by simp [ringBufGetLoop_size, h.size], h.aligned, fun x hx => h.whole x (by simp [hx]),
        start + (4 + it.size32.toNat * 4), by omega, hfin⟩

-- ring_buf_item_get with too small a destination reports the length of the first
-- item and leaves the buffer as it was.
theorem ItemHolds.get_msgSize (h : ItemHolds rb v q) {out : ItemOut}
    (hm : (ringBufItemGet rb true out).2.1 = -eMsgSize) :
    (ringBufItemGet rb true out).1 = rb ∧ ∃ it rest, q.items = it :: rest ∧ out.size32 < it.size32 ∧
      (ringBufItemGet rb true out).2.2 = { out with size32 := it.size32 } := by
  rcases hq : q.items with _ | ⟨it, rest⟩
  · obtain ⟨hr, -⟩ := h.get true out
    obtain ⟨items, hused⟩ := q
    simp only at hq
    subst hq
    rw [hr] at hm
    simp [ItemQueue.get, eAgain, eMsgSize] at hm
  · rw [h.itemGet_cons hq] at hm ⊢
    by_cases hbig : out.size32 < it.size32
    · simp [hbig]
    · simp [hbig, eMsgSize] at hm

theorem ItemHolds.run (h : ItemHolds rb v q) (op : ItemOp) (hl : op.Legal) :
    (op.run rb).2 = (op.apply q).2 ∧ ItemHolds (op.run rb).1 v (op.apply q).1 := by
  cases op with
  | put type value data32 size32 =>
    obtain ⟨hr, hh⟩ := h.put type value hl
    exact ⟨by simp [ItemOp.run, ItemOp.apply, hr], hh⟩
  | get hasData out =>
    obtain ⟨hr, hh⟩ := h.get hasData out
    exact ⟨by simp [ItemOp.run, ItemOp.apply, hr], hh⟩

-- Every call keeps the relation, so a whole run does, by induction over the calls.
theorem ItemHolds.runItems (h : ItemHolds rb v q) (ops : List ItemOp) (hl : ∀ op ∈ ops, op.Legal) :
    (runItems rb ops).2 = (q.applyOps ops).2 ∧ ItemHolds (runItems rb ops).1 v (q.applyOps ops).1 := by
  induction ops generalizing rb q with
  | nil => exact ⟨rfl, h⟩
  | cons op ops ih =>
    obtain ⟨hr, hh⟩ := h.run op (hl op (by simp))
    obtain ⟨hr', hh'⟩ := ih hh (fun op' hop => hl op' (by simp [hop]))
    exact ⟨by simp [runItems, ItemQueue.applyOps, hr, hr'], hh'⟩

end ItemHolds

theorem itemHolds_reset (rb : RingBuf w) (v : BitVec w) (hw : 2 * rb.size < 2 ^ w) (h4 : rb.size % 4 = 0) :
    ItemHolds (ringBufInternalReset rb v) v (ItemQueue.empty : ItemQueue rb.size) :=
  ⟨rfl, h4, by simp [ItemQueue.empty], 0, rfl, holds_reset rb v hw⟩

-- An item-mode ring buffer of a size that is a multiple of 4, from any reset
-- value: a run of ring_buf_item_put and ring_buf_item_get answers as the item
-- queue; -EMSGSIZE from a put means exactly that the item does not fit and
-- changes nothing; -EMSGSIZE from a get reports the first item's length and
-- changes nothing; and both header claims always get their 4 bytes.
theorem ring_buf_item_round_trip (large : Bool) (buf : RingBuf (idxBits large)) (v : BitVec (idxBits large))
    (hsize : buf.size ≤ ringBufferMaxSize large) (h4 : buf.size % 4 = 0) (ops : List ItemOp)
    (hl : ∀ op ∈ ops, op.Legal) :
    let r := runItems (ringBufInternalReset buf v) ops
    let q := (ItemQueue.empty : ItemQueue buf.size).applyOps ops
    r.2 = q.2 ∧ ringBufSpaceGet r.1 = buf.size - q.1.used ∧
      (∀ type value data32 size32, ((ringBufItemPut r.1 type value data32 size32).2 = -eMsgSize ↔
          ringBufSpaceGet r.1 < size32.toNat * 4 + 4) ∧
        ((ringBufItemPut r.1 type value data32 size32).2 = -eMsgSize →
          (ringBufItemPut r.1 type value data32 size32).1 = r.1)) ∧
      (∀ out, (ringBufItemGet r.1 true out).2.1 = -eMsgSize →
        (ringBufItemGet r.1 true out).1 = r.1 ∧ ∃ it rest, q.1.items = it :: rest ∧ out.size32 < it.size32 ∧
          (ringBufItemGet r.1 true out).2.2 = { out with size32 := it.size32 }) ∧
      (4 ≤ ringBufSpaceGet r.1 → (ringBufPutClaim r.1 4).2.2 = 4) ∧
      (ringBufIsEmpty r.1 = false → (ringBufGetClaim r.1 4).2.2 = 4) := by
  intro r q
  obtain ⟨hr, h⟩ := (itemHolds_reset buf v (two_mul_lt_of_le_maxSize hsize) h4).runItems ops hl
  refine ⟨hr, h.spaceGet, fun type value data32 size32 => ?_, fun out hm => h.get_msgSize hm,
    h.putClaim_four, h.getClaim_four⟩
  exact ⟨ringBufItemPut_msgSize_iff r.1 type value data32 size32, ringBufItemPut_of_msgSize⟩

theorem ring_buf_item_round_trip_wrapping :
    (runItems (ringBufInternalReset (⟨fun _ => 0, ⟨0, 0, 0⟩, ⟨0, 0, 0⟩, 16⟩ : RingBuf 16) 65530)
      [.put 7 1 [1, 2, 3, 4] 1, .put 300 2 [5, 6, 7, 8, 9, 10, 11, 12] 2, .get true ⟨0, 0, 0, []⟩,
        .get true ⟨0, 0, 4, []⟩, .put 300 2 [5, 6, 7, 8, 9, 10, 11, 12] 2, .put 1 9 [] 0,
        .get true ⟨0, 0, 4, []⟩, .get false ⟨0, 0, 0, []⟩, .get true ⟨0, 0, 4, []⟩]).2 =
      [(0, none), (-eMsgSize, none), (-eMsgSize, some ⟨0, 0, 1, []⟩), (0, some ⟨7, 1, 1, [1, 2, 3, 4]⟩),
        (0, none), (0, none), (0, some ⟨300, 2, 2, [5, 6, 7, 8, 9, 10, 11, 12]⟩), (0, some ⟨1, 9, 0, []⟩),
        (-eAgain, some ⟨0, 0, 4, []⟩)] :=
  (ring_buf_item_round_trip false _ 65530 (by decide) (by decide) _ (by decide)).1.trans (by decide)

end Zephyr.Ring
