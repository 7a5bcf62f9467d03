import Mathlib
import Zephyr.Lib.Bytes

namespace Zephyr.NetBuf

open Zephyr.Lib

-- A struct net_buf in a fragment chain; the chain is the list of fragments
-- reached through frags, and the empty chain is a NULL buf. `data` is
-- data[0, len), `tailroom` is net_buf_tailroom, and `refWord` is the atomic_t
-- slot whose least significant byte is ref.
structure Frag where
  id : Nat
  refWord : Nat
  data : List UInt8
  tailroom : Nat

-- The bytes of a chain, fragment after fragment.
def chainData (frags : List Frag) : List UInt8 := (frags.map Frag.data).flatten

@[simp] theorem chainData_nil : chainData [] = [] := rfl

@[simp] theorem chainData_cons (f : Frag) (fs : List Frag) : chainData (f :: fs) = f.data ++ chainData fs := by
  simp [chainData]

theorem chainData_append (fs gs : List Frag) : chainData (fs ++ gs) = chainData fs ++ chainData gs := by
  simp [chainData]

/-! Finding the fragment an offset falls in -/

-- The first loop of net_buf_linearize and net_buf_data_match.
def skipFrags : List Frag → Nat → List Frag × Nat
  | [], offset => ([], offset)
  | frag :: frags, offset =>
    if offset ≥ frag.data.length then skipFrags frags (offset - frag.data.length) else (frag :: frags, offset)

-- The skip keeps the bytes from the offset on, and stops inside a fragment.
theorem skipFrags_spec (frags : List Frag) (offset : Nat) :
    (chainData (skipFrags frags offset).1).drop (skipFrags frags offset).2 = (chainData frags).drop offset ∧
      ∀ f ∈ (skipFrags frags offset).1.head?, (skipFrags frags offset).2 < f.data.length := by
  induction frags generalizing offset with
  | nil => simp [skipFrags]
  | cons frag frags ih =>
    by_cases hge : offset ≥ frag.data.length
    · simp only [skipFrags, hge, if_true, chainData_cons]
      refine ⟨?_, (ih _).2⟩
      rw [(ih _).1, List.drop_append, List.drop_eq_nil_of_le hge, List.nil_append]
    · rw [skipFrags, if_neg hge]
      exact ⟨rfl, by simpa using hge⟩

/-! net_buf_linearize -/

-- The copy loop of net_buf_linearize, from the fragment the skip stopped at.
def linearizeCopy (dst : Nat → UInt8) : List Frag → Nat → Nat → Nat → (Nat → UInt8) × Nat
  | [], _, _, copied => (dst, copied)
  | frag :: frags, offset, len, copied =>
    if len > 0 then
      let toCopy := min len (frag.data.length - offset)
      let dst := writeList dst copied ((frag.data.drop offset).take toCopy)
      linearizeCopy dst frags 0 (len - toCopy) (copied + toCopy)
    else (dst, copied)

-- net_buf_linearize; dst is memory from dst on, and the result is the new memory and the count.
def netBufLinearize (dst : Nat → UInt8) (dstLen : Nat) (src : List Frag) (offset len : Nat) :
    (Nat → UInt8) × Nat :=
  let len := min len dstLen
  let r := skipFrags src offset
  linearizeCopy dst r.1 r.2 len 0

-- Copying from inside the first fragment: the bytes from the offset on, as many as asked.
theorem linearizeCopy_spec (dst : Nat → UInt8) (frags : List Frag) (offset len copied : Nat)
    (hoff : ∀ f ∈ frags.head?, offset ≤ f.data.length) :
    linearizeCopy dst frags offset len copied =
      (writeList dst copied (((chainData frags).drop offset).take len),
        copied + min len ((chainData frags).drop offset).length) := by
  induction frags generalizing dst offset len copied with
  | nil => simp [linearizeCopy, writeList]
  | cons frag frags ih =>
    have hle : offset ≤ frag.data.length := hoff frag (by simp)
    rcases Nat.eq_zero_or_pos len with rfl | hlen
    · simp [linearizeCopy, writeList]
    · simp only [linearizeCopy, hlen, if_true]
      rw [ih _ 0 _ _ (by simp), List.drop_zero]
      generalize ht : min len (frag.data.length - offset) = t
      -- the bytes of this fragment, then those of the rest
      have hA : ((frag.data.drop offset).take t).length = t := by simp; omega
      have htake : (frag.data.drop offset).take t = (frag.data.drop offset).take len :=
        List.take_eq_take_iff.2 (by simp; omega)
      have hrest : len - t = len - (frag.data.length - offset) := by omega
      rw [chainData_cons, List.drop_append_of_le_length hle, List.take_append, List.length_drop, ← hrest,
        ← htake, writeList_append, hA]
      simp only [List.length_append, List.length_drop, Prod.mk.injEq, true_and]
      omega

-- net_buf_linearize copies S[offset, offset + k) to dst[0, k) and returns k.
theorem netBufLinearize_eq (dst : Nat → UInt8) (dstLen : Nat) (src : List Frag) (offset len : Nat) :
    netBufLinearize dst dstLen src offset len =
      (writeList dst 0 (((chainData src).drop offset).take (min len dstLen)),
        min (min len dstLen) ((chainData src).length - offset)) := by
  obtain ⟨hdrop, hlt⟩ := skipFrags_spec src offset
  rw [netBufLinearize, linearizeCopy_spec _ _ _ _ _ fun f hf => Nat.le_of_lt (hlt f hf), hdrop]
  simp

-- Byte by byte: dst[i] is S[offset + i] below the count and untouched from it on.
theorem netBufLinearize_written (dst : Nat → UInt8) (dstLen : Nat) (src : List Frag) (offset len : Nat) :
    (∀ i < (netBufLinearize dst dstLen src offset len).2,
      some ((netBufLinearize dst dstLen src offset len).1 i) = (chainData src)[offset + i]?) ∧
    ∀ i, (netBufLinearize dst dstLen src offset len).2 ≤ i → (netBufLinearize dst dstLen src offset len).1 i = dst i := by
  rw [netBufLinearize_eq]
  dsimp only
  refine ⟨fun i hi => ?_, fun i hi => ?_⟩
  · have hlen : i < (((chainData src).drop offset).take (min len dstLen)).length := by simpa using hi
    rw [writeList_apply, dif_pos ⟨Nat.zero_le i, by simpa using hlen⟩, ← List.getElem?_eq_getElem]
    simp only [Nat.sub_zero, List.getElem?_take, List.getElem?_drop]
    rw [if_pos (by omega)]
  · rw [writeList_apply, dif_neg (by simp; omega)]

/-! net_buf_data_match -/

-- The inner loop of net_buf_data_match over one fragment's bytes; true when it
-- returned at a mismatch.
def dataMatchBytes (dptr : Nat → UInt8) : List UInt8 → Nat → Bool × Nat
  | [], compared => (false, compared)
  | b :: bs, compared => if dptr compared ≠ b then (true, compared) else dataMatchBytes dptr bs (compared + 1)

def dataMatchLoop (dptr : Nat → UInt8) : List Frag → Nat → Nat → Nat → Nat
  | [], _, _, compared => compared
  | frag :: frags, offset, len, compared =>
    if len > 0 then
      let toCompare := min len (frag.data.length - offset)
      let r := dataMatchBytes dptr ((frag.data.drop offset).take toCompare) compared
      if r.1 then r.2 else dataMatchLoop dptr frags 0 (len - toCompare) r.2
    else compared

-- net_buf_data_match; the empty chain is a NULL buf and `none` a NULL data.
def netBufDataMatch (buf : List Frag) (offset : Nat) (data : Option (Nat → UInt8)) (len : Nat) : Nat :=
  match buf, data with
  | [], _ => 0
  | _, none => 0
  | buf, some dptr =>
    let r := skipFrags buf offset
    dataMatchLoop dptr r.1 r.2 len 0

-- data[c, c + n) as a list.
def dataList (dptr : Nat → UInt8) (c n : Nat) : List UInt8 := (List.range n).map fun j => dptr (c + j)

@[simp] theorem length_dataList (dptr : Nat → UInt8) (c n : Nat) : (dataList dptr c n).length = n := by
  simp [dataList]

theorem dataList_succ (dptr : Nat → UInt8) (c n : Nat) :
    dataList dptr c (n + 1) = dptr c :: dataList dptr (c + 1) n := by
  simp only [dataList, List.range_succ_eq_map, List.map_cons, List.map_map, Nat.add_zero]
  congr 1
  exact List.map_congr_left fun j _ => by simp [Nat.add_assoc, Nat.add_comm 1 j]

theorem dataList_add (dptr : Nat → UInt8) (c m n : Nat) :
    dataList dptr c (m + n) = dataList dptr c m ++ dataList dptr (c + m) n := by
  simp [dataList, List.range_add, Nat.add_assoc]

theorem dataMatchBytes_spec (dptr : Nat → UInt8) (bs : List UInt8) (c : Nat) :
    dataMatchBytes dptr bs c =
      (decide (prefixLen (dataList dptr c bs.length) bs < bs.length), c + prefixLen (dataList dptr c bs.length) bs) := by
  induction bs generalizing c with
  | nil => simp [dataMatchBytes, prefixLen]
  | cons b bs ih =>
    rw [List.length_cons, dataList_succ, dataMatchBytes]
    by_cases hb : dptr c = b
    · simp only [hb, ne_eq, not_true_eq_false, if_false, ih, prefixLen, if_true, Prod.mk.injEq]
      constructor
      · simp
      · omega
    · simp [hb, prefixLen]

-- Comparing from inside the first fragment: the common prefix with the bytes from the offset on.
theorem dataMatchLoop_spec (dptr : Nat → UInt8) (frags : List Frag) (offset len c : Nat)
    (hoff : ∀ f ∈ frags.head?, offset ≤ f.data.length) :
    dataMatchLoop dptr frags offset len c = c + prefixLen (dataList dptr c len) ((chainData frags).drop offset) := by
  induction frags generalizing offset len c with
  | nil => cases dataList dptr c len <;> simp [dataMatchLoop, prefixLen]
  | cons frag frags ih =>
    have hle : offset ≤ frag.data.length := hoff frag (by simp)
    rcases Nat.eq_zero_or_pos len with rfl | hlen
    · simp [dataMatchLoop, dataList, prefixLen]
    · simp only [dataMatchLoop, hlen, if_true]
      generalize ht : min len (frag.data.length - offset) = t
      have hA : ((frag.data.drop offset).take t).length = t := by simp; omega
      rw [dataMatchBytes_spec, hA]
      -- split data[c, c + len) and the chain's bytes at t
      have hT : (chainData (frag :: frags)).drop offset = (frag.data.drop offset).take t ++
          (chainData (frag :: frags)).drop (offset + t) := by
        rw [← List.drop_drop, chainData_cons, List.drop_append_of_le_length hle]
        nth_rewrite 1 [← List.take_append_drop t (frag.data.drop offset ++ chainData frags)]
        rw [List.take_append_of_le_length (by simp; omega)]
      have hD : dataList dptr c len = dataList dptr c t ++ dataList dptr (c + t) (len - t) := by
        rw [← dataList_add]
        congr 1
        omega
      rw [hD, hT, prefixLen_append _ _ (by simp [hA])]
      by_cases hq : prefixLen (dataList dptr c t) ((frag.data.drop offset).take t) < t
      · simp [hq, Nat.ne_of_lt hq]
      · have hq' : prefixLen (dataList dptr c t) ((frag.data.drop offset).take t) = t :=
          Nat.le_antisymm (by simpa using prefixLen_le_left (dataList dptr c t) _) (Nat.not_lt.1 hq)
        rw [hq', length_dataList, if_pos rfl, if_neg (by simp), ih 0 _ _ (by simp)]
        rcases Nat.eq_zero_or_pos (len - t) with h0 | hpos
        · simp [h0, dataList, prefixLen]
        · have hfrag : offset + t = frag.data.length := by omega
          rw [hfrag, chainData_cons, List.drop_left, List.drop_zero, Nat.add_assoc]

theorem netBufDataMatch_eq (buf : List Frag) (offset : Nat) (dptr : Nat → UInt8) (len : Nat) (hbuf : buf ≠ []) :
    netBufDataMatch buf offset (some dptr) len = prefixLen (dataList dptr 0 len) ((chainData buf).drop offset) := by
  obtain ⟨hdrop, hlt⟩ := skipFrags_spec buf offset
  cases buf with
  | nil => exact absurd rfl hbuf
  | cons frag frags =>
    rw [netBufDataMatch, dataMatchLoop_spec _ _ _ _ _ fun f hf => Nat.le_of_lt (hlt f hf), hdrop, Nat.zero_add]
    exact List.cons_ne_nil _ _

end Zephyr.NetBuf
