import Mathlib
import Zephyr.Lib.CArith

namespace Zephyr.Bitarray

def eInval : Int := 22

def eNoSpc : Int := 28

def eFault : Int := 14

-- Shifting an unsigned long by its width or more is undefined in C.
inductive Fault where
  | shiftOverflow
  deriving DecidableEq, Repr

-- BIT_MASK(n) = BIT(n) - 1UL, for an unsigned long of `ulongBits` bits.
def bitMask (ulongBits n : Nat) : Except Fault Nat :=
  if n < ulongBits then .ok (2 ^ n - 1) else .error .shiftOverflow

-- BIT_MASK(n) stored into a uint32_t, at a call site where n < 32.
def mask32 (n : Nat) : UInt32 := UInt32.ofNat (2 ^ n - 1)

def u32CountLeadingZeros (x : UInt32) : Nat := if x = 0 then 32 else 31 - Nat.log2 x.toNat

-- find_lsb_set: one plus the index of the lowest set bit, 0 for 0.
def findLsbSet (x : UInt32) : Nat :=
  match (List.range 32).find? (fun i => x.toNat.testBit i) with
  | some i => i + 1
  | none => 0

-- `bundles` holds num_bundles uint32_t words, bit i of the array at bit i % 32 of
-- bundle i / 32.
structure SysBitarray where
  numBits : Nat
  numBundles : Nat
  bundles : List UInt32

def sysBitarrayDefine (totalBits : Nat) : SysBitarray :=
  let n := ((totalBits + 7) / 8 + 3) / 4
  ⟨totalBits, n, List.replicate n 0⟩

/-! bitmask_find_gap -/

-- One turn of the loop of bitmask_find_gap on the inverted mask: block_size, loc
-- and the mask left for the next turn.
def findGapStep (mask : UInt32) : Nat × Nat × UInt32 :=
  let idx := 31 - u32CountLeadingZeros mask
  let rmask := ~~~(~~~(mask32 idx) ||| mask)
  if rmask ≠ 0 then
    let nidx := 31 - u32CountLeadingZeros rmask
    (idx - nidx, nidx + 1, mask &&& mask32 nidx)
  else (idx + 1, 0, 0)

theorem toNat_not_not_or_le (a b : UInt32) : (~~~(~~~a ||| b)).toNat ≤ a.toNat := by
  have h : ~~~(~~~a ||| b) = a &&& ~~~b := by
    apply UInt32.toBitVec_inj.mp
    simp only [UInt32.toBitVec_not, UInt32.toBitVec_or, UInt32.toBitVec_and, BitVec.not_or, BitVec.not_not]
  rw [h, UInt32.toNat_and]
  exact Nat.and_le_left

theorem toNat_mask32 {n : Nat} (hn : n ≤ 32) : (mask32 n).toNat = 2 ^ n - 1 := by
  have : 2 ^ n ≤ 2 ^ 32 := Nat.pow_le_pow_right (by decide) hn
  have hpos := Nat.two_pow_pos n
  exact UInt32.toNat_ofNat_of_lt' (by rw [UInt32.size]; omega)

theorem log2_toNat_lt (x : UInt32) : Nat.log2 x.toNat < 32 := by
  rcases Nat.eq_zero_or_pos x.toNat with h | h
  · rw [h]; decide
  · exact (Nat.log2_lt (by omega)).2 x.toNat_lt

theorem sub_countLeadingZeros {x : UInt32} (hx : x ≠ 0) : 31 - u32CountLeadingZeros x = Nat.log2 x.toNat := by
  have := log2_toNat_lt x
  rw [u32CountLeadingZeros, if_neg hx]
  omega

-- Each turn drops the top block of the mask, so the loop ends.
theorem findGapStep_lt {mask : UInt32} (hm : mask ≠ 0) : (findGapStep mask).2.2.toNat < mask.toNat := by
  have hm' : mask.toNat ≠ 0 := fun h => hm (UInt32.toNat_inj.mp (by rw [h]; rfl))
  have htop := Nat.log2_self_le hm'
  have h32 := log2_toNat_lt mask
  unfold findGapStep
  rw [sub_countLeadingZeros hm]
  dsimp only
  split
  · rename_i hr
    have hle := toNat_not_not_or_le (mask32 (Nat.log2 mask.toNat)) mask
    rw [toNat_mask32 (by omega)] at hle
    have hr' : (~~~(~~~(mask32 (Nat.log2 mask.toNat)) ||| mask)).toNat ≠ 0 :=
      fun h => hr (UInt32.toNat_inj.mp (by rw [h]; rfl))
    have hlt := (Nat.log2_lt hr').2 (by omega : _ < 2 ^ Nat.log2 mask.toNat)
    rw [sub_countLeadingZeros (fun h => hr' (by rw [h]; rfl))]
    rw [UInt32.toNat_and, toNat_mask32 (by omega)]
    have := Nat.and_le_right (n := mask.toNat)
      (m := 2 ^ Nat.log2 (~~~(~~~(mask32 (Nat.log2 mask.toNat)) ||| mask)).toNat - 1)
    have := Nat.pow_lt_pow_right (a := 2) (by decide) hlt
    omega
  · simp only [UInt32.toNat_zero]
    omega

def bitmaskFindGapLoop (numBits : Nat) (firstMatch : Bool) (mask : UInt32) (max : Nat) (maxLoc : Int) : Int :=
  if _hm : mask = 0 then maxLoc else
  let r := findGapStep mask
  if r.1 = numBits ∨ (firstMatch ∧ r.1 > numBits) then r.2.1
  else if r.1 ≥ numBits ∧ r.1 < max then bitmaskFindGapLoop numBits firstMatch r.2.2 r.1 r.2.1
  else bitmaskFindGapLoop numBits firstMatch r.2.2 max maxLoc
termination_by mask.toNat
decreasing_by
  all_goals exact findGapStep_lt _hm

-- The location of a run of num_bits clear bits of `mask` below total_bits (the
-- first one that fits exactly, or else the smallest that fits), or -1.
def bitmaskFindGap (mask : UInt32) (numBits totalBits : Nat) (firstMatch : Bool) : Int :=
  let mask := if totalBits < 32 then mask ||| ~~~(mask32 totalBits) else mask
  bitmaskFindGapLoop numBits firstMatch (~~~mask) (2 ^ 32 - 1) (-1)

/-! Regions of bits -/

-- Start and end bundles of a region, the offsets in them, and their masks.
structure BundleData where
  sidx : Nat
  eidx : Nat
  soff : Nat
  eoff : Nat
  smask : UInt32
  emask : UInt32

def setupBundleData (offset numBits : Nat) : BundleData :=
  let sidx := offset / 32
  let soff := offset % 32
  let eidx := (offset + numBits - 1) / 32
  let eoff := (offset + numBits - 1) % 32
  let smask := ~~~(((1 : UInt32) <<< soff.toUInt32) - 1)
  let emask := (((1 : UInt32) <<< eoff.toUInt32) - 1) ||| ((1 : UInt32) <<< eoff.toUInt32)
  -- a region within one bundle combines the masks
  ⟨sidx, eidx, soff, eoff, if sidx = eidx then smask &&& emask else smask, emask⟩

def bundleAt (ba : SysBitarray) (i : Nat) : UInt32 := ba.bundles.getD i 0

-- The start and end bundles, inverted unless set bits are matched, and the
-- in-between bundles, inverted the other way so that a match is 0.
def edgeBundle (ba : SysBitarray) (matchSet : Bool) (i : Nat) : UInt32 :=
  if matchSet then bundleAt ba i else ~~~(bundleAt ba i)

def midBundle (ba : SysBitarray) (matchSet : Bool) (i : Nat) : UInt32 :=
  if matchSet then ~~~(bundleAt ba i) else bundleAt ba i

-- find_lsb_set(mismatch_bundle) - 1 + mismatch_bundle_idx * bundle_bitness
def mismatchAt (mb : UInt32) (i : Nat) : Nat := findLsbSet mb - 1 + i * 32

-- Whether every bit of [offset, offset + numBits) is set (matchSet) or clear; if
-- not, the offset of the lowest mismatching bit of the first bundle that has one.
def matchRegion (ba : SysBitarray) (offset numBits : Nat) (matchSet : Bool) : BundleData × Option Nat :=
  let bd := setupBundleData offset numBits
  if bd.sidx = bd.eidx then
    if edgeBundle ba matchSet bd.sidx &&& bd.smask ≠ bd.smask then
      (bd, some (mismatchAt (~~~(edgeBundle ba matchSet bd.sidx) &&& bd.smask) bd.sidx))
    else (bd, none)
  else if edgeBundle ba matchSet bd.sidx &&& bd.smask ≠ bd.smask then
    (bd, some (mismatchAt (~~~(edgeBundle ba matchSet bd.sidx) &&& bd.smask) bd.sidx))
  else if edgeBundle ba matchSet bd.eidx &&& bd.emask ≠ bd.emask then
    (bd, some (mismatchAt (~~~(edgeBundle ba matchSet bd.eidx) &&& bd.emask) bd.eidx))
  else
    match (List.range' (bd.sidx + 1) (bd.eidx - bd.sidx - 1)).find? (fun i => midBundle ba matchSet i ≠ 0) with
    | some i => (bd, some (mismatchAt (midBundle ba matchSet i) i))
    | none => (bd, none)

def setRegion (ba : SysBitarray) (offset numBits : Nat) (toSet : Bool) (bd : Option BundleData) : SysBitarray :=
  let bd := bd.getD (setupBundleData offset numBits)
  let edge (mask b : UInt32) : UInt32 := if toSet then b ||| mask else b &&& ~~~mask
  let upd (i : Nat) (f : UInt32 → UInt32) (bs : List UInt32) : List UInt32 := bs.set i (f (bs.getD i 0))
  if bd.sidx = bd.eidx then { ba with bundles := upd bd.sidx (edge bd.smask) ba.bundles }
  else
    let bs := upd bd.eidx (edge bd.emask) (upd bd.sidx (edge bd.smask) ba.bundles)
    let bs := (List.range' (bd.sidx + 1) (bd.eidx - bd.sidx - 1)).foldl
      (fun bs i => bs.set i (if toSet then ~~~0 else 0)) bs
    { ba with bundles := bs }

-- The argument check shared by free and the region calls.
def regionInvalid (ba : SysBitarray) (numBits offset : Nat) : Bool :=
  numBits = 0 ∨ numBits > ba.numBits ∨ offset ≥ ba.numBits ∨ offset + numBits - 1 ≥ ba.numBits

def isRegionSetClear (ba : SysBitarray) (numBits offset : Nat) (toSet : Bool) : Bool :=
  if regionInvalid ba numBits offset then false else (matchRegion ba offset numBits toSet).2.isNone

def sysBitarrayIsRegionSet (ba : SysBitarray) (numBits offset : Nat) : Bool := isRegionSetClear ba numBits offset true

def sysBitarrayIsRegionCleared (ba : SysBitarray) (numBits offset : Nat) : Bool :=
  isRegionSetClear ba numBits offset false

def setClearRegion (ba : SysBitarray) (numBits offset : Nat) (toSet : Bool) : SysBitarray × Int :=
  if regionInvalid ba numBits offset then (ba, -eInval) else (setRegion ba offset numBits toSet none, 0)

def sysBitarraySetRegion (ba : SysBitarray) (numBits offset : Nat) : SysBitarray × Int :=
  setClearRegion ba numBits offset true

def sysBitarrayClearRegion (ba : SysBitarray) (numBits offset : Nat) : SysBitarray × Int :=
  setClearRegion ba numBits offset false

-- The start mask ~((1 << s) - 1) holds the bits from s up.
theorem smask_testBit : ∀ s < 32, ∀ i < 32, (~~~(((1 : UInt32) <<< s.toUInt32) - 1)).toNat.testBit i = decide (s ≤ i) := by
  intro s hs i hi
  show (~~~(((1 : UInt32) <<< s.toUInt32) - 1)).toBitVec.getLsbD i = _
  rw [UInt32.toBitVec_not, BitVec.getLsbD_not, BitVec.getLsbD, UInt32.toNat_toBitVec,
    Lib.UInt32.toNat_one_shiftLeft_sub_one hs, Nat.testBit_two_pow_sub_one]
  simp only [hi, decide_true, Bool.true_and, ← decide_not, Nat.not_lt]

-- The start mask has no bit below the start offset.
theorem smask_testBit_low : ∀ s < 32, ∀ i < s, (~~~(((1 : UInt32) <<< s.toUInt32) - 1)).toNat.testBit i = false := by
  intro s hs i hi
  rw [smask_testBit s hs i (by omega), decide_eq_false_iff_not, Nat.not_le]
  exact hi

theorem findLsbSet_ge {x : UInt32} {s : Nat} (hx : x ≠ 0) (hlow : ∀ i < s, x.toNat.testBit i = false) :
    s + 1 ≤ findLsbSet x := by
  unfold findLsbSet
  split
  · rename_i i hi
    have hbit : x.toNat.testBit i = true := List.find?_some hi
    by_contra hlt
    rw [hlow i (by omega)] at hbit
    exact Bool.false_ne_true hbit
  · rename_i hnone
    exfalso
    have hx' : x.toNat ≠ 0 := fun h => hx (UInt32.toNat_inj.mp (by rw [h]; rfl))
    obtain ⟨i, hi⟩ := Nat.exists_testBit_of_ne_zero hx'
    have hi32 : i < 32 := by
      by_contra hge
      have h2 : 2 ^ 32 ≤ 2 ^ i := Nat.pow_le_pow_right (by decide) (by omega)
      have := Nat.testBit_lt_two_pow (Nat.lt_of_lt_of_le x.toNat_lt h2)
      rw [this] at hi
      exact Bool.false_ne_true hi
    exact List.find?_eq_none.mp hnone i (List.mem_range.mpr hi32) hi

theorem and_eq_self_of_not_and_eq_zero {a m : UInt32} (h : ~~~a &&& m = 0) : a &&& m = m := by
  apply UInt32.toBitVec_inj.mp
  have h' := congrArg UInt32.toBitVec h
  simp only [UInt32.toBitVec_and, UInt32.toBitVec_not, UInt32.toBitVec_zero] at h' ⊢
  ext i hi
  have := congrArg (fun x => x.getLsbD i) h'
  simp at this ⊢
  grind

-- A mismatch in the start bundle lies at or after the start offset.
theorem start_mismatch_ge {b : UInt32} {offset numBits : Nat}
    (h : b &&& (setupBundleData offset numBits).smask ≠ (setupBundleData offset numBits).smask) :
    offset ≤ mismatchAt (~~~b &&& (setupBundleData offset numBits).smask) (setupBundleData offset numBits).sidx := by
  have hne : ~~~b &&& (setupBundleData offset numBits).smask ≠ 0 := fun h0 => h (and_eq_self_of_not_and_eq_zero h0)
  have hlow : ∀ i < offset % 32, (~~~b &&& (setupBundleData offset numBits).smask).toNat.testBit i = false := by
    intro i hi
    have hs := smask_testBit_low (offset % 32) (Nat.mod_lt _ (by decide)) i hi
    simp only [UInt32.toNat_and, Nat.testBit_and, setupBundleData]
    split <;> simp_all [UInt32.toNat_and, Nat.testBit_and]
  have := findLsbSet_ge hne hlow
  have hs : (setupBundleData offset numBits).sidx = offset / 32 := rfl
  rw [mismatchAt, hs]
  omega

-- A mismatch in a later bundle lies past the start bundle.
theorem later_mismatch_ge (mb : UInt32) {offset i : Nat} (numBits : Nat)
    (hi : (setupBundleData offset numBits).sidx < i) : offset ≤ mismatchAt mb i := by
  simp only [mismatchAt, setupBundleData] at hi ⊢
  have : (offset / 32 + 1) * 32 ≤ i * 32 := Nat.mul_le_mul_right 32 hi
  omega

theorem matchRegion_mismatch_ge {ba : SysBitarray} {offset numBits : Nat} {matchSet : Bool} {m : Nat}
    (hn : 0 < numBits) (h : (matchRegion ba offset numBits matchSet).2 = some m) : offset ≤ m := by
  have hse : (setupBundleData offset numBits).sidx ≤ (setupBundleData offset numBits).eidx := by
    simp only [setupBundleData]
    exact Nat.div_le_div_right (by omega)
  unfold matchRegion at h
  dsimp only at h
  split at h
  · split at h
    · cases h
      exact start_mismatch_ge ‹_›
    · cases h
  · rename_i hne
    split at h
    · cases h
      exact start_mismatch_ge ‹_›
    · split at h
      · cases h
        exact later_mismatch_ge _ numBits (by omega)
      · split at h
        · rename_i i hi
          cases h
          have hmem := List.mem_of_find?_eq_some hi
          rw [List.mem_range'_1] at hmem
          exact later_mismatch_ge _ numBits (by omega)
        · cases h

/-! sys_bitarray_alloc and sys_bitarray_free -/

-- The loop over bundles in sys_bitarray_alloc: bundles of all ones are skipped,
-- and the search starts at the first clear bit of the first other bundle.
def firstFreeBit : List UInt32 → Nat → Nat
  | [], bitIdx => bitIdx
  | b :: bs, bitIdx =>
    if ~~~b = 0 then firstFreeBit bs (bitIdx + 32)
    else if b ≠ 0 then bitIdx + (findLsbSet (~~~b) - 1) else bitIdx

-- The while loop of sys_bitarray_alloc over the candidate offsets.
def sysBitarrayAllocLoop (ba : SysBitarray) (numBits offEnd : Nat) (hn : 0 < numBits) (bitIdx : Nat) :
    SysBitarray × Int × Nat :=
  if _hb : bitIdx ≤ offEnd then
    match hm : matchRegion ba bitIdx numBits false with
    | (bd, none) => (setRegion ba bitIdx numBits true (some bd), 0, bitIdx)
    | (_, some mismatch) =>
      -- fast-forward to the bit just after the mismatched bit
      sysBitarrayAllocLoop ba numBits offEnd hn (mismatch + 1)
  else (ba, -eNoSpc, 0)
termination_by offEnd + 1 - bitIdx
decreasing_by
  have := matchRegion_mismatch_ge hn (congrArg Prod.snd hm)
  omega

-- The status and *offset; the unsigned long of the target has `ulongBits` bits.
def sysBitarrayAlloc (ulongBits : Nat) (ba : SysBitarray) (numBits : Nat) : Except Fault (SysBitarray × Int × Nat) :=
  if hn : numBits = 0 ∨ numBits > ba.numBits then .ok (ba, -eInval, 0) else
  if ba.numBits ≤ 32 then
    let off := bitmaskFindGap (bundleAt ba 0) numBits ba.numBits false
    if off < 0 then .ok (ba, -eNoSpc, 0) else do
      let m ← bitMask ulongBits numBits
      -- BIT_MASK(num_bits) << off in unsigned long, ORed into the uint32_t bundle
      let b := bundleAt ba 0 ||| UInt32.ofNat (m * 2 ^ off.toNat % 2 ^ ulongBits)
      pure ({ ba with bundles := ba.bundles.set 0 b }, 0, off.toNat)
  else
    .ok (sysBitarrayAllocLoop ba numBits (ba.numBits - numBits) (by omega)
      (firstFreeBit (ba.bundles.take ba.numBundles) 0))

def sysBitarrayFree (ulongBits : Nat) (ba : SysBitarray) (numBits offset : Nat) : Except Fault (SysBitarray × Int) :=
  if regionInvalid ba numBits offset then .ok (ba, -eInval) else
  if ba.numBits ≤ 32 then do
    let m ← bitMask ulongBits numBits
    let mask := UInt32.ofNat (m * 2 ^ offset % 2 ^ ulongBits)
    if mask &&& bundleAt ba 0 ≠ mask then pure (ba, -eFault)
    else pure ({ ba with bundles := ba.bundles.set 0 (bundleAt ba 0 &&& ~~~mask) }, 0)
  else
    match matchRegion ba offset numBits true with
    | (bd, none) => .ok (setRegion ba offset numBits false (some bd), 0)
    | (_, some _) => .ok (ba, -eFault)

/-! BIT_MASK(32) -/

-- With every bit of a 32-bit bundle clear, the whole bundle is the one gap.
theorem bitmaskFindGap_zero : bitmaskFindGap 0 32 32 false = 0 := by
  unfold bitmaskFindGap
  rw [bitmaskFindGapLoop]
  decide

-- On a 32-bit array, allocating all 32 bits computes BIT_MASK(32) once a gap is
-- found, and freeing them always does: with a 32-bit unsigned long that shift is
-- undefined.
theorem sysBitarrayAlloc_all_bits (ba : SysBitarray) (h : ba.numBits = 32) :
    sysBitarrayAlloc 32 ba 32 = .error .shiftOverflow ∨ sysBitarrayAlloc 32 ba 32 = .ok (ba, -eNoSpc, 0) := by
  unfold sysBitarrayAlloc
  rw [dif_neg (by omega), if_pos (by omega)]
  dsimp only
  split
  · exact .inr rfl
  · exact .inl rfl

theorem sysBitarrayFree_all_bits (ba : SysBitarray) (h : ba.numBits = 32) :
    sysBitarrayFree 32 ba 32 0 = .error .shiftOverflow := by
  unfold sysBitarrayFree regionInvalid
  rw [if_neg (by simp [h]), if_pos (by omega)]
  rfl

-- With a wider unsigned long the same call allocates the whole bundle.
theorem sysBitarrayAlloc_all_bits_wide {ulongBits : Nat} (hw : 32 < ulongBits) (ba : SysBitarray)
    (h : ba.numBits = 32) (h0 : bundleAt ba 0 = 0) :
    sysBitarrayAlloc ulongBits ba 32 = .ok ({ ba with bundles := ba.bundles.set 0 0xFFFFFFFF }, 0, 0) := by
  have hlt : 2 ^ 32 - 1 < 2 ^ ulongBits := by
    have := Nat.pow_lt_pow_right (a := 2) (by decide) hw
    omega
  unfold sysBitarrayAlloc
  rw [dif_neg (by omega), if_pos (by omega)]
  dsimp only
  rw [h0, h, bitmaskFindGap_zero, if_neg (by decide)]
  simp only [bitMask, if_pos hw, bind, Except.bind, pure, Except.pure, Int.toNat_zero, Nat.pow_zero,
    Nat.mul_one, Nat.mod_eq_of_lt hlt]
  rfl

-- SYS_BITARRAY_DEFINE(ba, 32) on a target whose unsigned long has 32 bits:
-- sys_bitarray_alloc(ba, 32, &off) finds the gap at 0 and then evaluates
-- BIT_MASK(32) = (1UL << 32) - 1UL.
theorem sys_bitarray_alloc_full_width_undefined :
    sysBitarrayAlloc 32 (sysBitarrayDefine 32) 32 = .error .shiftOverflow := by
  unfold sysBitarrayAlloc
  rw [dif_neg (by decide), if_pos (by decide)]
  dsimp only
  rw [show bundleAt (sysBitarrayDefine 32) 0 = 0 from rfl, show (sysBitarrayDefine 32).numBits = 32 from rfl,
    bitmaskFindGap_zero, if_neg (by decide)]
  rfl

end Zephyr.Bitarray
