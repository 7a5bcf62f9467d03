import Zephyr.Bitarray.Alloc

namespace Zephyr.Bitarray

-- An access to bundles[i] at or past num_bundles.
inductive BundleFault where
  | outOfBounds (i : Nat)
  deriving DecidableEq, Repr

def loadBundle (ba : SysBitarray) (i : Nat) : Except BundleFault UInt32 :=
  if i < ba.numBundles then .ok (bundleAt ba i) else .error (.outOfBounds i)

def storeBundle (ba : SysBitarray) (i : Nat) (b : UInt32) : Except BundleFault SysBitarray :=
  if i < ba.numBundles then .ok { ba with bundles := ba.bundles.set i b } else .error (.outOfBounds i)

theorem loadBundle_of_lt {ba : SysBitarray} {i : Nat} (h : i < ba.numBundles) :
    loadBundle ba i = .ok (bundleAt ba i) := if_pos h

theorem loadBundle_of_le {ba : SysBitarray} {i : Nat} (h : ba.numBundles ≤ i) :
    loadBundle ba i = .error (.outOfBounds i) := if_neg (Nat.not_lt.2 h)

def popcount (x : UInt32) : Nat := (List.range 32).countP (x.toNat.testBit ·)

-- setup_bundle_data, with offset + num_bits - 1 computed in a size_t of
-- `sizeBits` bits.
def setupBundleDataSized (sizeBits offset numBits : Nat) : BundleData :=
  let last := (offset + numBits - 1) % 2 ^ sizeBits
  let sidx := offset / 32
  let soff := offset % 32
  let eidx := last / 32
  let eoff := last % 32
  let smask := ~~~(((1 : UInt32) <<< soff.toUInt32) - 1)
  let emask := (((1 : UInt32) <<< eoff.toUInt32) - 1) ||| ((1 : UInt32) <<< eoff.toUInt32)
  ⟨sidx, eidx, soff, eoff, if sidx = eidx then smask &&& emask else smask, emask⟩

theorem setupBundleDataSized_eq {sizeBits offset numBits : Nat} (h : offset + numBits - 1 < 2 ^ sizeBits) :
    setupBundleDataSized sizeBits offset numBits = setupBundleData offset numBits := by
  simp only [setupBundleDataSized, setupBundleData, Nat.mod_eq_of_lt h]

-- The bundles strictly between the start and the end bundle.
def midIdx (bd : BundleData) : List Nat := List.range' (bd.sidx + 1) (bd.eidx - bd.sidx - 1)

-- The range check of sys_bitarray_popcount_region, sys_bitarray_xor and
-- sys_bitarray_find_nth_set: offset + num_bits > num_bits, in size_t.
def sumPastEnd (sizeBits : Nat) (ba : SysBitarray) (numBits offset : Nat) : Bool :=
  (offset + numBits) % 2 ^ sizeBits > ba.numBits

-- The status and *count, none where *count is not written.
def sysBitarrayPopcountRegion (sizeBits : Nat) (ba : SysBitarray) (numBits offset : Nat) :
    Except BundleFault (Int × Option Nat) := do
  if numBits = 0 ∨ sumPastEnd sizeBits ba numBits offset then return (-eInval, none)
  let bd := setupBundleDataSized sizeBits offset numBits
  if bd.sidx = bd.eidx then return (0, some (popcount ((← loadBundle ba bd.sidx) &&& bd.smask)))
  let s := popcount ((← loadBundle ba bd.sidx) &&& bd.smask)
  let e := popcount ((← loadBundle ba bd.eidx) &&& bd.emask)
  let mid ← (midIdx bd).foldlM (fun c i => do return c + popcount (← loadBundle ba i)) 0
  return (0, some (s + e + mid))

-- The bits of `mask` of dst->bundles[i] become other ^ dst, the others stay.
def xorEdge (other dst : SysBitarray) (i : Nat) (mask : UInt32) : Except BundleFault SysBitarray := do
  let o ← loadBundle other i
  let d ← loadBundle dst i
  storeBundle dst i (((o ^^^ d) &&& mask) ||| (d &&& ~~~mask))

def sysBitarrayXor (sizeBits : Nat) (dst other : SysBitarray) (numBits offset : Nat) :
    Except BundleFault (SysBitarray × Int) := do
  if dst.numBits ≠ other.numBits then return (dst, -eInval)
  if numBits = 0 ∨ sumPastEnd sizeBits dst numBits offset then return (dst, -eInval)
  let bd := setupBundleDataSized sizeBits offset numBits
  if bd.sidx = bd.eidx then return (← xorEdge other dst bd.sidx bd.smask, 0)
  let dst ← xorEdge other dst bd.sidx bd.smask
  let dst ← xorEdge other dst bd.eidx bd.emask
  let dst ← (midIdx bd).foldlM (fun dst i => do
    let d ← loadBundle dst i
    storeBundle dst i (d ^^^ (← loadBundle other i))) dst
  return (dst, 0)

-- The loop over the middle bundles of sys_bitarray_find_nth_set: the first
-- bundle whose count reaches n, and what is left of n there.
def findMid (ba : SysBitarray) : List Nat → Nat → Except BundleFault (Option Nat × Nat)
  | [], n => return (none, n)
  | i :: is, n => do
    let count := popcount (← loadBundle ba i)
    if count ≥ n then return (some i, n) else findMid ba is (n - count)

-- The index of the n-th set bit of `x`, from 1.
def nthSetBit (x : UInt32) (n : Nat) : Option Nat := ((List.range 32).filter (x.toNat.testBit ·))[n - 1]?

-- The label found: the n-th set bit of bundles[idx] & mask.
def foundAt (ba : SysBitarray) (idx : Nat) (mask : UInt32) (n : Nat) : Except BundleFault (Int × Option Nat) := do
  match nthSetBit ((← loadBundle ba idx) &&& mask) n with
  | some j => return (0, some (idx * 32 + j))
  | none => return (1, none)

-- The status and *found_at, none where *found_at is not written.
def sysBitarrayFindNthSet (sizeBits : Nat) (ba : SysBitarray) (n numBits offset : Nat) :
    Except BundleFault (Int × Option Nat) := do
  if n = 0 ∨ numBits = 0 ∨ sumPastEnd sizeBits ba numBits offset then return (-eInval, none)
  let bd := setupBundleDataSized sizeBits offset numBits
  let count := popcount ((← loadBundle ba bd.sidx) &&& bd.smask)
  if count ≥ n then return ← foundAt ba bd.sidx bd.smask n
  if bd.sidx = bd.eidx then return (1, none)
  match ← findMid ba (midIdx bd) (n - count) with
  | (some idx, n) => foundAt ba idx (~~~0) n
  | (none, n) =>
    let count := popcount ((← loadBundle ba bd.eidx) &&& bd.emask)
    if count ≥ n then foundAt ba bd.eidx bd.emask n else return (1, none)

/-! Without wrap-around the check keeps the reads in the array -/

theorem foldlM_popcount_ok (ba : SysBitarray) :
    ∀ (l : List Nat) (c : Nat), (∀ i ∈ l, i < ba.numBundles) →
      ∃ r, l.foldlM (fun c i => do return c + popcount (← loadBundle ba i)) c = .ok r
  | [], c, _ => ⟨c, rfl⟩
  | i :: l, c, h => by
    obtain ⟨r, hr⟩ := foldlM_popcount_ok ba l (c + popcount (bundleAt ba i)) fun j hj => h j (.tail _ hj)
    exact ⟨r, by simp only [List.foldlM_cons, loadBundle_of_lt (h i (.head _))]; exact hr⟩

theorem sysBitarrayPopcountRegion_ok {sizeBits : Nat} {ba : SysBitarray} {numBits offset : Nat}
    (hfit : ba.numBits ≤ 32 * ba.numBundles) (hw : offset + numBits < 2 ^ sizeBits) :
    ∃ r, sysBitarrayPopcountRegion sizeBits ba numBits offset = .ok r := by
  unfold sysBitarrayPopcountRegion
  by_cases hc : numBits = 0 ∨ sumPastEnd sizeBits ba numBits offset = true
  · exact ⟨_, by rw [if_pos hc]; rfl⟩
  rw [if_neg hc]
  have hle : offset + numBits ≤ ba.numBits := by
    have h : ¬sumPastEnd sizeBits ba numBits offset = true := fun h => hc (.inr h)
    simp only [sumPastEnd, Nat.mod_eq_of_lt hw, gt_iff_lt, decide_eq_true_eq] at h
    omega
  have hn : 0 < numBits := Nat.pos_of_ne_zero fun h => hc (.inl h)
  rw [setupBundleDataSized_eq (by omega)]
  -- every bundle read lies between the start and the end bundle
  have he : (setupBundleData offset numBits).eidx < ba.numBundles := by
    simp only [setupBundleData]
    omega
  have hs : (setupBundleData offset numBits).sidx ≤ (setupBundleData offset numBits).eidx := by
    simp only [setupBundleData]
    omega
  obtain ⟨mid, hmid⟩ := foldlM_popcount_ok ba (midIdx (setupBundleData offset numBits)) 0 fun i hi => by
    simp only [midIdx, List.mem_range'_1] at hi
    omega
  simp only [loadBundle_of_lt he, loadBundle_of_lt (Nat.lt_of_le_of_lt hs he), hmid]
  split <;> exact ⟨_, rfl⟩

/-! offset + num_bits past SIZE_MAX -/

section Wrap

variable {sizeBits : Nat}

-- offset = SIZE_MAX and num_bits = 1 sum to 0, which no array is shorter than.
theorem sumPastEnd_wrap (ba : SysBitarray) : sumPastEnd sizeBits ba 1 (2 ^ sizeBits - 1) = false := by
  have h := Nat.two_pow_pos sizeBits
  simp only [sumPastEnd, Nat.sub_add_cancel h, Nat.mod_self, gt_iff_lt, Nat.not_lt_zero, decide_false]

theorem setupBundleDataSized_wrap :
    (setupBundleDataSized sizeBits (2 ^ sizeBits - 1) 1).sidx = (2 ^ sizeBits - 1) / 32 ∧
      (setupBundleDataSized sizeBits (2 ^ sizeBits - 1) 1).eidx = (2 ^ sizeBits - 1) / 32 := by
  have h := Nat.two_pow_pos sizeBits
  refine ⟨rfl, ?_⟩
  simp only [setupBundleDataSized, Nat.add_sub_cancel, Nat.mod_eq_of_lt (Nat.sub_lt h Nat.one_pos)]

theorem sys_bitarray_wrapped_offset_reads_past_bundles (ba other : SysBitarray)
    (hb : ba.numBundles ≤ (2 ^ sizeBits - 1) / 32) (ho : ba.numBits = other.numBits) :
    sysBitarrayPopcountRegion sizeBits ba 1 (2 ^ sizeBits - 1) = .error (.outOfBounds ((2 ^ sizeBits - 1) / 32)) ∧
      sysBitarrayXor sizeBits ba other 1 (2 ^ sizeBits - 1) = .error (.outOfBounds ((2 ^ sizeBits - 1) / 32)) ∧
      sysBitarrayFindNthSet sizeBits ba 1 1 (2 ^ sizeBits - 1) = .error (.outOfBounds ((2 ^ sizeBits - 1) / 32)) := by
  obtain ⟨hs, he⟩ := @setupBundleDataSized_wrap sizeBits
  have hl := loadBundle_of_le hb
  refine ⟨?_, ?_, ?_⟩
  · simp [sysBitarrayPopcountRegion, sumPastEnd_wrap, hs, he, hl]
  · by_cases hot : (2 ^ sizeBits - 1) / 32 < other.numBundles
    · simp [sysBitarrayXor, ho, sumPastEnd_wrap, hs, he, xorEdge, hl, loadBundle_of_lt hot]
      rfl
    · simp [sysBitarrayXor, ho, sumPastEnd_wrap, hs, he, xorEdge, loadBundle_of_le (Nat.le_of_not_lt hot)]
      rfl
  · simp [sysBitarrayFindNthSet, sumPastEnd_wrap, hs, hl]
    rfl

theorem sys_bitarray_wrapped_offset_define32 :
    (sysBitarrayDefine 32).numBundles ≤ (2 ^ 32 - 1) / 32 ∧ (sysBitarrayDefine 32).numBits = (sysBitarrayDefine 32).numBits ∧
      sysBitarrayPopcountRegion 32 (sysBitarrayDefine 32) 1 (2 ^ 32 - 1) = .error (.outOfBounds ((2 ^ 32 - 1) / 32)) ∧
      sysBitarrayXor 32 (sysBitarrayDefine 32) (sysBitarrayDefine 32) 1 (2 ^ 32 - 1) =
        .error (.outOfBounds ((2 ^ 32 - 1) / 32)) ∧
      sysBitarrayFindNthSet 32 (sysBitarrayDefine 32) 1 1 (2 ^ 32 - 1) = .error (.outOfBounds ((2 ^ 32 - 1) / 32)) :=
  ⟨by decide, rfl, sys_bitarray_wrapped_offset_reads_past_bundles _ _ (by decide) rfl⟩

end Wrap

end Zephyr.Bitarray
