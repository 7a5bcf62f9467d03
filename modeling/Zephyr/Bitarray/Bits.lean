import Zephyr.Bitarray.Alloc

namespace Zephyr.Bitarray

/-! The bundles as an array of bits -/

-- Bit i of the array: bit i % 32 of bundle i / 32.
def bitAt (ba : SysBitarray) (i : Nat) : Bool := (bundleAt ba (i / 32)).toNat.testBit (i % 32)

-- Whether every bit of [offset, offset + numBits) has the value v.
def regionIs (ba : SysBitarray) (offset numBits : Nat) (v : Bool) : Bool :=
  (List.range' offset numBits).all fun i => bitAt ba i == v

theorem regionIs_iff {ba : SysBitarray} {offset numBits : Nat} {v : Bool} :
    regionIs ba offset numBits v = true ↔ ∀ i, offset ≤ i → i < offset + numBits → bitAt ba i = v := by
  simp only [regionIs, List.all_eq_true, List.mem_range'_1, beq_iff_eq]
  constructor
  · exact fun h i h1 h2 => h i ⟨h1, h2⟩
  · exact fun h i hi => h i hi.1 hi.2

theorem bitAt_bundle (ba : SysBitarray) {j k : Nat} (hk : k < 32) :
    bitAt ba (32 * j + k) = (bundleAt ba j).toNat.testBit k := by
  have hdiv : (32 * j + k) / 32 = j := by omega
  have hmod : (32 * j + k) % 32 = k := by omega
  rw [bitAt, hdiv, hmod]

/-! Bits of the masks and of the bundle operations -/

section Masks

-- The end mask ((1 << e) - 1) | (1 << e) holds the bits up to e.
theorem emask_testBit : ∀ e < 32, ∀ i < 32,
    ((((1 : UInt32) <<< e.toUInt32) - 1) ||| ((1 : UInt32) <<< e.toUInt32)).toNat.testBit i = decide (i ≤ e) := by
  intro e he i _
  rw [UInt32.toNat_or, Nat.testBit_or, Lib.UInt32.toNat_one_shiftLeft_sub_one he,
    Lib.UInt32.toNat_one_shiftLeft he, Nat.testBit_two_pow_sub_one, Nat.testBit_two_pow,
    ← Bool.decide_or, decide_eq_decide]
  omega

variable {a b : UInt32} {i : Nat}

theorem testBit_not (hi : i < 32) : (~~~a).toNat.testBit i = !a.toNat.testBit i := by
  show (~~~a).toBitVec.getLsbD i = !a.toBitVec.getLsbD i
  rw [UInt32.toBitVec_not, BitVec.getLsbD_not]
  simp [hi]

theorem testBit_and : (a &&& b).toNat.testBit i = (a.toNat.testBit i && b.toNat.testBit i) := by
  rw [UInt32.toNat_and, Nat.testBit_and]

theorem testBit_or : (a ||| b).toNat.testBit i = (a.toNat.testBit i || b.toNat.testBit i) := by
  rw [UInt32.toNat_or, Nat.testBit_or]

theorem eq_zero_iff_testBit : a = 0 ↔ ∀ i < 32, a.toNat.testBit i = false := by
  constructor
  · rintro rfl i -
    exact Nat.zero_testBit i
  · intro h
    apply UInt32.toNat_inj.mp
    apply Nat.eq_of_testBit_eq
    intro i
    by_cases hi : i < 32
    · rw [h i hi, UInt32.toNat_zero, Nat.zero_testBit]
    · have h32 : 2 ^ 32 ≤ 2 ^ i := Nat.pow_le_pow_right (by decide) (by omega)
      rw [Nat.testBit_lt_two_pow (Nat.lt_of_lt_of_le a.toNat_lt h32), UInt32.toNat_zero, Nat.zero_testBit]

theorem and_eq_right_iff_testBit : a &&& b = b ↔ ∀ i < 32, b.toNat.testBit i = true → a.toNat.testBit i = true := by
  constructor
  · intro h i _ hb
    have := congrArg (fun x : UInt32 => x.toNat.testBit i) h
    simp only [testBit_and, hb, Bool.and_true] at this
    exact this
  · intro h
    apply UInt32.toNat_inj.mp
    apply Nat.eq_of_testBit_eq
    intro i
    rw [UInt32.toNat_and, Nat.testBit_and]
    by_cases hi : i < 32
    · cases hb : b.toNat.testBit i
      · simp
      · simp [h i hi hb]
    · have h32 : 2 ^ 32 ≤ 2 ^ i := Nat.pow_le_pow_right (by decide) (by omega)
      rw [Nat.testBit_lt_two_pow (Nat.lt_of_lt_of_le b.toNat_lt h32), Bool.and_false]

end Masks

section Bundle

variable (offset numBits : Nat) (hn : 0 < numBits)

include hn in
-- The start mask holds the bits of the region in the start bundle.
theorem smask_bit {i : Nat} (hi : i / 32 = offset / 32) :
    (setupBundleData offset numBits).smask.toNat.testBit (i % 32) = decide (offset ≤ i ∧ i < offset + numBits) := by
  have hs := smask_testBit (offset % 32) (Nat.mod_lt _ (by decide)) (i % 32) (Nat.mod_lt _ (by decide))
  have he := emask_testBit ((offset + numBits - 1) % 32) (Nat.mod_lt _ (by decide)) (i % 32) (Nat.mod_lt _ (by decide))
  simp only [setupBundleData]
  split
  · rw [testBit_and, hs, he, Bool.eq_iff_iff]
    simp only [Bool.and_eq_true, decide_eq_true_eq]
    omega
  · rw [hs, Bool.eq_iff_iff]
    simp only [decide_eq_true_eq]
    omega

include hn in
-- The end mask holds the bits of the region in the end bundle, when it is not the start one.
theorem emask_bit {i : Nat} (hi : i / 32 = (offset + numBits - 1) / 32) (hne : offset / 32 ≠ i / 32) :
    (setupBundleData offset numBits).emask.toNat.testBit (i % 32) = decide (offset ≤ i ∧ i < offset + numBits) := by
  have he := emask_testBit ((offset + numBits - 1) % 32) (Nat.mod_lt _ (by decide)) (i % 32) (Nat.mod_lt _ (by decide))
  simp only [setupBundleData]
  rw [he, Bool.eq_iff_iff]
  simp only [decide_eq_true_eq]
  omega

end Bundle

/-! set_region changes exactly the bits of the region -/

section SetRegion

theorem getD_set (bs : List UInt32) (j k : Nat) (v : UInt32) :
    (bs.set j v).getD k 0 = if k = j ∧ j < bs.length then v else bs.getD k 0 := by
  simp only [List.getD_eq_getElem?_getD, List.getElem?_set]
  rcases eq_or_ne j k with rfl | hjk
  · by_cases hl : j < bs.length
    · simp [hl]
    · simp [hl]
  · simp [hjk, Ne.symm hjk]

-- The loop over the in-between bundles, by induction on the indices it visits.
theorem getD_foldl_set (l : List Nat) (v : UInt32) (bs : List UInt32) (k : Nat) :
    (l.foldl (fun bs i => bs.set i v) bs).getD k 0 = if k ∈ l ∧ k < bs.length then v else bs.getD k 0 := by
  induction l generalizing bs with
  | nil => simp
  | cons a l ih =>
    rw [List.foldl_cons, ih, List.length_set, getD_set]
    by_cases hl : k < bs.length
    · by_cases hk : k ∈ l
      · simp [hk, hl]
      · by_cases ha : k = a
        · subst ha
          simp [hl]
        · simp [hk, ha]
    · have hna : ¬(k = a ∧ a < bs.length) := fun h => hl (by rw [h.1]; exact h.2)
      simp [hl, hna]

theorem ite_decide_eq {p : Prop} [Decidable p] {a b : Bool} : (if decide p = true then a else b) = if p then a else b := by
  by_cases h : p
  · rw [decide_eq_true h, if_pos rfl, if_pos h]
  · rw [decide_eq_false h, if_neg Bool.false_ne_true, if_neg h]

-- The operation set_region applies to a start or end bundle under its mask.
theorem edge_testBit (toSet : Bool) (mask b : UInt32) {k : Nat} (hk : k < 32) :
    (if toSet then b ||| mask else b &&& ~~~mask).toNat.testBit k =
      if mask.toNat.testBit k then toSet else b.toNat.testBit k := by
  cases toSet
  · simp only [Bool.false_eq_true, if_false, testBit_and, testBit_not hk]
    cases mask.toNat.testBit k <;> simp
  · simp only [if_true, testBit_or]
    cases mask.toNat.testBit k <;> simp

variable (ba : SysBitarray) {offset numBits : Nat} (hn : 0 < numBits)
  (hlen : (offset + numBits - 1) / 32 < ba.bundles.length)

include hn hlen in
-- set_region sets (or clears) the bits of [offset, offset + numBits) and no other.
theorem bitAt_setRegion (toSet : Bool) (i : Nat) :
    bitAt (setRegion ba offset numBits toSet none) i = if offset ≤ i ∧ i < offset + numBits then toSet else bitAt ba i := by
  have hk : i % 32 < 32 := Nat.mod_lt _ (by decide)
  have hsidx : (setupBundleData offset numBits).sidx = offset / 32 := rfl
  have heidx : (setupBundleData offset numBits).eidx = (offset + numBits - 1) / 32 := rfl
  have hse : offset / 32 ≤ (offset + numBits - 1) / 32 := Nat.div_le_div_right (by omega)
  simp only [bitAt, setRegion, Option.getD_none, bundleAt]
  split
  · next hsame =>
    rw [hsidx, heidx] at hsame
    rw [getD_set, hsidx]
    by_cases hj : i / 32 = offset / 32
    · rw [if_pos ⟨hj, by omega⟩, edge_testBit _ _ _ hk, smask_bit offset numBits hn hj, hj, ite_decide_eq]
    · have hreg : ¬(offset ≤ i ∧ i < offset + numBits) := by omega
      rw [if_neg (fun h => hj h.1), if_neg hreg]
  · next hdiff =>
    rw [hsidx, heidx] at hdiff
    dsimp only
    rw [getD_foldl_set, List.length_set, List.length_set, getD_set, List.length_set, getD_set, getD_set,
      hsidx, heidx]
    simp only [List.mem_range'_1]
    have hsl : offset / 32 < ba.bundles.length := by omega
    have hnes : ¬((offset + numBits - 1) / 32 = offset / 32 ∧ offset / 32 < ba.bundles.length) :=
      fun h => hdiff h.1.symm
    rw [if_neg hnes]
    by_cases hmid : offset / 32 < i / 32 ∧ i / 32 < (offset + numBits - 1) / 32
    · -- an in-between bundle, set or cleared whole
      have hin : (offset / 32 + 1 ≤ i / 32 ∧
          i / 32 < offset / 32 + 1 + ((offset + numBits - 1) / 32 - offset / 32 - 1)) ∧ i / 32 < ba.bundles.length := by
        omega
      have hreg : offset ≤ i ∧ i < offset + numBits := by omega
      rw [if_pos hin, if_pos hreg]
      cases toSet
      · simp
      · simp only [if_true]
        rw [testBit_not hk]
        simp
    · rw [if_neg (fun h => hmid ⟨by omega, by omega⟩)]
      by_cases he : i / 32 = (offset + numBits - 1) / 32
      · rw [if_pos ⟨he, hlen⟩, edge_testBit _ _ _ hk, emask_bit offset numBits hn he (by omega), he, ite_decide_eq]
      · rw [if_neg (fun h => he h.1)]
        by_cases hs : i / 32 = offset / 32
        · rw [if_pos ⟨hs, hsl⟩, edge_testBit _ _ _ hk, smask_bit offset numBits hn hs, hs, ite_decide_eq]
        · have hreg : ¬(offset ≤ i ∧ i < offset + numBits) := by omega
          rw [if_neg (fun h => hs h.1), if_neg hreg]

end SetRegion

theorem length_foldl_set (l : List Nat) (v : UInt32) (bs : List UInt32) :
    (l.foldl (fun bs i => bs.set i v) bs).length = bs.length := by
  induction l generalizing bs with
  | nil => rfl
  | cons a l ih => rw [List.foldl_cons, ih, List.length_set]

theorem setRegion_some (ba : SysBitarray) (offset numBits : Nat) (toSet : Bool) :
    setRegion ba offset numBits toSet (some (setupBundleData offset numBits)) = setRegion ba offset numBits toSet none :=
  rfl

theorem length_setRegion (ba : SysBitarray) (offset numBits : Nat) (toSet : Bool) (bd : Option BundleData) :
    (setRegion ba offset numBits toSet bd).bundles.length = ba.bundles.length := by
  unfold setRegion
  dsimp only
  split
  · exact List.length_set
  · rw [length_foldl_set, List.length_set, List.length_set]

theorem numBits_setRegion (ba : SysBitarray) (offset numBits : Nat) (toSet : Bool) (bd : Option BundleData) :
    (setRegion ba offset numBits toSet bd).numBits = ba.numBits := by
  unfold setRegion
  dsimp only
  split <;> rfl

/-! match_region answers whether every bit of the region has the value looked for -/

section MatchRegion

variable (ba : SysBitarray) (v : Bool) {j k : Nat}

theorem edgeBundle_testBit (hk : k < 32) : (edgeBundle ba v j).toNat.testBit k = (bitAt ba (32 * j + k) == v) := by
  rw [bitAt_bundle ba hk]
  cases v
  · rw [edgeBundle, if_neg Bool.false_ne_true, testBit_not hk]
    cases (bundleAt ba j).toNat.testBit k <;> rfl
  · rw [edgeBundle, if_pos rfl]
    cases (bundleAt ba j).toNat.testBit k <;> rfl

theorem midBundle_testBit (hk : k < 32) : (midBundle ba v j).toNat.testBit k = !(bitAt ba (32 * j + k) == v) := by
  rw [bitAt_bundle ba hk]
  cases v
  · rw [midBundle, if_neg Bool.false_ne_true]
    cases (bundleAt ba j).toNat.testBit k <;> rfl
  · rw [midBundle, if_pos rfl, testBit_not hk]
    cases (bundleAt ba j).toNat.testBit k <;> rfl

theorem edgeBundle_and_eq_iff (m : UInt32) :
    edgeBundle ba v j &&& m = m ↔ ∀ k < 32, m.toNat.testBit k = true → bitAt ba (32 * j + k) = v := by
  rw [and_eq_right_iff_testBit]
  refine forall₂_congr fun k hk => ?_
  rw [edgeBundle_testBit ba v hk, beq_iff_eq]

theorem midBundle_eq_zero_iff : midBundle ba v j = 0 ↔ ∀ k < 32, bitAt ba (32 * j + k) = v := by
  rw [eq_zero_iff_testBit]
  refine forall₂_congr fun k hk => ?_
  rw [midBundle_testBit ba v hk]
  simp

theorem mismatchAt_spec {mb : UInt32} (hmb : mb ≠ 0) (j : Nat) :
    ∃ k < 32, mb.toNat.testBit k = true ∧ mismatchAt mb j = 32 * j + k := by
  unfold mismatchAt findLsbSet
  split
  · next i hi =>
    refine ⟨i, List.mem_range.1 (List.mem_of_find?_eq_some hi), List.find?_some hi, by omega⟩
  · next hnone =>
    exfalso
    apply hmb
    rw [eq_zero_iff_testBit]
    intro i hi
    simpa using List.find?_eq_none.1 hnone i (List.mem_range.2 hi)

theorem matchRegion_fst (offset numBits : Nat) :
    (matchRegion ba offset numBits v).1 = setupBundleData offset numBits := by
  unfold matchRegion
  dsimp only
  split
  · split <;> rfl
  · split
    · rfl
    · split
      · rfl
      · split <;> rfl


variable {offset numBits : Nat} (hn : 0 < numBits)

include hn in
-- Bit k of the start mask, as a bit of the region.
theorem smask_testBit_region {k : Nat} (hk : k < 32) :
    (setupBundleData offset numBits).smask.toNat.testBit k =
      decide (offset ≤ 32 * (offset / 32) + k ∧ 32 * (offset / 32) + k < offset + numBits) := by
  have h := smask_bit offset numBits hn (i := 32 * (offset / 32) + k) (by omega)
  rwa [show (32 * (offset / 32) + k) % 32 = k by omega] at h

include hn in
theorem emask_testBit_region {k : Nat} (hk : k < 32) (hne : offset / 32 ≠ (offset + numBits - 1) / 32) :
    (setupBundleData offset numBits).emask.toNat.testBit k =
      decide (offset ≤ 32 * ((offset + numBits - 1) / 32) + k ∧
        32 * ((offset + numBits - 1) / 32) + k < offset + numBits) := by
  have h := emask_bit offset numBits hn (i := 32 * ((offset + numBits - 1) / 32) + k) (by omega) (by omega)
  rwa [show (32 * ((offset + numBits - 1) / 32) + k) % 32 = k by omega] at h

include hn in
-- match_region finds no mismatch exactly when every bit of the region has the value v.
theorem matchRegion_eq_none_iff : (matchRegion ba offset numBits v).2 = none ↔ regionIs ba offset numBits v = true := by
  rw [regionIs_iff]
  have hS : (setupBundleData offset numBits).sidx = offset / 32 := rfl
  have hE : (setupBundleData offset numBits).eidx = (offset + numBits - 1) / 32 := rfl
  have hse : offset / 32 ≤ (offset + numBits - 1) / 32 := Nat.div_le_div_right (by omega)
  unfold matchRegion
  dsimp only
  rw [hS, hE]
  -- a start bundle that fails its mask is a bit of the region without the value
  have hstart : ¬edgeBundle ba v (offset / 32) &&& (setupBundleData offset numBits).smask =
      (setupBundleData offset numBits).smask → ¬∀ i, offset ≤ i → i < offset + numBits → bitAt ba i = v := by
    intro hmis hall
    apply hmis
    rw [edgeBundle_and_eq_iff]
    intro k hk hm
    rw [smask_testBit_region hn hk, decide_eq_true_eq] at hm
    exact hall _ hm.1 hm.2
  split
  · next hsame =>
    split
    · next hmis =>
      simp only [reduceCtorEq, false_iff]
      exact hstart hmis
    · next hok =>
      simp only [true_iff]
      rw [not_not, edgeBundle_and_eq_iff] at hok
      intro i h1 h2
      have hi : i = 32 * (offset / 32) + i % 32 := by omega
      rw [hi]
      apply hok _ (Nat.mod_lt _ (by decide))
      rw [smask_testBit_region hn (Nat.mod_lt _ (by decide)), decide_eq_true_eq]
      omega
  · next hdiff =>
    split
    · next hmis =>
      simp only [reduceCtorEq, false_iff]
      exact hstart hmis
    · next hsok =>
      rw [not_not, edgeBundle_and_eq_iff] at hsok
      split
      · next hmis =>
        simp only [reduceCtorEq, false_iff]
        intro hall
        apply hmis
        rw [edgeBundle_and_eq_iff]
        intro k hk hm
        rw [emask_testBit_region hn hk hdiff, decide_eq_true_eq] at hm
        exact hall _ hm.1 hm.2
      · next heok =>
        rw [not_not, edgeBundle_and_eq_iff] at heok
        split
        · next j hj =>
          -- an in-between bundle with a bit of the wrong value
          simp only [reduceCtorEq, false_iff]
          intro hall
          have hmem := List.mem_range'_1.1 (List.mem_of_find?_eq_some hj)
          have hne := List.find?_some hj
          simp only [ne_eq, decide_eq_true_eq] at hne
          apply hne
          rw [midBundle_eq_zero_iff]
          intro k hk
          exact hall _ (by omega) (by omega)
        · next hnone =>
          simp only [true_iff]
          intro i h1 h2
          have hk : i % 32 < 32 := Nat.mod_lt _ (by decide)
          by_cases hs : i / 32 = offset / 32
          · have hi : i = 32 * (offset / 32) + i % 32 := by omega
            rw [hi]
            apply hsok _ hk
            rw [smask_testBit_region hn hk, decide_eq_true_eq]
            omega
          · by_cases he : i / 32 = (offset + numBits - 1) / 32
            · have hi : i = 32 * ((offset + numBits - 1) / 32) + i % 32 := by omega
              rw [hi]
              apply heok _ hk
              rw [emask_testBit_region hn hk hdiff, decide_eq_true_eq]
              omega
            · have hzero := List.find?_eq_none.1 hnone (i / 32) (List.mem_range'_1.2 ⟨by omega, by omega⟩)
              simp only [ne_eq, decide_eq_true_eq, not_not] at hzero
              have hi : i = 32 * (i / 32) + i % 32 := by omega
              rw [hi]
              exact (midBundle_eq_zero_iff ba v).1 hzero _ hk

theorem eq_not_of_beq_false {b v : Bool} (h : (b == v) = false) : b = !v := by
  cases b <;> cases v <;> simp_all

include hn in
-- A mismatch match_region reports is a bit of the region without the value v.
theorem matchRegion_mismatch {m : Nat} (h : (matchRegion ba offset numBits v).2 = some m) :
    offset ≤ m ∧ m < offset + numBits ∧ bitAt ba m = !v := by
  have hS : (setupBundleData offset numBits).sidx = offset / 32 := rfl
  have hE : (setupBundleData offset numBits).eidx = (offset + numBits - 1) / 32 := rfl
  have hse : offset / 32 ≤ (offset + numBits - 1) / 32 := Nat.div_le_div_right (by omega)
  -- the lowest bit of an edge bundle's mismatch word
  have hedge : ∀ (j : Nat) (mask : UInt32), edgeBundle ba v j &&& mask ≠ mask →
      ∃ k < 32, mask.toNat.testBit k = true ∧ bitAt ba (32 * j + k) = !v ∧
        mismatchAt (~~~edgeBundle ba v j &&& mask) j = 32 * j + k := by
    intro j mask hmis
    have hmb : ~~~edgeBundle ba v j &&& mask ≠ 0 := fun h0 => hmis (and_eq_self_of_not_and_eq_zero h0)
    obtain ⟨k, hk, hbit, hm⟩ := mismatchAt_spec hmb j
    rw [testBit_and, testBit_not hk, Bool.and_eq_true, Bool.not_eq_true', edgeBundle_testBit ba v hk] at hbit
    exact ⟨k, hk, hbit.2, eq_not_of_beq_false hbit.1, hm⟩
  unfold matchRegion at h
  dsimp only at h
  rw [hS, hE] at h
  split at h
  · next hsame =>
    split at h
    · next hmis =>
      cases h
      obtain ⟨k, hk, hmask, hbit, hm⟩ := hedge _ _ hmis
      rw [smask_testBit_region hn hk, decide_eq_true_eq] at hmask
      rw [hm]
      exact ⟨hmask.1, hmask.2, hbit⟩
    · cases h
  · next hdiff =>
    split at h
    · next hmis =>
      cases h
      obtain ⟨k, hk, hmask, hbit, hm⟩ := hedge _ _ hmis
      rw [smask_testBit_region hn hk, decide_eq_true_eq] at hmask
      rw [hm]
      exact ⟨hmask.1, hmask.2, hbit⟩
    · split at h
      · next hmis =>
        cases h
        obtain ⟨k, hk, hmask, hbit, hm⟩ := hedge _ _ hmis
        rw [emask_testBit_region hn hk hdiff, decide_eq_true_eq] at hmask
        rw [hm]
        exact ⟨hmask.1, hmask.2, hbit⟩
      · split at h
        · next j hj =>
          cases h
          have hmem := List.mem_range'_1.1 (List.mem_of_find?_eq_some hj)
          have hne := List.find?_some hj
          simp only [ne_eq, decide_eq_true_eq] at hne
          obtain ⟨k, hk, hbit, hm⟩ := mismatchAt_spec hne j
          rw [midBundle_testBit ba v hk, Bool.not_eq_true'] at hbit
          rw [hm]
          exact ⟨by omega, by omega, eq_not_of_beq_false hbit⟩
        · cases h

end MatchRegion

/-! A well-formed bitarray -/

-- The bundle list holds num_bundles bundles, enough for num_bits bits.
structure Wf (ba : SysBitarray) : Prop where
  length_eq : ba.bundles.length = ba.numBundles
  bits_le : ba.numBits ≤ 32 * ba.numBundles

theorem wf_sysBitarrayDefine (totalBits : Nat) : Wf (sysBitarrayDefine totalBits) where
  length_eq := List.length_replicate
  bits_le := by simp only [sysBitarrayDefine]; omega

theorem numBundles_setRegion (ba : SysBitarray) (offset numBits : Nat) (toSet : Bool) (bd : Option BundleData) :
    (setRegion ba offset numBits toSet bd).numBundles = ba.numBundles := by
  unfold setRegion
  dsimp only
  split <;> rfl

theorem Wf.setRegion {ba : SysBitarray} (hwf : Wf ba) (offset numBits : Nat) (toSet : Bool) (bd : Option BundleData) :
    Wf (setRegion ba offset numBits toSet bd) where
  length_eq := by rw [length_setRegion, numBundles_setRegion, hwf.length_eq]
  bits_le := by rw [numBits_setRegion, numBundles_setRegion]; exact hwf.bits_le

-- A region inside the array lies in the bundle list.
theorem Wf.lt_length {ba : SysBitarray} (hwf : Wf ba) {offset numBits : Nat} (hn : 0 < numBits)
    (h : offset + numBits ≤ ba.numBits) :
    (offset + numBits - 1) / 32 < ba.bundles.length := by
  have := hwf.bits_le
  rw [hwf.length_eq]
  omega

-- Two well-formed bitarrays of the same shape with the same bits are equal.
theorem Wf.ext {a b : SysBitarray} (ha : Wf a) (hb : Wf b) (hbits : a.numBits = b.numBits)
    (hnb : a.numBundles = b.numBundles) (h : ∀ i, bitAt a i = bitAt b i) : a = b := by
  have hbundle : ∀ j, bundleAt a j = bundleAt b j := by
    intro j
    apply UInt32.toNat_inj.mp
    apply Nat.eq_of_testBit_eq
    intro k
    by_cases hk : k < 32
    · rw [← bitAt_bundle a hk, ← bitAt_bundle b hk, h]
    · have h32 : 2 ^ 32 ≤ 2 ^ k := Nat.pow_le_pow_right (by decide) (by omega)
      rw [Nat.testBit_lt_two_pow (Nat.lt_of_lt_of_le (bundleAt a j).toNat_lt h32),
        Nat.testBit_lt_two_pow (Nat.lt_of_lt_of_le (bundleAt b j).toNat_lt h32)]
  have hlen : a.bundles.length = b.bundles.length := by rw [ha.length_eq, hb.length_eq, hnb]
  have hl : a.bundles = b.bundles := by
    apply List.ext_getElem hlen
    intro j hja hjb
    have := hbundle j
    simp only [bundleAt, List.getD_eq_getElem?_getD, List.getElem?_eq_getElem hja,
      List.getElem?_eq_getElem hjb, Option.getD_some] at this
    exact this
  cases a
  cases b
  simp_all

theorem regionInvalid_eq_false_iff {ba : SysBitarray} {numBits offset : Nat} :
    regionInvalid ba numBits offset = false ↔ 0 < numBits ∧ offset + numBits ≤ ba.numBits := by
  simp only [regionInvalid, decide_eq_false_iff_not]
  omega

theorem regionInvalid_eq_true_iff {ba : SysBitarray} {numBits offset : Nat} :
    regionInvalid ba numBits offset = true ↔ ¬(0 < numBits ∧ offset + numBits ≤ ba.numBits) := by
  simp only [regionInvalid, decide_eq_true_eq]
  omega

/-! The two answers of match_region -/

section MatchCases

variable (ba : SysBitarray) {v : Bool} {offset numBits : Nat}

-- A region holding a bit of the other value does not have the value throughout.
theorem regionIs_eq_false_of_mismatch {m : Nat} (h1 : offset ≤ m) (h2 : m < offset + numBits) (hm : bitAt ba m = !v) :
    regionIs ba offset numBits v = false := by
  cases h : regionIs ba offset numBits v
  · rfl
  · have := regionIs_iff.1 h m h1 h2
    rw [hm] at this
    cases v <;> cases this

variable (hn : 0 < numBits)

include hn in
theorem matchRegion_none {bd : BundleData} (hm : matchRegion ba offset numBits v = (bd, none)) :
    bd = setupBundleData offset numBits ∧ regionIs ba offset numBits v = true :=
  ⟨by rw [← matchRegion_fst ba v offset numBits, hm], (matchRegion_eq_none_iff ba v hn).1 (congrArg Prod.snd hm)⟩

include hn in
theorem matchRegion_some {bd : BundleData} {m : Nat} (hm : matchRegion ba offset numBits v = (bd, some m)) :
    regionIs ba offset numBits v = false :=
  have hmis := matchRegion_mismatch ba v hn (congrArg Prod.snd hm)
  regionIs_eq_false_of_mismatch ba hmis.1 hmis.2.1 hmis.2.2

end MatchCases

/-! The region calls -/

section Region

variable {ba : SysBitarray} (hwf : Wf ba) {numBits offset : Nat}

include hwf in
-- set_clear_region sets (or clears) exactly a region inside the array, and refuses any other.
theorem setClearRegion_spec (toSet : Bool) :
    (0 < numBits ∧ offset + numBits ≤ ba.numBits →
      (setClearRegion ba numBits offset toSet).2 = 0 ∧
      ∀ i, bitAt (setClearRegion ba numBits offset toSet).1 i =
        if offset ≤ i ∧ i < offset + numBits then toSet else bitAt ba i) ∧
    (¬(0 < numBits ∧ offset + numBits ≤ ba.numBits) →
      setClearRegion ba numBits offset toSet = (ba, -eInval)) := by
  unfold setClearRegion
  constructor
  · intro hv
    rw [regionInvalid_eq_false_iff.2 hv, if_neg Bool.false_ne_true]
    exact ⟨rfl, bitAt_setRegion ba hv.1 (hwf.lt_length hv.1 hv.2) toSet⟩
  · intro hv
    rw [if_pos (regionInvalid_eq_true_iff.2 hv)]

end Region

/-! sys_bitarray_alloc on more than 32 bits is first fit -/

section Alloc

theorem findLsbSet_le (x : UInt32) : findLsbSet x ≤ 32 := by
  unfold findLsbSet
  split
  · next i hi =>
    have := List.mem_range.1 (List.mem_of_find?_eq_some hi)
    omega
  · omega

-- The bits below the lowest set bit are clear.
theorem findLsbSet_low {x : UInt32} {k : Nat} (hk : k < findLsbSet x - 1) : x.toNat.testBit k = false := by
  unfold findLsbSet at hk
  split at hk
  · next i hi =>
    rw [List.find?_eq_some_iff_getElem] at hi
    obtain ⟨-, j, hj, hji, hbefore⟩ := hi
    simp only [List.getElem_range] at hji
    subst hji
    simpa using hbefore k (by omega)
  · omega

variable (ba : SysBitarray)

-- Every bit below where the search of sys_bitarray_alloc starts is set: the skipped
-- bundles are all ones, and the search starts at the lowest clear bit of the next one.
theorem bitAt_of_lt_firstFreeBit (bs : List UInt32) (j : Nat)
    (hbs : ∀ t (ht : t < bs.length), bundleAt ba (j + t) = bs[t]) {s : Nat} (hs1 : 32 * j ≤ s)
    (hs2 : s < firstFreeBit bs (32 * j)) : bitAt ba s = true := by
  induction bs generalizing j with
  | nil =>
    simp only [firstFreeBit] at hs2
    omega
  | cons b bs ih =>
    have hb : bundleAt ba j = b := by
      have := hbs 0 (by simp)
      rwa [Nat.add_zero, List.getElem_cons_zero] at this
    have hk : s % 32 < 32 := Nat.mod_lt _ (by decide)
    unfold firstFreeBit at hs2
    split at hs2
    · next hfull =>
      by_cases hlt : s < 32 * j + 32
      · -- a bundle of all ones
        have hi : s = 32 * j + s % 32 := by omega
        have hbit := congrArg (fun x : UInt32 => x.toNat.testBit (s % 32)) hfull
        simp only [testBit_not hk, UInt32.toNat_zero, Nat.zero_testBit, Bool.not_eq_false'] at hbit
        rw [hi, bitAt_bundle ba hk, hb]
        exact hbit
      · have hbs' : ∀ t (ht : t < bs.length), bundleAt ba (j + 1 + t) = bs[t] := fun t ht => by
          have := hbs (t + 1) (by simp; omega)
          rwa [List.getElem_cons_succ, show j + (t + 1) = j + 1 + t by omega] at this
        exact ih (j + 1) hbs' (by omega) (by rw [show 32 * (j + 1) = 32 * j + 32 by omega]; exact hs2)
    · split at hs2
      · -- below the lowest clear bit of the first bundle that is not all ones
        have hle := findLsbSet_le (~~~b)
        have hi : s = 32 * j + s % 32 := by omega
        have hbit := findLsbSet_low (x := ~~~b) (k := s % 32) (by omega)
        rw [testBit_not hk, Bool.not_eq_false'] at hbit
        rw [hi, bitAt_bundle ba hk, hb]
        exact hbit
      · omega

-- What the search of sys_bitarray_alloc ends with: the first clear region, set, and 0;
-- or -ENOSPC with the bitarray as it was when no region is clear.
def AllocOutcome (ba : SysBitarray) (numBits : Nat) (r : SysBitarray × Int × Nat) : Prop :=
  (r.2.1 = 0 ∧ r.2.2 + numBits ≤ ba.numBits ∧ regionIs ba r.2.2 numBits false = true ∧
      (∀ s < r.2.2, regionIs ba s numBits false = false) ∧ r.1 = setRegion ba r.2.2 numBits true none) ∨
    (r.2.1 = -eNoSpc ∧ r.1 = ba ∧ ∀ s, s + numBits ≤ ba.numBits → regionIs ba s numBits false = false)

variable {ba} {numBits : Nat} (hn : 0 < numBits)

include hn in
-- The search loop, by its own induction; the invariant is that no region starting
-- before bitIdx is clear.
theorem allocLoop_spec (hle : numBits ≤ ba.numBits) (bitIdx : Nat)
    (hinv : ∀ s < bitIdx, s + numBits ≤ ba.numBits → regionIs ba s numBits false = false) :
    AllocOutcome ba numBits (sysBitarrayAllocLoop ba numBits (ba.numBits - numBits) hn bitIdx) := by
  induction bitIdx using sysBitarrayAllocLoop.induct ba numBits (ba.numBits - numBits) hn with
  | case1 x hx bd hm =>
    -- the region at x is clear: it is set and x returned
    obtain ⟨hbd, hclear⟩ := matchRegion_none ba hn hm
    rw [sysBitarrayAllocLoop, dif_pos hx]
    split
    · next bd' hm' =>
      rw [hm] at hm'
      cases hm'
      rw [hbd]
      unfold AllocOutcome
      dsimp only
      exact Or.inl ⟨rfl, by omega, hclear, fun s hs => hinv s hs (by omega), rfl⟩
    · next hm' =>
      rw [hm] at hm'
      cases hm'
  | case2 x hx fst mismatch hm ih =>
    -- the set bit found rules out every start from x up to it
    have hmis := matchRegion_mismatch ba false hn (congrArg Prod.snd hm)
    have hstep : sysBitarrayAllocLoop ba numBits (ba.numBits - numBits) hn x =
        sysBitarrayAllocLoop ba numBits (ba.numBits - numBits) hn (mismatch + 1) := by
      rw [sysBitarrayAllocLoop, dif_pos hx]
      split
      · next hm' =>
        rw [hm] at hm'
        cases hm'
      · next m hm' =>
        rw [hm] at hm'
        cases hm'
        rfl
    rw [hstep]
    refine ih fun s hs hs' => ?_
    by_cases hsx : s < x
    · exact hinv s hsx hs'
    · exact regionIs_eq_false_of_mismatch ba (m := mismatch) (by omega) (by omega) hmis.2.2
  | case3 x hx =>
    rw [sysBitarrayAllocLoop, dif_neg hx]
    exact Or.inr ⟨rfl, rfl, fun s hs => hinv s (by omega) hs⟩

include hn in
-- sys_bitarray_alloc past 32 bits: the search starts at the first clear bit, below which
-- every bit is set.
theorem sysBitarrayAlloc_outcome (ulongBits : Nat) (hle : numBits ≤ ba.numBits) (hbig : 32 < ba.numBits) :
    ∃ r, sysBitarrayAlloc ulongBits ba numBits = .ok r ∧ AllocOutcome ba numBits r := by
  unfold sysBitarrayAlloc
  rw [dif_neg (by omega), if_neg (by omega)]
  refine ⟨_, rfl, allocLoop_spec hn hle _ fun s hs _ => ?_⟩
  have hbs : ∀ t (ht : t < (ba.bundles.take ba.numBundles).length),
      bundleAt ba (0 + t) = (ba.bundles.take ba.numBundles)[t] := by
    intro t ht
    have ht' : t < ba.bundles.length := by
      rw [List.length_take] at ht
      omega
    rw [List.getElem_take, bundleAt, Nat.zero_add, List.getD_eq_getElem?_getD, List.getElem?_eq_getElem ht',
      Option.getD_some]
  have hbit := bitAt_of_lt_firstFreeBit ba _ 0 hbs (Nat.zero_le s) (by rw [Nat.mul_zero]; exact hs)
  exact regionIs_eq_false_of_mismatch ba (le_refl s) (by omega) hbit

include hn in
theorem bitarray_alloc_first_fit (ulongBits : Nat) (hwf : Wf ba) (hle : numBits ≤ ba.numBits)
    (hbig : 32 < ba.numBits) :
    ∃ r, sysBitarrayAlloc ulongBits ba numBits = .ok r ∧
      ((r.2.1 = 0 ∧ r.2.2 + numBits ≤ ba.numBits ∧ regionIs ba r.2.2 numBits false = true ∧
          (∀ s < r.2.2, regionIs ba s numBits false = false) ∧
          ∀ i, bitAt r.1 i = if r.2.2 ≤ i ∧ i < r.2.2 + numBits then true else bitAt ba i) ∨
        (r.2.1 = -eNoSpc ∧ r.1 = ba ∧ ∀ s, s + numBits ≤ ba.numBits → regionIs ba s numBits false = false)) := by
  obtain ⟨r, hr, hout⟩ := sysBitarrayAlloc_outcome hn ulongBits hle hbig
  refine ⟨r, hr, ?_⟩
  rcases hout with ⟨h0, hfit, hclear, hfirst, hset⟩ | hfail
  · refine Or.inl ⟨h0, hfit, hclear, hfirst, fun i => ?_⟩
    rw [hset]
    exact bitAt_setRegion ba hn (hwf.lt_length hn hfit) true i
  · exact Or.inr hfail

theorem bitarray_alloc_first_fit_define64 :
    ∃ r, sysBitarrayAlloc 64 (sysBitarrayDefine 64) 3 = .ok r ∧
      ((r.2.1 = 0 ∧ r.2.2 + 3 ≤ (sysBitarrayDefine 64).numBits ∧ regionIs (sysBitarrayDefine 64) r.2.2 3 false = true ∧
          (∀ s < r.2.2, regionIs (sysBitarrayDefine 64) s 3 false = false) ∧
          ∀ i, bitAt r.1 i = if r.2.2 ≤ i ∧ i < r.2.2 + 3 then true else bitAt (sysBitarrayDefine 64) i) ∨
        (r.2.1 = -eNoSpc ∧ r.1 = sysBitarrayDefine 64 ∧
          ∀ s, s + 3 ≤ (sysBitarrayDefine 64).numBits → regionIs (sysBitarrayDefine 64) s 3 false = false)) :=
  bitarray_alloc_first_fit (by decide) 64 (wf_sysBitarrayDefine 64) (by decide) (by decide)

end Alloc

/-! sys_bitarray_free past 32 bits, and freeing what was allocated -/

section Free

variable {ba : SysBitarray} {numBits offset : Nat}

-- Past 32 bits, free clears a region only when all of it is set, and otherwise
-- returns -EFAULT with the bitarray unchanged.
theorem sysBitarrayFree_spec (ulongBits : Nat) (hbig : 32 < ba.numBits)
    (hv : 0 < numBits ∧ offset + numBits ≤ ba.numBits) :
    sysBitarrayFree ulongBits ba numBits offset =
      if regionIs ba offset numBits true then .ok (setRegion ba offset numBits false none, 0) else .ok (ba, -eFault) := by
  unfold sysBitarrayFree
  rw [regionInvalid_eq_false_iff.2 hv, if_neg Bool.false_ne_true, if_neg (by omega)]
  split
  · next bd hm =>
    obtain ⟨hbd, hset⟩ := matchRegion_none ba hv.1 hm
    rw [if_pos hset, hbd, setRegion_some]
  · next m hm =>
    rw [matchRegion_some ba hv.1 hm]
    rfl

-- Setting a clear region and then clearing it gives back the bitarray.
theorem setRegion_clear_set (hwf : Wf ba) (hn : 0 < numBits) (hfit : offset + numBits ≤ ba.numBits)
    (hclear : regionIs ba offset numBits false = true) :
    setRegion (setRegion ba offset numBits true none) offset numBits false none = ba := by
  have hlen := hwf.lt_length hn hfit
  have hwf' := hwf.setRegion offset numBits true none
  refine (hwf'.setRegion offset numBits false none).ext hwf ?_ ?_ fun i => ?_
  · rw [numBits_setRegion, numBits_setRegion]
  · rw [numBundles_setRegion, numBundles_setRegion]
  · have hlen' : (offset + numBits - 1) / 32 < (setRegion ba offset numBits true none).bundles.length := by
      rwa [length_setRegion]
    rw [bitAt_setRegion _ hn hlen' false i, bitAt_setRegion ba hn hlen true i]
    by_cases hi : offset ≤ i ∧ i < offset + numBits
    · rw [if_pos hi, regionIs_iff.1 hclear i hi.1 hi.2]
    · rw [if_neg hi, if_neg hi]

variable (hn : 0 < numBits)

include hn in
theorem bitarray_free_after_alloc (ulongBits : Nat) (hwf : Wf ba) (hle : numBits ≤ ba.numBits)
    (hbig : 32 < ba.numBits) :
    ∃ r, sysBitarrayAlloc ulongBits ba numBits = .ok r ∧
      (r.2.1 = 0 → sysBitarrayFree ulongBits r.1 numBits r.2.2 = .ok (ba, 0)) := by
  obtain ⟨r, hr, hout⟩ := sysBitarrayAlloc_outcome hn ulongBits hle hbig
  refine ⟨r, hr, fun h0 => ?_⟩
  rcases hout with ⟨-, hfit, hclear, -, hset⟩ | ⟨hfail, -⟩
  · have hlen := hwf.lt_length hn hfit
    have hbig' : 32 < r.1.numBits := by rw [hset, numBits_setRegion]; exact hbig
    have hfit' : r.2.2 + numBits ≤ r.1.numBits := by rw [hset, numBits_setRegion]; exact hfit
    -- the region just allocated is set throughout
    have hall : regionIs r.1 r.2.2 numBits true = true := by
      refine regionIs_iff.2 fun i h1 h2 => ?_
      rw [hset, bitAt_setRegion ba hn hlen true i, if_pos ⟨h1, h2⟩]
    rw [sysBitarrayFree_spec ulongBits hbig' ⟨hn, hfit'⟩, if_pos hall, hset,
      setRegion_clear_set hwf hn hfit hclear]
  · rw [h0] at hfail
    cases hfail

theorem bitarray_free_after_alloc_define64 :
    ∃ r, sysBitarrayAlloc 64 (sysBitarrayDefine 64) 40 = .ok r ∧
      (r.2.1 = 0 → sysBitarrayFree 64 r.1 40 r.2.2 = .ok (sysBitarrayDefine 64, 0)) :=
  bitarray_free_after_alloc (by decide) 64 (wf_sysBitarrayDefine 64) (by decide) (by decide)

end Free

/-! sys_bitarray_test_and_set_region -/

section TestAndSet

variable {ba : SysBitarray} {numBits offset : Nat}

end TestAndSet

end Zephyr.Bitarray
