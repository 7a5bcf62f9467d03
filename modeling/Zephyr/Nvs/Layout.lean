import Zephyr.Nvs.Flash
import Zephyr.Lib.Bits

namespace Zephyr.Nvs

open Zephyr.Lib

/-! What nvs_flash_al_wrt_streams puts on the flash -/

-- len & ~(wbs - 1) on the 32-bit size_t rounds down to a multiple of a power-of-two wbs.
theorem andNot_two_pow {k : Nat} (hk : k ≤ 32) {x : Nat} (hx : x < 2 ^ 32) :
    andNot x (2 ^ k - 1) = x - x % 2 ^ k := by
  have h1 : 1 ≤ 2 ^ k := Nat.one_le_two_pow
  have h2 : 2 ^ k ≤ 2 ^ 32 := Nat.pow_le_pow_right (by decide) hk
  rw [andNot, show 2 ^ 32 - 1 - (2 ^ k - 1) = 2 ^ 32 - 2 ^ k by omega]
  exact and_two_pow_sub_two_pow hk hx

section AlSize

variable {fs : NvsFs} {k : Nat} (hw : fs.flashParameters.writeBlockSize = 2 ^ k) (hk : k ≤ 32)
include hw hk

-- nvs_al_size rounds up to the write block size.
theorem nvsAlSize_spec {len : Nat} (hlen : len + 2 ^ k ≤ 2 ^ 32) :
    2 ^ k ∣ nvsAlSize fs len ∧ len ≤ nvsAlSize fs len ∧ nvsAlSize fs len < len + 2 ^ k := by
  unfold nvsAlSize
  rw [hw]
  by_cases h1 : 2 ^ k ≤ 1
  · have h2 : 2 ^ k = 1 := le_antisymm h1 Nat.one_le_two_pow
    rw [if_pos h1, h2]
    exact ⟨Nat.one_dvd _, le_refl _, Nat.lt_succ_self _⟩
  · rw [if_neg h1, andNot_two_pow hk (by omega)]
    have hmod := Nat.mod_lt (len + (2 ^ k - 1)) (Nat.two_pow_pos k)
    exact ⟨Nat.dvd_sub_mod _, by omega, by omega⟩

-- The multiple of the write block size in [len, len + wbs) is nvs_al_size of len.
theorem nvsAlSize_eq_of_dvd {len m : Nat} (hlen : len + 2 ^ k ≤ 2 ^ 32) (hm : 2 ^ k ∣ m)
    (h1 : len ≤ m) (h2 : m < len + 2 ^ k) : nvsAlSize fs len = m := by
  obtain ⟨⟨a, ha⟩, hle, hlt⟩ := nvsAlSize_spec hw hk hlen
  obtain ⟨b, hb⟩ := hm
  have hab : a = b := by
    apply le_antisymm
    · exact Nat.le_of_lt_succ (Nat.lt_of_mul_lt_mul_left (a := 2 ^ k) (by rw [Nat.mul_succ]; omega))
    · exact Nat.le_of_lt_succ (Nat.lt_of_mul_lt_mul_left (a := 2 ^ k) (by rw [Nat.mul_succ]; omega))
  rw [ha, hb, hab]

end AlSize

theorem flashWrite_append (fs : NvsFs) (offset : Nat) (as bs : List UInt8) :
    flashWrite (flashWrite fs offset as) (offset + as.length) bs = flashWrite fs offset (as ++ bs) := by
  simp [flashWrite, writeList_append]

-- What a run of the write loop leaves: W, a whole number of blocks, is written from offset
-- on, and the block buffer holds the bytes after it.
def WroteFrom (fs : NvsFs) (offset wbs : Nat) (bytes : List UInt8) (r : List UInt8 × Nat × NvsFs) : Prop :=
  ∃ W : List UInt8, W ++ r.1 = bytes ∧ wbs ∣ W.length ∧ r.1.length < wbs ∧ r.2.1 = offset + W.length ∧
    r.2.2 = flashWrite fs offset W

section Streams

variable {fs : NvsFs} {offset wbs : Nat}

theorem append_flatten_split (buf s : List UInt8) (streams : List (List UInt8)) (c : Nat) :
    buf ++ (s :: streams).flatten = buf ++ s.take c ++ (s.drop c :: streams).flatten := by
  rw [List.flatten_cons, List.flatten_cons, List.append_assoc, ← List.append_assoc (s.take c),
    List.take_append_drop]

theorem WroteFrom.nil {buf : List UInt8} (h : buf.length < wbs) : WroteFrom fs offset wbs buf (buf, offset, fs) :=
  ⟨[], rfl, dvd_zero _, h, rfl, rfl⟩

theorem WroteFrom.write {A rest : List UInt8} {r : List UInt8 × Nat × NvsFs} (hA : wbs ∣ A.length)
    (h : WroteFrom (flashWrite fs offset A) (offset + A.length) wbs rest r) :
    WroteFrom fs offset wbs (A ++ rest) r := by
  obtain ⟨W, hW, hd, hb, ho, hf⟩ := h
  refine ⟨A ++ W, by rw [List.append_assoc, hW], by rw [List.length_append]; exact Nat.dvd_add hA hd, hb,
    by rw [ho, List.length_append, Nat.add_assoc], by rw [hf, flashWrite_append]⟩

-- The loop of nvs_flash_al_wrt_streams writes the streams, buffer first, back to back: whole
-- blocks go out as they come, and what is left of the last block stays in the buffer. The
-- induction is on the fuel, which covers one pass per byte and per stream.
theorem nvsFlashAlWrtStreamsLoop_wroteFrom {k : Nat} (hk : k ≤ 32) (fuel : Nat) :
    ∀ (streams : List (List UInt8)) (buf : List UInt8) (offset : Nat) (fs : NvsFs),
      buf.length < 2 ^ k → (∀ s ∈ streams, s.length < 2 ^ 32) →
      (streams.map List.length).sum + streams.length ≤ fuel →
      WroteFrom fs offset (2 ^ k) (buf ++ streams.flatten)
        (nvsFlashAlWrtStreamsLoop (2 ^ k) fuel streams buf offset fs) := by
  have hpos := Nat.two_pow_pos k
  induction fuel with
  | zero =>
    intro streams buf offset fs hbuf _ hfuel
    obtain rfl : streams = [] := List.eq_nil_of_length_eq_zero (by omega)
    rw [List.flatten_nil, List.append_nil]
    exact WroteFrom.nil hbuf
  | succ fuel ih =>
    intro streams buf offset fs hbuf hlen hfuel
    cases streams with
    | nil => simpa [nvsFlashAlWrtStreamsLoop] using WroteFrom.nil hbuf
    | cons s streams =>
      have hs : s.length < 2 ^ 32 := hlen s (by simp)
      have hrest : ∀ t ∈ streams, t.length < 2 ^ 32 := fun t ht => hlen t (by simp [ht])
      have hdrop : ∀ n, ∀ t ∈ s.drop n :: streams, t.length < 2 ^ 32 := fun n t ht => by
        rcases List.mem_cons.1 ht with rfl | ht
        · exact lt_of_le_of_lt (by simp) hs
        · exact hrest t ht
      simp only [List.map_cons, List.sum_cons, List.length_cons] at hfuel
      rw [nvsFlashAlWrtStreamsLoop]
      by_cases h0 : s.length = 0
      · rw [if_pos h0]
        obtain rfl : s = [] := List.eq_nil_of_length_eq_zero h0
        simpa using ih streams buf offset fs hbuf hrest (by omega)
      · rw [if_neg h0, andNot_two_pow hk hs]
        by_cases hdir : buf.length = 0 ∧ 0 < s.length - s.length % 2 ^ k
        · -- the whole blocks of the stream are written directly
          rw [if_pos hdir]
          obtain rfl : buf = [] := List.eq_nil_of_length_eq_zero hdir.1
          have hfb : (s.take (s.length - s.length % 2 ^ k)).length = s.length - s.length % 2 ^ k := by
            simp
          have h := ih (s.drop (s.length - s.length % 2 ^ k) :: streams) []
            (offset + (s.length - s.length % 2 ^ k)) (flashWrite fs offset (s.take (s.length - s.length % 2 ^ k))) hpos (hdrop _)
            (by simp only [List.map_cons, List.sum_cons, List.length_cons, List.length_drop]; omega)
          have h' : WroteFrom (flashWrite fs offset (s.take (s.length - s.length % 2 ^ k)))
              (offset + (s.take (s.length - s.length % 2 ^ k)).length) (2 ^ k)
              ([] ++ (s.drop (s.length - s.length % 2 ^ k) :: streams).flatten)
              (nvsFlashAlWrtStreamsLoop (2 ^ k) fuel (s.drop (s.length - s.length % 2 ^ k) :: streams) []
                (offset + (s.length - s.length % 2 ^ k))
                (flashWrite fs offset (s.take (s.length - s.length % 2 ^ k)))) := by
            rw [hfb]
            exact h
          rw [append_flatten_split [] s streams (s.length - s.length % 2 ^ k)]
          simpa only [List.nil_append] using WroteFrom.write (by rw [hfb]; exact Nat.dvd_sub_mod _) h'
        · rw [if_neg hdir]
          dsimp only
          have hcopy : 0 < min (2 ^ k - buf.length) s.length := by omega
          rw [append_flatten_split buf s streams (min (2 ^ k - buf.length) s.length)]
          by_cases hfull : (buf ++ s.take (min (2 ^ k - buf.length) s.length)).length = 2 ^ k
          · -- the buffer fills up and goes out as one block
            rw [if_pos hfull]
            have h := ih (s.drop (min (2 ^ k - buf.length) s.length) :: streams) [] (offset + 2 ^ k)
              (flashWrite fs offset (buf ++ s.take (min (2 ^ k - buf.length) s.length))) hpos (hdrop _)
              (by simp only [List.map_cons, List.sum_cons, List.length_cons, List.length_drop]; omega)
            have h' : WroteFrom (flashWrite fs offset (buf ++ s.take (min (2 ^ k - buf.length) s.length)))
                (offset + (buf ++ s.take (min (2 ^ k - buf.length) s.length)).length) (2 ^ k)
                ([] ++ (s.drop (min (2 ^ k - buf.length) s.length) :: streams).flatten)
                (nvsFlashAlWrtStreamsLoop (2 ^ k) fuel (s.drop (min (2 ^ k - buf.length) s.length) :: streams)
                  [] (offset + 2 ^ k)
                  (flashWrite fs offset (buf ++ s.take (min (2 ^ k - buf.length) s.length)))) := by
              rw [hfull]
              exact h
            simpa only [List.nil_append] using WroteFrom.write (by rw [hfull]) h'
          · rw [if_neg hfull]
            have hlt : (buf ++ s.take (min (2 ^ k - buf.length) s.length)).length < 2 ^ k := by
              have : (buf ++ s.take (min (2 ^ k - buf.length) s.length)).length ≤ 2 ^ k := by
                simp only [List.length_append, List.length_take]
                omega
              omega
            exact ih (s.drop (min (2 ^ k - buf.length) s.length) :: streams) _ offset fs hlt (hdrop _)
              (by simp only [List.map_cons, List.sum_cons, List.length_cons, List.length_drop]; omega)

-- nvs_flash_al_wrt_streams with a power-of-two write block size writes head, data and tail
-- back to back at addr, then erase-value bytes up to nvs_al_size of their length, and
-- changes nothing else.
theorem nvsFlashAlWrtStreams_eq {k : Nat} (hw : fs.flashParameters.writeBlockSize = 2 ^ k) (hk : k ≤ 32)
    (addr : UInt32) (head data tail : List UInt8)
    (hlen : head.length + data.length + tail.length + 2 ^ k ≤ 2 ^ 32) :
    nvsFlashAlWrtStreams fs addr head data tail =
      flashWrite fs (nvsFlashOffset fs addr) (head ++ data ++ tail ++
        List.replicate (nvsAlSize fs (head.length + data.length + tail.length) -
          (head.length + data.length + tail.length)) fs.flashParameters.eraseValue) := by
  have hpos := Nat.two_pow_pos k
  unfold nvsFlashAlWrtStreams
  rw [hw]
  dsimp only
  by_cases h0 : head.length + data.length + tail.length = 0
  · rw [if_pos h0, h0, (nvsAlSize_eq_of_dvd hw hk (by omega) (dvd_zero _) le_rfl (by omega) : nvsAlSize fs 0 = 0)]
    obtain ⟨rfl, rfl, rfl⟩ : head = [] ∧ data = [] ∧ tail = [] := by
      simp only [← List.length_eq_zero_iff]
      omega
    rfl
  · rw [if_neg h0]
    have hwf := nvsFlashAlWrtStreamsLoop_wroteFrom hk (head.length + data.length + tail.length + 3)
      [head, data, tail] [] (nvsFlashOffset fs addr) fs hpos
      (fun t ht => by simp only [List.mem_cons, List.not_mem_nil, or_false] at ht; rcases ht with rfl | rfl | rfl <;> omega)
      (by simp only [List.map_cons, List.map_nil, List.sum_cons, List.sum_nil, List.length_cons,
        List.length_nil]; omega)
    generalize nvsFlashAlWrtStreamsLoop (2 ^ k) (head.length + data.length + tail.length + 3)
      [head, data, tail] [] (nvsFlashOffset fs addr) fs = r at hwf ⊢
    obtain ⟨buf, off, fs'⟩ := r
    obtain ⟨W, hW, hd, hb, ho, hf⟩ := hwf
    dsimp only at hW hd hb ho hf ⊢
    subst ho hf
    have hbytes : head ++ data ++ tail = W ++ buf := by simpa [List.append_assoc] using hW.symm
    have htotal : head.length + data.length + tail.length = W.length + buf.length := by
      rw [← List.length_append, ← List.length_append, ← List.length_append, hbytes]
    by_cases hbuf : 0 < buf.length
    · -- the last block goes out padded with the erase value
      rw [if_pos hbuf, flashWrite_append, hbytes, List.append_assoc,
        nvsAlSize_eq_of_dvd hw hk (by omega) (Nat.dvd_add hd dvd_rfl) (by omega) (by omega)]
      rw [show W.length + 2 ^ k - (head.length + data.length + tail.length) = 2 ^ k - buf.length by omega]
      rfl
    · obtain rfl : buf = [] := List.eq_nil_of_length_eq_zero (by omega)
      rw [if_neg hbuf, hbytes, nvsAlSize_eq_of_dvd hw hk (by omega) (by rw [htotal]; simpa using hd)
        le_rfl (by omega)]
      simp

end Streams


/-! Addresses: the sector in the high half, the offset in the low half -/

theorem toNat_and_addrOffsMask (x : UInt32) : (x &&& addrOffsMask).toNat = x.toNat % 2 ^ 16 := by
  rw [UInt32.toNat_and]
  exact Nat.and_two_pow_sub_one_eq_mod _ 16

theorem toNat_and_addrSectMask (x : UInt32) : (x &&& addrSectMask).toNat = x.toNat - x.toNat % 2 ^ 16 := by
  rw [UInt32.toNat_and]
  exact @and_two_pow_sub_two_pow x.toNat 32 16 (by decide) x.toNat_lt

theorem nvsFlashOffset_eq (fs : NvsFs) (x : UInt32) :
    nvsFlashOffset fs x = fs.offset + fs.sectorSize * (x.toNat / 2 ^ 16) + x.toNat % 2 ^ 16 := by
  rw [nvsFlashOffset, toNat_and_addrOffsMask, UInt32.toNat_shiftRight]
  simp [addrSectShift, Nat.shiftRight_eq_div_pow]

/-! Reads after writes -/

section Reads

variable (fs : NvsFs)

@[simp] theorem nvsFlashOffset_flashWrite (o : Nat) (D : List UInt8) :
    nvsFlashOffset (flashWrite fs o D) = nvsFlashOffset fs := rfl

-- A read from where a write started gives the bytes written.
theorem nvsFlashRd_flashWrite_self (addr : UInt32) {o : Nat} (ho : nvsFlashOffset fs addr = o)
    (D : List UInt8) {n : Nat} (hn : n ≤ D.length) : nvsFlashRd (flashWrite fs o D) addr n = D.take n := by
  subst ho
  apply List.ext_getElem (by simp [nvsFlashRd, hn])
  intro i hi _
  simp only [nvsFlashRd, List.getElem_map, List.getElem_range, nvsFlashOffset_flashWrite]
  simp only [flashWrite, writeList_apply, List.getElem_take]
  rw [dif_pos (by simp only [nvsFlashRd, List.length_map, List.length_range] at hi; omega)]
  simp

-- A read outside the bytes written sees what was there before.
theorem nvsFlashRd_flashWrite_of_disjoint (addr : UInt32) (o : Nat) (D : List UInt8) (n : Nat)
    (h : nvsFlashOffset fs addr + n ≤ o ∨ o + D.length ≤ nvsFlashOffset fs addr) :
    nvsFlashRd (flashWrite fs o D) addr n = nvsFlashRd fs addr n := by
  apply List.ext_getElem (by simp [nvsFlashRd])
  intro i hi _
  simp only [nvsFlashRd, List.getElem_map, List.getElem_range, nvsFlashOffset_flashWrite]
  simp only [flashWrite, writeList_apply]
  simp only [nvsFlashRd, List.length_map, List.length_range] at hi
  rw [dif_neg (by simp only [nvsFlashOffset] at h ⊢; omega)]

end Reads

/-! The writes of an entry -/

section Writes

variable {fs : NvsFs} {k : Nat} (hw : fs.flashParameters.writeBlockSize = 2 ^ k) (hk : k ≤ 5)
include hw hk

-- nvs_flash_data_wrt writes the data and its padding at data_wra and moves data_wra past them.
theorem nvsFlashDataWrt_eq (data : List UInt8) (hlen : data.length + 2 ^ k ≤ 2 ^ 32) :
    nvsFlashDataWrt fs data =
      { flashWrite fs (nvsFlashOffset fs fs.dataWra) (data ++
          List.replicate (nvsAlSize fs data.length - data.length) fs.flashParameters.eraseValue) with
        dataWra := fs.dataWra + (nvsAlSize fs data.length).toUInt32 } := by
  have h := nvsFlashAlWrtStreams_eq hw (by omega) fs.dataWra [] data [] (by simpa using hlen)
  simp only [List.length_nil, Nat.zero_add, Nat.add_zero, List.nil_append, List.append_nil] at h
  rw [nvsFlashDataWrt, nvsFlashDataAlWrt]
  simp only [List.length_nil, Nat.zero_add, h]
  rfl

-- nvs_flash_ate_wrt writes the entry and its padding at ate_wra, keeps its address in the
-- id's cache slot, and moves ate_wra down one entry.
theorem nvsFlashAteWrt_eq (cfg : NvsConfig) (entry : NvsAte) :
    nvsFlashAteWrt cfg fs entry =
      let fs' := flashWrite fs (nvsFlashOffset fs fs.ateWra) (entry.toBytes ++
        List.replicate (nvsAlSize fs nvsAteSize - nvsAteSize) fs.flashParameters.eraseValue)
      let fs' := if cfg.lookupCache ∧ entry.id ≠ 0xFFFF then
          { fs' with lookupCache := Function.update fs.lookupCache (nvsLookupCachePos cfg entry.id) fs.ateWra }
        else fs'
      { fs' with ateWra := fs.ateWra - (nvsAlSize fs nvsAteSize).toUInt32 } := by
  have hpow : 2 ^ k ≤ 2 ^ 5 := Nat.pow_le_pow_right (by decide) hk
  have h := nvsFlashAlWrtStreams_eq hw (by omega) fs.ateWra [] entry.toBytes []
    (by simp only [List.length_nil, length_toBytes, nvsAteSize]; omega)
  simp only [List.length_nil, Nat.zero_add, Nat.add_zero, List.nil_append, List.append_nil,
    length_toBytes] at h
  rw [nvsFlashAteWrt, nvsFlashAlWrt, h]
  dsimp only
  split <;> rfl

end Writes

end Zephyr.Nvs
