import Zephyr.Nvs.Fs
import Zephyr.Nvs.Layout

namespace Zephyr.Nvs

open Zephyr.Lib

/-! nvs_write and then nvs_read of the same id -/

-- Blank flash holds no valid entry: the CRC of seven 0xFF bytes is not 0xFF.
theorem idHit_of_blank {fs : NvsFs} {a : UInt32}
    (h : nvsFlashRd fs a nvsAteSize = List.replicate nvsAteSize 0xff) (id : UInt16) : idHit fs id a = false := by
  have hcrc : nvsAteCrc8Check (NvsAte.ofBytes (List.replicate nvsAteSize 0xff)) = 1 := by decide
  simp [idHit, nvsFlashAteRd, h, nvsAteValid, hcrc]

theorem nvsFlashRd_nvsFlashAteWrt {fs : NvsFs} {k : Nat} (hw : fs.flashParameters.writeBlockSize = 2 ^ k)
    (hk : k ≤ 5) (cfg : NvsConfig) (entry : NvsAte) (addr : UInt32) (n : Nat) :
    nvsFlashRd (nvsFlashAteWrt cfg fs entry) addr n =
      nvsFlashRd (flashWrite fs (nvsFlashOffset fs fs.ateWra) (entry.toBytes ++
        List.replicate (nvsAlSize fs nvsAteSize - nvsAteSize) fs.flashParameters.eraseValue)) addr n := by
  rw [nvsFlashAteWrt_eq hw hk]
  dsimp only
  split <;> rfl

theorem toNat_nvsDataLenWithCrc {n : Nat} (h0 : 0 < n) (h : n < 2 ^ 16) : (nvsDataLenWithCrc n).toNat = n := by
  have hne : n ≠ 0 := by omega
  rw [nvsDataLenWithCrc, if_pos hne, UInt16.toNat_ofNat', nvsDataCrcSize, Nat.add_zero]
  exact Nat.mod_eq_of_lt h

-- The entry nvs_flash_wrt_entry writes for len bytes of data at data_wra.
def nvsEntryAte (fs : NvsFs) (id : UInt16) (len : Nat) : NvsAte :=
  nvsAteCrc8Update ⟨id, (fs.dataWra &&& addrOffsMask).toUInt16, nvsDataLenWithCrc len, 0xff, 0⟩

theorem nvsFlashWrtEntry_eq (cfg : NvsConfig) (fs : NvsFs) (id : UInt16) (data : List UInt8) (len : Nat) :
    nvsFlashWrtEntry cfg fs id data len = nvsFlashAteWrt cfg (nvsFlashDataWrt fs data) (nvsEntryAte fs id len) :=
  rfl

section RoundTrip

variable {cfg : NvsConfig} {fs : NvsFs} {id : UInt16} {data : List UInt8} {k : Nat}
  (hw : fs.flashParameters.writeBlockSize = 2 ^ k) (hk : k ≤ 5) (hsector : fs.sectorSize ≤ nvsMaxSectorSize)
  (hlen : data.length ≤ fs.sectorSize)
  (hsame : fs.dataWra &&& addrSectMask = fs.ateWra &&& addrSectMask)
  (hslot : (fs.ateWra &&& addrOffsMask).toNat + 2 * nvsAlSize fs nvsAteSize ≤ fs.sectorSize)
  (hroom : fs.dataWra.toNat + nvsAlSize fs data.length + nvsAlSize fs nvsAteSize ≤ fs.ateWra.toNat)

include hw hk hsector hlen in
theorem nvsAlSize_bounds :
    nvsAteSize ≤ nvsAlSize fs nvsAteSize ∧ nvsAlSize fs nvsAteSize ≤ 40 ∧
      data.length ≤ nvsAlSize fs data.length ∧ nvsAlSize fs data.length < data.length + 2 ^ k ∧
      2 ^ k ≤ 32 := by
  have hpow : 2 ^ k ≤ 2 ^ 5 := Nat.pow_le_pow_right (by decide) hk
  have hmax : nvsMaxSectorSize = 65536 := rfl
  obtain ⟨-, h1, h2⟩ := @nvsAlSize_spec fs k hw (by omega) nvsAteSize (by simp only [nvsAteSize]; omega)
  obtain ⟨-, h3, h4⟩ := @nvsAlSize_spec fs k hw (by omega) data.length (by omega)
  simp only [nvsAteSize] at h1 h2 ⊢
  omega

include hsame hroom in
theorem room_sector : fs.dataWra.toNat / 2 ^ 16 = fs.ateWra.toNat / 2 ^ 16 ∧
    fs.dataWra.toNat % 2 ^ 16 + nvsAlSize fs data.length + nvsAlSize fs nvsAteSize ≤ fs.ateWra.toNat % 2 ^ 16 := by
  have h := congrArg UInt32.toNat hsame
  rw [toNat_and_addrSectMask, toNat_and_addrSectMask] at h
  omega

include hw hk hsector hlen in
-- What the flash holds after nvs_flash_wrt_entry: the data and its padding at data_wra,
-- then the entry and its padding at ate_wra.
theorem nvsFlashRd_nvsFlashWrtEntry (addr : UInt32) (n : Nat) :
    nvsFlashRd (nvsFlashWrtEntry cfg fs id data data.length) addr n =
      nvsFlashRd (flashWrite (flashWrite fs (nvsFlashOffset fs fs.dataWra)
          (data ++ List.replicate (nvsAlSize fs data.length - data.length) fs.flashParameters.eraseValue))
        (nvsFlashOffset fs fs.ateWra) ((nvsEntryAte fs id data.length).toBytes ++
          List.replicate (nvsAlSize fs nvsAteSize - nvsAteSize) fs.flashParameters.eraseValue)) addr n := by
  have hmax : nvsMaxSectorSize = 65536 := rfl
  have hpow : 2 ^ k ≤ 2 ^ 5 := Nat.pow_le_pow_right (by decide) hk
  have hlen' : data.length + 2 ^ k ≤ 2 ^ 32 := by omega
  have hw1 : (nvsFlashDataWrt fs data).flashParameters.writeBlockSize = 2 ^ k := by
    rw [nvsFlashDataWrt_eq hw hk data hlen']
    exact hw
  rw [nvsFlashWrtEntry_eq, nvsFlashRd_nvsFlashAteWrt hw1 hk, nvsFlashDataWrt_eq hw hk data hlen']
  rfl

include hw hk hsector hlen in
theorem nvsFlashWrtEntry_fields :
    (nvsFlashWrtEntry cfg fs id data data.length).ready = fs.ready ∧
      (nvsFlashWrtEntry cfg fs id data data.length).sectorSize = fs.sectorSize ∧
      (nvsFlashWrtEntry cfg fs id data data.length).sectorCount = fs.sectorCount ∧
      (nvsFlashWrtEntry cfg fs id data data.length).flashParameters = fs.flashParameters ∧
      (nvsFlashWrtEntry cfg fs id data data.length).ateWra = fs.ateWra - (nvsAlSize fs nvsAteSize).toUInt32 ∧
      (cfg.lookupCache = true → id ≠ 0xFFFF →
        (nvsFlashWrtEntry cfg fs id data data.length).lookupCache (nvsLookupCachePos cfg id) = fs.ateWra) := by
  have hmax : nvsMaxSectorSize = 65536 := rfl
  have hpow : 2 ^ k ≤ 2 ^ 5 := Nat.pow_le_pow_right (by decide) hk
  have hlen' : data.length + 2 ^ k ≤ 2 ^ 32 := by omega
  have hw1 : (nvsFlashDataWrt fs data).flashParameters.writeBlockSize = 2 ^ k := by
    rw [nvsFlashDataWrt_eq hw hk data hlen']
    exact hw
  rw [nvsFlashWrtEntry_eq, nvsFlashAteWrt_eq hw1 hk, nvsFlashDataWrt_eq hw hk data hlen']
  dsimp only
  split
  · next hc => exact ⟨rfl, rfl, rfl, rfl, rfl, fun _ _ => Function.update_self _ _ _⟩
  · next hc => exact ⟨rfl, rfl, rfl, rfl, rfl, fun h1 h2 => absurd ⟨h1, h2⟩ hc⟩

include hw hk hsector hlen hroom in
-- The entry slot below ate_wra: ate_wra less the aligned ATE size, with no wrap around.
theorem ateSize_le_ateWra : (nvsAlSize fs nvsAteSize).toUInt32.toNat = nvsAlSize fs nvsAteSize ∧
    (nvsAlSize fs nvsAteSize).toUInt32 ≤ fs.ateWra := by
  obtain ⟨-, hS2, -, -, -⟩ := nvsAlSize_bounds hw hk hsector hlen
  have hS : (nvsAlSize fs nvsAteSize).toUInt32.toNat = nvsAlSize fs nvsAteSize := by
    rw [UInt32.toNat_ofNat']
    exact Nat.mod_eq_of_lt (by omega)
  refine ⟨hS, ?_⟩
  rw [UInt32.le_iff_toNat_le, hS]
  omega

include hw hk hsector hlen hsame hroom in
-- The flash offsets of data_wra, of ate_wra and of the entry slot below ate_wra, in one sector.
theorem room_offsets :
    nvsFlashOffset fs fs.dataWra + nvsAlSize fs data.length + nvsAlSize fs nvsAteSize ≤
        nvsFlashOffset fs fs.ateWra ∧
      nvsFlashOffset fs (fs.ateWra - (nvsAlSize fs nvsAteSize).toUInt32) + nvsAlSize fs nvsAteSize =
        nvsFlashOffset fs fs.ateWra := by
  obtain ⟨hS1, -, -, -, -⟩ := nvsAlSize_bounds hw hk hsector hlen
  obtain ⟨hdiv, hoff⟩ := room_sector hsame hroom
  obtain ⟨hS, hle⟩ := ateSize_le_ateWra hw hk hsector hlen hroom
  have hdivS : (fs.ateWra.toNat - nvsAlSize fs nvsAteSize) / 2 ^ 16 = fs.ateWra.toNat / 2 ^ 16 := by omega
  rw [nvsFlashOffset_eq, nvsFlashOffset_eq, nvsFlashOffset_eq, UInt32.toNat_sub_of_le _ _ hle, hS, hdiv, hdivS]
  omega

include hw hk hsector hlen hsame hroom in
-- After nvs_flash_wrt_entry the entry reads back at ate_wra, the data at data_wra, and the
-- entry slot below ate_wra is as it was.
theorem nvsFlashWrtEntry_reads :
    nvsFlashAteRd (nvsFlashWrtEntry cfg fs id data data.length) fs.ateWra = nvsEntryAte fs id data.length ∧
      (∀ n ≤ data.length, nvsFlashRd (nvsFlashWrtEntry cfg fs id data data.length) fs.dataWra n = data.take n) ∧
      nvsFlashRd (nvsFlashWrtEntry cfg fs id data data.length)
          (fs.ateWra - (nvsAlSize fs nvsAteSize).toUInt32) nvsAteSize =
        nvsFlashRd fs (fs.ateWra - (nvsAlSize fs nvsAteSize).toUInt32) nvsAteSize := by
  obtain ⟨hS1, -, hL1, -, -⟩ := nvsAlSize_bounds hw hk hsector hlen
  obtain ⟨hoff, hslotA⟩ := room_offsets hw hk hsector hlen hsame hroom
  have hrd := @nvsFlashRd_nvsFlashWrtEntry cfg fs id data k hw hk hsector hlen
  set Dd := data ++ List.replicate (nvsAlSize fs data.length - data.length) fs.flashParameters.eraseValue
  set Ad := (nvsEntryAte fs id data.length).toBytes ++
    List.replicate (nvsAlSize fs nvsAteSize - nvsAteSize) fs.flashParameters.eraseValue
  set F1 := flashWrite fs (nvsFlashOffset fs fs.dataWra) Dd with hF1
  have hF1off : nvsFlashOffset F1 = nvsFlashOffset fs := nvsFlashOffset_flashWrite fs _ _
  have hDd : Dd.length = nvsAlSize fs data.length := by
    simp only [Dd, List.length_append, List.length_replicate]
    omega
  have hAd : nvsAteSize ≤ Ad.length := by simp [Ad]
  refine ⟨?_, fun n hn => ?_, ?_⟩
  · rw [nvsFlashAteRd, hrd, nvsFlashRd_flashWrite_self F1 fs.ateWra (by rw [hF1off]) Ad hAd,
      List.take_left' (length_toBytes _), NvsAte.ofBytes_toBytes]
  · have hd : nvsFlashOffset F1 fs.dataWra + n ≤ nvsFlashOffset fs fs.ateWra := by
      rw [hF1off]
      omega
    rw [hrd, nvsFlashRd_flashWrite_of_disjoint F1 fs.dataWra _ Ad n (.inl hd),
      nvsFlashRd_flashWrite_self fs fs.dataWra rfl Dd (by omega), List.take_append_of_le_length hn]
  · have hd1 : nvsFlashOffset F1 (fs.ateWra - (nvsAlSize fs nvsAteSize).toUInt32) + nvsAteSize ≤
        nvsFlashOffset fs fs.ateWra := by
      rw [hF1off]
      omega
    have hd2 : nvsFlashOffset fs fs.dataWra + Dd.length ≤
        nvsFlashOffset fs (fs.ateWra - (nvsAlSize fs nvsAteSize).toUInt32) := by
      omega
    rw [hrd, nvsFlashRd_flashWrite_of_disjoint F1 _ _ Ad _ (.inl hd1),
      nvsFlashRd_flashWrite_of_disjoint fs _ _ Dd _ (.inr hd2)]

theorem nvsAlSize_congr {fs' : NvsFs} (h : fs'.flashParameters = fs.flashParameters) :
    nvsAlSize fs' = nvsAlSize fs := by
  funext len
  simp only [nvsAlSize, h]

include hw hk hsector hlen hslot in
-- The slot below ate_wra is not the last of its sector, so the walk steps up from it to
-- ate_wra without looking at the close ATE.
theorem nvsNext_below_ateWra :
    nvsNext (nvsFlashWrtEntry cfg fs id data data.length) (fs.ateWra - (nvsAlSize fs nvsAteSize).toUInt32) =
      fs.ateWra := by
  obtain ⟨-, hsec, -, hfp, -, -⟩ := @nvsFlashWrtEntry_fields cfg fs id data k hw hk hsector hlen
  obtain ⟨hS1, hS2, -, -, -⟩ := nvsAlSize_bounds hw hk hsector hlen
  have hmax : nvsMaxSectorSize = 65536 := rfl
  have h8 : nvsAteSize = 8 := rfl
  have hne : fs.ateWra &&& addrOffsMask ≠ (fs.sectorSize - nvsAlSize fs nvsAteSize).toUInt32 := by
    intro h
    have hlt : fs.sectorSize - nvsAlSize fs nvsAteSize < 2 ^ 32 := by omega
    have h' := congrArg UInt32.toNat h
    rw [UInt32.toNat_ofNat', Nat.mod_eq_of_lt hlt] at h'
    omega
  unfold nvsNext nvsPrevAte
  dsimp only
  rw [nvsAlSize_congr hfp, UInt32.sub_add_cancel, hsec, if_pos hne]

include hw hk hsector hlen hsame hroom in
-- The new entry is a valid one with the id: its data ends below it.
theorem idHit_ateWra :
    idHit (nvsFlashWrtEntry cfg fs id data data.length) id fs.ateWra = true := by
  obtain ⟨-, -, hL1, -, -⟩ := nvsAlSize_bounds hw hk hsector hlen
  obtain ⟨hdiv, hoff⟩ := room_sector hsame hroom
  obtain ⟨hate, -, -⟩ := @nvsFlashWrtEntry_reads cfg fs id data k hw hk hsector hlen hsame hroom
  have hmax : nvsMaxSectorSize = 65536 := rfl
  have hL : (nvsDataLenWithCrc data.length).toNat ≤ data.length := by
    unfold nvsDataLenWithCrc
    split
    · rw [UInt16.toNat_ofNat', nvsDataCrcSize]
      exact Nat.mod_le _ _
    · simp
  have hofs : ((fs.dataWra &&& addrOffsMask).toUInt16).toNat = fs.dataWra.toNat % 2 ^ 16 := by
    rw [UInt32.toNat_toUInt16, toNat_and_addrOffsMask, Nat.mod_mod]
  have hA : (fs.ateWra.toUInt16 &&& 0xFFFF).toNat = fs.ateWra.toNat % 2 ^ 16 := by
    rw [UInt16.toNat_and, UInt32.toNat_toUInt16]
    show fs.ateWra.toNat % 2 ^ 16 &&& 2 ^ 16 - 1 = _
    rw [Nat.and_two_pow_sub_one_eq_mod, Nat.mod_mod]
  simp only [idHit, hate, nvsEntryAte, Bool.and_eq_true, decide_eq_true_eq, nvsAteValid_update, hofs, hA]
  refine ⟨rfl, ?_⟩
  omega

include hw hk hsector hlen hsame hroom in
-- The entry's offset field, read back against ate_wra's sector, is data_wra again, and its
-- length field is the data's length.
theorem nvsEntryAte_fields (hpos : 0 < data.length) :
    (fs.ateWra &&& addrSectMask) + (nvsEntryAte fs id data.length).offset.toUInt32 = fs.dataWra ∧
      (nvsEntryAte fs id data.length).len.toNat = data.length := by
  obtain ⟨-, -, hL1, -, -⟩ := nvsAlSize_bounds hw hk hsector hlen
  obtain ⟨hdiv, hoff⟩ := room_sector hsame hroom
  have hD := fs.dataWra.toNat_lt
  refine ⟨?_, ?_⟩
  · rw [UInt32.ext_iff, UInt32.toNat_add, toNat_and_addrSectMask]
    simp only [nvsEntryAte, nvsAteCrc8Update, UInt16.toNat_toUInt32, UInt32.toNat_toUInt16,
      toNat_and_addrOffsMask]
    omega
  · exact toNat_nvsDataLenWithCrc hpos (by omega)

include hw hk hsector hlen hsame hslot hroom in
-- nvs_read_hist after nvs_flash_wrt_entry, from ate_wra (where the walk starts without the
-- lookup cache) or from the new entry (where the cache points): the entry is the first hit
-- and its data reads back.
theorem nvsReadHistFrom_written (hcount : 0 < fs.sectorCount) (hpos : 0 < data.length)
    (hblank : nvsFlashRd fs (fs.ateWra - (nvsAlSize fs nvsAteSize).toUInt32) nvsAteSize =
      List.replicate nvsAteSize 0xff)
    (len : Nat) {start : UInt32}
    (hstart : start = fs.ateWra - (nvsAlSize fs nvsAteSize).toUInt32 ∨ start = fs.ateWra) :
    nvsReadHistFrom (nvsFlashWrtEntry cfg fs id data data.length) id len 0 start =
      ((data.length : Int), data.take len) := by
  obtain ⟨hS1, -, -, -, -⟩ := nvsAlSize_bounds hw hk hsector hlen
  obtain ⟨hS, hle⟩ := ateSize_le_ateWra hw hk hsector hlen hroom
  obtain ⟨-, hsec, hcnt, hfp, hwra, -⟩ := @nvsFlashWrtEntry_fields cfg fs id data k hw hk hsector hlen
  obtain ⟨hate, hdata, hslotA⟩ := @nvsFlashWrtEntry_reads cfg fs id data k hw hk hsector hlen hsame hroom
  obtain ⟨hrdAddr, hlenE⟩ := @nvsEntryAte_fields fs id data k hw hk hsector hlen hsame hroom hpos
  have hnext := @nvsNext_below_ateWra cfg fs id data k hw hk hsector hlen hslot
  have hhit := @idHit_ateWra cfg fs id data k hw hk hsector hlen hsame hroom
  have hmiss := idHit_of_blank (hslotA.trans hblank) id
  have h8 : nvsAteSize = 8 := rfl
  have hA : fs.ateWra ≠ fs.ateWra - (nvsAlSize fs nvsAteSize).toUInt32 := by
    intro h
    have h' := congrArg UInt32.toNat h
    rw [UInt32.toNat_sub_of_le _ _ hle, hS] at h'
    omega
  have hfuel : 2 ≤ nvsWalkFuel (nvsFlashWrtEntry cfg fs id data data.length) := by
    have hq : 2 ≤ fs.sectorSize / nvsAlSize fs nvsAteSize :=
      (Nat.le_div_iff_mul_le (by omega)).2 (by omega)
    rw [nvsWalkFuel, hcnt, hsec, nvsAlSize_congr hfp]
    exact hq.trans (Nat.le_mul_of_pos_left _ hcount)
  generalize nvsFlashWrtEntry cfg fs id data data.length = fs2 at *
  -- Without the cache the walk first passes the blank slot below the entry.
  have hloop : ∀ f, nvsReadHistLoop fs2 id 0 (f + 2) start start ⟨0, 0, 0, 0, 0⟩ 0 =
      (nvsNext fs2 fs.ateWra, fs.ateWra, nvsEntryAte fs id data.length, 1) := by
    intro f
    rcases hstart with rfl | rfl
    · rw [nvsReadHistLoop_miss fs2 id 0 (f + 1) _ _ _ 0 (UInt16.le_refl _) hmiss (by rw [hnext, hwra]; exact hA),
        hnext, nvsReadHistLoop_hit fs2 id f _ _ _ hhit, hate]
    · rw [nvsReadHistLoop_hit fs2 id (f + 1) _ _ _ hhit, hate]
  obtain ⟨f, hf⟩ : ∃ f, nvsWalkFuel fs2 = f + 2 := ⟨nvsWalkFuel fs2 - 2, by omega⟩
  have hlen0 : (nvsEntryAte fs id data.length).len ≠ 0 := by
    intro h
    rw [h] at hlenE
    exact absurd hlenE.symm (by simpa using hpos.ne')
  have hid : (nvsEntryAte fs id data.length).id = id := rfl
  unfold nvsReadHistFrom
  rw [hf, hloop]
  dsimp only
  rw [if_neg (by simp [hid, hlen0]), hrdAddr, hlenE, nvsDataCrcSize, Nat.sub_zero,
    hdata _ (Nat.min_le_right _ _), ← List.take_eq_take_min]

include hw hk hsector hlen hsame hroom in
-- nvs_write of new data where the sector has room for it writes the entry in place: no
-- sector is closed and no garbage collection runs.
theorem nvsWrite_of_room (hready : fs.ready = true) (hcount : 0 < fs.sectorCount) (hpos : 0 < data.length)
    (hsize : nvsAlSize fs data.length ≤ fs.sectorSize - 4 * nvsAlSize fs nvsAteSize)
    (hnew : nvsWriteUnchanged fs data data.length (nvsWriteLatest cfg fs id) = none) :
    nvsWrite cfg fs id (some data) data.length =
      ((data.length : Int), nvsFlashWrtEntry cfg fs id data data.length) := by
  obtain ⟨hS1, -, hL1, -, -⟩ := nvsAlSize_bounds hw hk hsector hlen
  obtain ⟨-, hoff⟩ := room_sector hsame hroom
  have h8 : nvsAteSize = 8 := rfl
  have hlenC : (nvsDataLenWithCrc data.length).toNat = data.length := toNat_nvsDataLenWithCrc hpos (by omega)
  have hreq : (nvsAlSize fs data.length + nvsAlSize fs nvsAteSize).toUInt16.toNat =
      nvsAlSize fs data.length + nvsAlSize fs nvsAteSize := by
    rw [UInt16.toNat_ofNat']
    exact Nat.mod_eq_of_lt (by omega)
  have hoffA : fs.ateWra &&& addrOffsMask ≠ 0 := by
    intro h
    have h' := congrArg UInt32.toNat h
    rw [toNat_and_addrOffsMask, UInt32.toNat_zero] at h'
    omega
  have hDS : nvsAlSize fs data.length ≠ 0 := by omega
  have hcnt : (0 : Nat) ≠ fs.sectorCount := by omega
  rw [nvsWrite, if_neg (by simp [hready])]
  dsimp only
  rw [hlenC, if_neg (by simp only [reduceCtorEq, and_false, or_false]; omega)]
  simp only [Option.getD_some, List.take_length, hnew]
  rw [if_pos hDS, hreq, nvsWriteLoop, if_neg hcnt, if_pos ⟨by omega, hoffA⟩]

include hw hk hsector hlen hsame hslot hroom in
-- Under a mounted file system's layout (data_wra and ate_wra in one sector with room between
-- them, the slot below ate_wra erased), nvs_write of new data returns its length and
-- nvs_read of the same id then returns that length and the data, with or without the
-- lookup cache.
theorem nvs_write_then_read (hready : fs.ready = true) (hcount : 0 < fs.sectorCount)
    (hpos : 0 < data.length) (hsize : nvsAlSize fs data.length ≤ fs.sectorSize - 4 * nvsAlSize fs nvsAteSize)
    (hnew : nvsWriteUnchanged fs data data.length (nvsWriteLatest cfg fs id) = none) (hid : id ≠ 0xFFFF)
    (hblank : nvsFlashRd fs (fs.ateWra - (nvsAlSize fs nvsAteSize).toUInt32) nvsAteSize =
      List.replicate nvsAteSize 0xff)
    (len : Nat) (hrd : len ≤ fs.sectorSize - 2 * nvsAlSize fs nvsAteSize) :
    (nvsWrite cfg fs id (some data) data.length).1 = data.length ∧
      nvsRead cfg (nvsWrite cfg fs id (some data) data.length).2 id len = ((data.length : Int), data.take len) := by
  rw [nvsWrite_of_room hw hk hsector hlen hsame hroom hready hcount hpos hsize hnew]
  refine ⟨rfl, ?_⟩
  obtain ⟨hrdy, hsec, -, hfp, hwra, hcache⟩ := @nvsFlashWrtEntry_fields cfg fs id data k hw hk hsector hlen
  have hread := @nvsReadHistFrom_written cfg fs id data k hw hk hsector hlen hsame hslot hroom hcount hpos hblank len
  have hnoaddr : fs.ateWra ≠ nvsLookupCacheNoAddr := by
    intro h
    have h' := congrArg (fun a => (a &&& addrOffsMask).toNat) h
    simp only [nvsLookupCacheNoAddr] at h'
    have h16 : ((0xFFFFFFFF : UInt32) &&& addrOffsMask).toNat = 65535 := by decide
    have hmax : nvsMaxSectorSize = 65536 := rfl
    have h8 : nvsAteSize = 8 := rfl
    obtain ⟨hS1, -, -, -, -⟩ := nvsAlSize_bounds hw hk hsector hlen
    omega
  rw [nvsRead, nvsReadHist, if_neg (by simp [hrdy, hready]), if_neg (by rw [hsec, nvsAlSize_congr hfp]; omega)]
  split
  · next hc =>
    dsimp only
    rw [hcache hc hid, if_neg hnoaddr]
    exact hread (.inr rfl)
  · rw [hwra]
    exact hread (.inl rfl)

end RoundTrip

-- Two bytes under id 1 on two erased sectors of 64 bytes, mounted with the lookup cache.
theorem nvs_write_then_read_mounted :
    let cfg : NvsConfig := ⟨true, 128, false, false⟩
    let fs := (nvsMount cfg ⟨0, 0, 0, 64, 2, false, ⟨1, 0xff⟩, 64, fun _ => 0xff, fun _ => 0⟩).2
    (nvsWrite cfg fs 1 (some [0x41, 0x42]) 2).1 = 2 ∧
      nvsRead cfg (nvsWrite cfg fs 1 (some [0x41, 0x42]) 2).2 1 2 = (2, [0x41, 0x42]) := by
  intro cfg fs
  exact @nvs_write_then_read cfg fs 1 [0x41, 0x42] 0 (by decide) (by decide) (by decide)
    (by decide) (by decide) (by decide) (by decide) (by decide)
    (by decide) (by decide) (by decide) (by decide) (by decide) (by decide) 2
    (by decide)

end Zephyr.Nvs
