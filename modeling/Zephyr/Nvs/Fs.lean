import Zephyr.Nvs.Gc

namespace Zephyr.Nvs

open Zephyr.Lib

/-! nvs_startup and nvs_mount -/

-- The for loop of nvs_startup that looks for an open sector after a closed one; it gives
-- i, addr and closed_sectors as the loop leaves them.
def nvsStartupScan (fs : NvsFs) (ateSize : Nat) : Nat → Nat → UInt32 → Nat → Nat × UInt32 × Nat
  | 0, i, addr, closedSectors => (i, addr, closedSectors)
  | fuel + 1, i, addr, closedSectors =>
    if i < fs.sectorCount then
      let addr := (i.toUInt32 <<< addrSectShift) + (fs.sectorSize - ateSize).toUInt16.toUInt32
      if nvsFlashCmpConst fs addr fs.flashParameters.eraseValue nvsAteSize ≠ 0 then
        let addr := nvsSectorAdvance fs addr
        if nvsFlashCmpConst fs addr fs.flashParameters.eraseValue nvsAteSize = 0 then
          (i, addr, closedSectors + 1)
        else nvsStartupScan fs ateSize fuel (i + 1) addr (closedSectors + 1)
      else nvsStartupScan fs ateSize fuel (i + 1) addr closedSectors
    else (i, addr, closedSectors)

-- The loop of nvs_startup that steps ate_wra down to the first erased entry, moving
-- data_wra past the data of each valid entry; a data entry where its own data ends is
-- -ESPIPE.
def nvsStartupAteLoop (addr : UInt32) (ateSize : Nat) : Nat → NvsFs → Int × NvsFs
  | 0, fs => (0, fs)
  | fuel + 1, fs =>
    if fs.ateWra ≥ fs.dataWra then
      let lastAte := nvsFlashAteRd fs fs.ateWra
      if nvsAteCmpConst lastAte fs.flashParameters.eraseValue = 0 then (0, fs)
      else if nvsAteValid fs.ateWra.toUInt16 lastAte then
        let dataWra := (addr &&& addrSectMask) + (nvsAlSize fs (lastAte.offset.toNat + lastAte.len.toNat)).toUInt32
        if fs.ateWra = dataWra ∧ lastAte.len ≠ 0 then (-eSpipe, { fs with dataWra })
        else nvsStartupAteLoop addr ateSize fuel { fs with dataWra, ateWra := fs.ateWra - ateSize.toUInt32 }
      else nvsStartupAteLoop addr ateSize fuel { fs with ateWra := fs.ateWra - ateSize.toUInt32 }
    else (0, fs)

-- The search of nvs_startup for a gc done ATE above ate_wra.
def nvsStartupGcDoneMarker (fs : NvsFs) (ateSize : Nat) : Nat → UInt32 → Bool
  | 0, _ => false
  | fuel + 1, addr =>
    if (addr &&& addrOffsMask).toNat < fs.sectorSize - ateSize then
      let gcDoneAte := nvsFlashAteRd fs addr
      if nvsAteValid addr.toUInt16 gcDoneAte ∧ gcDoneAte.id = 0xffff ∧ gcDoneAte.len = 0 then true
      else nvsStartupGcDoneMarker fs ateSize fuel (addr + ateSize.toUInt32)
    else false

-- The loop of nvs_startup that moves data_wra past data written after the last entry.
def nvsStartupDataLoop : Nat → NvsFs → NvsFs
  | 0, fs => fs
  | fuel + 1, fs =>
    if fs.ateWra > fs.dataWra then
      let emptyLen := (fs.ateWra - fs.dataWra).toNat
      if nvsFlashCmpConst fs fs.dataWra fs.flashParameters.eraseValue emptyLen = 0 then fs
      else nvsStartupDataLoop fuel { fs with dataWra := fs.dataWra + fs.flashParameters.writeBlockSize.toUInt32 }
    else fs

-- nvs_startup once ate_wra and data_wra are found: a gc that was cut short is finished
-- (its marker found) or redone, otherwise data_wra is moved past unlisted data.
def nvsStartupResume (cfg : NvsConfig) (fs : NvsFs) : Int × NvsFs :=
  let ateSize := nvsAlSize fs nvsAteSize
  let addr := nvsSectorAdvance fs (fs.ateWra &&& addrSectMask)
  if nvsFlashCmpConst fs addr fs.flashParameters.eraseValue fs.sectorSize ≠ 0 then
    if nvsStartupGcDoneMarker fs ateSize (fs.sectorSize + 1) (fs.ateWra + ateSize.toUInt32) then
      nvsFlashEraseSector cfg fs addr
    else
      let (rc, fs) := nvsFlashEraseSector cfg fs fs.ateWra
      if rc ≠ 0 then (rc, fs)
      else
        let ateWra := (fs.ateWra &&& addrSectMask) + (fs.sectorSize - 2 * ateSize).toUInt32
        let fs := { fs with ateWra, dataWra := ateWra &&& addrSectMask }
        -- every slot holds ate_wra until the rebuild after the gc
        let fs := if cfg.lookupCache then
            { fs with lookupCache := fun i => if i < cfg.lookupCacheSize then fs.ateWra else fs.lookupCache i }
          else fs
        let (rc, fs, _) := nvsGc cfg fs none
        (rc, fs)
  else
    let fs := nvsStartupDataLoop (fs.sectorSize + 1) fs
    if fs.ateWra.toNat + 2 * ateSize = fs.sectorSize ∧ fs.dataWra ≠ fs.ateWra &&& addrSectMask then
      let (rc, fs) := nvsFlashEraseSector cfg fs fs.ateWra
      if rc ≠ 0 then (rc, fs) else (0, { fs with dataWra := fs.ateWra &&& addrSectMask })
    else (0, fs)

-- The code of nvs_startup after its end label.
def nvsStartupEnd (cfg : NvsConfig) (rc : Int) (fs : NvsFs) : Int × NvsFs :=
  let ateSize := nvsAlSize fs nvsAteSize
  let fs := if cfg.lookupCache ∧ rc = 0 then nvsLookupCacheRebuild cfg fs else fs
  if rc = 0 ∧ (fs.ateWra &&& addrOffsMask).toNat = fs.sectorSize - 2 * ateSize then (0, nvsAddGcDoneAte cfg fs)
  else (rc, fs)

def nvsStartup (cfg : NvsConfig) (fs : NvsFs) : Int × NvsFs :=
  let ateSize := nvsAlSize fs nvsAteSize
  let (i, addr, closedSectors) := nvsStartupScan fs ateSize (fs.sectorCount + 1) 0 0 0
  -- all sectors are closed: not an nvs file system, or one corrupted beyond repair
  if closedSectors = fs.sectorCount ∧ !cfg.initBadMemoryRegion then (-eDeadlk, fs)
  else
    let (fs, i, addr) := if closedSectors = fs.sectorCount then
        (flashFlatten fs fs.offset (fs.sectorSize * fs.sectorCount), fs.sectorCount,
          ((fs.sectorCount - 1).toUInt32 <<< addrSectShift) + (fs.sectorSize - ateSize).toUInt16.toUInt32)
      else (fs, i, addr)
    -- no sector is closed: start in the first one unless the last one holds entries
    let addr := if i = fs.sectorCount ∧
        nvsFlashCmpConst fs (addr - ateSize.toUInt32) fs.flashParameters.eraseValue nvsAteSize = 0
      then nvsSectorAdvance fs addr else addr
    let addr := nvsRecoverLastAte fs addr
    let fs := { fs with ateWra := addr, dataWra := addr &&& addrSectMask }
    let (rc, fs) := nvsStartupAteLoop addr ateSize ((addr &&& addrOffsMask).toNat + 2) fs
    if rc ≠ 0 then (rc, fs)
    else
      let (rc, fs) := nvsStartupResume cfg fs
      nvsStartupEnd cfg rc fs

def nvsMount (cfg : NvsConfig) (fs : NvsFs) : Int × NvsFs :=
  let writeBlockSize := fs.flashParameters.writeBlockSize
  if writeBlockSize > nvsBlockSize ∨ writeBlockSize = 0 then (-eInval, fs)
  else if fs.sectorSize > nvsMaxSectorSize then (-eInval, fs)
  else if fs.sectorSize = 0 ∨ fs.sectorSize % fs.pageSize ≠ 0 then (-eInval, fs)
  else if fs.sectorCount < 2 then (-eInval, fs)
  else
    let (rc, fs) := nvsStartup cfg fs
    if rc ≠ 0 then (rc, fs) else (0, { fs with ready := true })

/-! nvs_write, nvs_delete, nvs_read_hist and nvs_read -/

-- The search of nvs_write for the latest entry with the id: whether it was found, the
-- address it was read at and the entry. With the cache an empty slot skips the walk.
def nvsWriteLatest (cfg : NvsConfig) (fs : NvsFs) (id : UInt16) : Bool × UInt32 × NvsAte :=
  let wlkAddr := if cfg.lookupCache then fs.lookupCache (nvsLookupCachePos cfg id) else fs.ateWra
  if cfg.lookupCache ∧ wlkAddr = nvsLookupCacheNoAddr then (false, wlkAddr, ⟨0, 0, 0, 0, 0⟩)
  else nvsFindLatest fs id (nvsWalkFuel fs) wlkAddr wlkAddr ⟨0, 0, 0, 0, 0⟩

-- The return code of nvs_write when it writes nothing: a deletion of an entry that is
-- deleted or was never written, or data equal to the latest entry's.
def nvsWriteUnchanged (fs : NvsFs) (data : List UInt8) (len : Nat) (latest : Bool × UInt32 × NvsAte) :
    Option Int :=
  let (prevFound, rdAddr, wlkAte) := latest
  if prevFound then
    let rdAddr := (rdAddr &&& addrSectMask) + wlkAte.offset.toUInt32
    if len = 0 then (if wlkAte.len = 0 then some 0 else none)
    else if len + nvsDataCrcSize = wlkAte.len.toNat then
      let rc := nvsFlashBlockCmp fs rdAddr data len
      if rc ≤ 0 then some rc else none
    else none
  else if len = 0 then some 0 else none

-- The loop of nvs_write: the entry is written where it fits; otherwise the sector is closed
-- and the next one collected, which may write the entry itself, at most once per sector.
def nvsWriteLoop (cfg : NvsConfig) (id : UInt16) (data : List UInt8) (len requiredSpace : Nat) :
    Nat → Nat → NvsFs → Int × NvsFs
  | 0, _, fs => (-eNoSpc, fs)
  | fuel + 1, gcCount, fs =>
    if gcCount = fs.sectorCount then (-eNoSpc, fs)
    else if fs.ateWra.toNat ≥ fs.dataWra.toNat + requiredSpace ∧ fs.ateWra &&& addrOffsMask ≠ 0 then
      (len, nvsFlashWrtEntry cfg fs id data len)
    else
      let fs := nvsSectorClose cfg fs
      let (rc, fs, isWritten) := nvsGc cfg fs (some ⟨id, data, len.toUInt16⟩)
      if rc ≠ 0 then (rc, fs)
      else if isWritten then (len, fs)
      else nvsWriteLoop cfg id data len requiredSpace fuel (gcCount + 1) fs

-- data is the caller's buffer, none for NULL, of which len bytes are written.
def nvsWrite (cfg : NvsConfig) (fs : NvsFs) (id : UInt16) (data : Option (List UInt8)) (len : Nat) :
    Int × NvsFs :=
  if !fs.ready then (-eAcces, fs)
  else
    let ateSize := nvsAlSize fs nvsAteSize
    let dataSize := nvsAlSize fs (nvsDataLenWithCrc len).toNat
    if dataSize > fs.sectorSize - 4 * ateSize ∨ (len > 0 ∧ data = none) then (-eInval, fs)
    else
      let bytes := (data.getD []).take len
      match nvsWriteUnchanged fs bytes len (nvsWriteLatest cfg fs id) with
      | some rc => (rc, fs)
      | none =>
        let requiredSpace := if dataSize ≠ 0 then (dataSize + ateSize).toUInt16.toNat else 0
        nvsWriteLoop cfg id bytes len requiredSpace (fs.sectorCount + 1) 0 fs

def nvsDelete (cfg : NvsConfig) (fs : NvsFs) (id : UInt16) : Int × NvsFs :=
  nvsWrite cfg fs id none 0

-- nvs_read_hist from the first address of its walk: the return code and the bytes read.
def nvsReadHistFrom (fs : NvsFs) (id : UInt16) (len : Nat) (cnt : UInt16) (wlkAddr : UInt32) :
    Int × List UInt8 :=
  let (wlkAddr, rdAddr, wlkAte, cntHis) :=
    nvsReadHistLoop fs id cnt (nvsWalkFuel fs) wlkAddr wlkAddr ⟨0, 0, 0, 0, 0⟩ 0
  if (wlkAddr = fs.ateWra ∧ wlkAte.id ≠ id) ∨ wlkAte.len = 0 ∨ cntHis < cnt then (-eNoEnt, [])
  else
    let rdAddr := (rdAddr &&& addrSectMask) + wlkAte.offset.toUInt32
    (((wlkAte.len.toNat - nvsDataCrcSize : Nat) : Int),
      nvsFlashRd fs rdAddr (min len (wlkAte.len.toNat - nvsDataCrcSize)))

def nvsReadHist (cfg : NvsConfig) (fs : NvsFs) (id : UInt16) (len : Nat) (cnt : UInt16) : Int × List UInt8 :=
  if !fs.ready then (-eAcces, [])
  else if len > fs.sectorSize - 2 * nvsAlSize fs nvsAteSize then (-eInval, [])
  else if cfg.lookupCache then
    let wlkAddr := fs.lookupCache (nvsLookupCachePos cfg id)
    if wlkAddr = nvsLookupCacheNoAddr then (-eNoEnt, []) else nvsReadHistFrom fs id len cnt wlkAddr
  else nvsReadHistFrom fs id len cnt fs.ateWra

def nvsRead (cfg : NvsConfig) (fs : NvsFs) (id : UInt16) (len : Nat) : Int × List UInt8 :=
  nvsReadHist cfg fs id len 0

/-! The lookup cache stands for the walk from ate_wra -/

section Transparency

variable (cfg : NvsConfig) (fs : NvsFs) (id : UInt16)

-- An entry that nvs_read_hist and nvs_write look for is one the cache keeps for the id's slot.
theorem slotMatch_of_idHit (hid : id ≠ 0xFFFF) {a : UInt32} (h : idHit fs id a = true) :
    slotMatch cfg fs (nvsLookupCachePos cfg id) a = true := by
  simp only [idHit, Bool.and_eq_true, decide_eq_true_eq] at h
  simp [slotMatch, h.1, h.2, hid]

-- No walk position hits the id when its slot has nothing.
theorem idHit_of_find?_eq_none (hid : id ≠ 0xFFFF)
    (hf : (nvsWalk fs).find? (slotMatch cfg fs (nvsLookupCachePos cfg id)) = none) :
    ∀ a ∈ nvsWalk fs, idHit fs id a = false := by
  intro a ha
  cases hh : idHit fs id a
  · rfl
  · exact absurd (slotMatch_of_idHit cfg fs id hid hh) (List.find?_eq_none.mp hf a ha)

-- The slot's address is a position of the walk that no hit of the id comes before.
theorem iterate_of_find?_eq_some (hid : id ≠ 0xFFFF) {a : UInt32}
    (hf : (nvsWalk fs).find? (slotMatch cfg fs (nvsLookupCachePos cfg id)) = some a) :
    ∃ k < (nvsWalk fs).length, a = (nvsNext fs)^[k] fs.ateWra ∧
      ∀ j < k, idHit fs id ((nvsNext fs)^[j] fs.ateWra) = false := by
  obtain ⟨-, k, hk, hka, hbefore⟩ := List.find?_eq_some_iff_getElem.mp hf
  have hpos : ∀ j (hj : j < (nvsWalk fs).length), (nvsWalk fs)[j] = (nvsNext fs)^[j] fs.ateWra :=
    fun j hj => getElem_walk (nvsNext fs) fs.ateWra hj
  refine ⟨k, hk, by rw [← hka, hpos], fun j hj => ?_⟩
  have hj' := hbefore j hj
  rw [hpos] at hj'
  cases hh : idHit fs id ((nvsNext fs)^[j] fs.ateWra)
  · rfl
  · simp [slotMatch_of_idHit cfg fs id hid hh] at hj'

variable (hsize : 0 < cfg.lookupCacheSize) (hinv : CacheInv cfg fs) (hid : id ≠ 0xFFFF)
  (hends : walkEnds (nvsNext fs) fs.ateWra (nvsWalkFuel fs) fs.ateWra = true)
  (haddr : ∀ a ∈ nvsWalk fs, a ≠ nvsLookupCacheNoAddr)

include hsize hinv hid hends haddr

-- With the invariant, nvs_read_hist from the id's slot answers what it answers from ate_wra,
-- given that no entry of the walk that carries the id is invalid.
theorem nvsReadHistFrom_lookupCache (len : Nat) (cnt : UInt16)
    (hclean : ∀ a ∈ nvsWalk fs, (nvsFlashAteRd fs a).id = id → nvsAteValid a.toUInt16 (nvsFlashAteRd fs a) = true) :
    (if fs.lookupCache (nvsLookupCachePos cfg id) = nvsLookupCacheNoAddr then ((-eNoEnt, []) : Int × List UInt8)
      else nvsReadHistFrom fs id len cnt (fs.lookupCache (nvsLookupCachePos cfg id))) =
      nvsReadHistFrom fs id len cnt fs.ateWra := by
  obtain ⟨F, hF⟩ : ∃ F, nvsWalkFuel fs = F + 1 := by
    cases h : nvsWalkFuel fs with
    | zero => rw [h] at hends; simp [walkEnds] at hends
    | succ F => exact ⟨F, rfl⟩
  have hc : (0 : UInt16) ≤ cnt := UInt16.zero_le
  have hfull : decide (cnt < (0 : UInt16)) = false := by simp
  rw [hinv _ (nvsLookupCachePos_lt cfg id hsize), cacheSlot]
  cases hf : (nvsWalk fs).find? (slotMatch cfg fs (nvsLookupCachePos cfg id)) with
  | none =>
    have hno := idHit_of_find?_eq_none cfg fs id hid hf
    obtain ⟨h1, h2, h3⟩ := countWalk_of_no_hit (nvsNext fs) fs.ateWra (idHit fs id) (· + 1)
      (fun c => decide (cnt < c)) hfull hends hno fs.ateWra
    have hlast : (nvsFlashAteRd fs (countWalk (nvsNext fs) fs.ateWra (idHit fs id) (· + 1)
        (fun c => decide (cnt < c)) (nvsWalkFuel fs) fs.ateWra fs.ateWra 0).2.1).id ≠ id := by
      intro he
      have hv := hclean _ h2 he
      have := hno _ h2
      simp [idHit, he, hv] at this
    simp only [Option.getD_none, if_true, nvsReadHistFrom]
    rw [hF, nvsReadHistLoop_eq fs id cnt F _ _ _ 0 hc]
    rw [hF] at hlast h1
    simp [h1, hlast]
  | some a =>
    obtain ⟨k, hk, rfl, hbefore⟩ := iterate_of_find?_eq_some cfg fs id hid hf
    have ha := haddr _ (List.mem_of_find?_eq_some hf)
    simp only [Option.getD_some, ha, if_false, nvsReadHistFrom]
    rw [hF, nvsReadHistLoop_eq fs id cnt F _ _ _ 0 hc, nvsReadHistLoop_eq fs id cnt F _ _ _ 0 hc, ← hF,
      countWalk_eq_of_lt_length (nvsNext fs) fs.ateWra (idHit fs id) (· + 1) (fun c => decide (cnt < c))
        hfull hends hk hbefore fs.ateWra ((nvsNext fs)^[k] fs.ateWra)]

-- nvs_read_hist with the cache answers as without it, for every id but 0xFFFF, in a state
-- where the cache invariant holds.
theorem nvsReadHist_lookupCache (len : Nat) (cnt : UInt16) (hcache : cfg.lookupCache = true)
    (hclean : ∀ a ∈ nvsWalk fs, (nvsFlashAteRd fs a).id = id → nvsAteValid a.toUInt16 (nvsFlashAteRd fs a) = true) :
    nvsReadHist cfg fs id len cnt = nvsReadHist { cfg with lookupCache := false } fs id len cnt := by
  unfold nvsReadHist
  simp only [hcache, if_true, Bool.false_eq_true, if_false]
  rw [nvsReadHistFrom_lookupCache cfg fs id hsize hinv hid hends haddr len cnt hclean]

-- nvs_write decides the same with the cache as without it whether its data is already the
-- latest, for every id but 0xFFFF, in a state where the cache invariant holds.
theorem nvsWriteUnchanged_lookupCache (data : List UInt8) (len : Nat) (hcache : cfg.lookupCache = true) :
    nvsWriteUnchanged fs data len (nvsWriteLatest cfg fs id) =
      nvsWriteUnchanged fs data len (nvsWriteLatest { cfg with lookupCache := false } fs id) := by
  obtain ⟨F, hF⟩ : ∃ F, nvsWalkFuel fs = F + 1 := by
    cases h : nvsWalkFuel fs with
    | zero => rw [h] at hends; simp [walkEnds] at hends
    | succ F => exact ⟨F, rfl⟩
  unfold nvsWriteLatest
  simp only [hcache, if_true, Bool.false_eq_true, if_false, false_and]
  rw [hinv _ (nvsLookupCachePos_lt cfg id hsize), cacheSlot]
  cases hf : (nvsWalk fs).find? (slotMatch cfg fs (nvsLookupCachePos cfg id)) with
  | none =>
    have hno := idHit_of_find?_eq_none cfg fs id hid hf
    obtain ⟨-, -, h3⟩ := @countWalk_of_no_hit UInt32 Bool _ (nvsNext fs) fs.ateWra (idHit fs id)
      (fun _ => true) (fun b => b) _ fs.ateWra false rfl hends hno fs.ateWra
    simp only [Option.getD_none, and_self, if_true]
    rw [hF, nvsFindLatest_eq]
    rw [hF] at h3
    simp [nvsWriteUnchanged, h3]
  | some a =>
    obtain ⟨k, hk, rfl, hbefore⟩ := iterate_of_find?_eq_some cfg fs id hid hf
    have ha := haddr _ (List.mem_of_find?_eq_some hf)
    simp only [Option.getD_some, ha, and_false, if_false]
    rw [hF, nvsFindLatest_eq, nvsFindLatest_eq, ← hF,
      @countWalk_eq_of_lt_length UInt32 Bool _ (nvsNext fs) fs.ateWra (idHit fs id) (fun _ => true)
        (fun b => b) _ k fs.ateWra false rfl hends hk hbefore fs.ateWra ((nvsNext fs)^[k] fs.ateWra)]

end Transparency

end Zephyr.Nvs
