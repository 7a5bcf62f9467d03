import Zephyr.Nvs.Walk

namespace Zephyr.Nvs

/-! Writing entries, closing sectors and garbage collection -/

def nvsFlashWrtEntry (cfg : NvsConfig) (fs : NvsFs) (id : UInt16) (data : List UInt8) (len : Nat) : NvsFs :=
  let offset := (fs.dataWra &&& addrOffsMask).toUInt16
  let entryLen := nvsDataLenWithCrc len
  let fs := nvsFlashDataWrt fs data
  nvsFlashAteWrt cfg fs (nvsAteCrc8Update ⟨id, offset, entryLen, 0xff, 0⟩)

def nvsSectorClose (cfg : NvsConfig) (fs : NvsFs) : NvsFs :=
  let ateSize := nvsAlSize fs nvsAteSize
  let closeAte : NvsAte := ⟨0xFFFF, ((fs.ateWra + ateSize.toUInt32) &&& addrOffsMask).toUInt16, 0, 0xff, 0⟩
  let fs := { fs with ateWra := (fs.ateWra &&& addrSectMask) + (fs.sectorSize - ateSize).toUInt32 }
  let fs := nvsFlashAteWrt cfg fs (nvsAteCrc8Update closeAte)
  let ateWra := nvsSectorAdvance fs fs.ateWra
  { fs with ateWra, dataWra := ateWra &&& addrSectMask }

def nvsAddGcDoneAte (cfg : NvsConfig) (fs : NvsFs) : NvsFs :=
  nvsFlashAteWrt cfg fs (nvsAteCrc8Update ⟨0xffff, (fs.dataWra &&& addrOffsMask).toUInt16, 0, 0xff, 0⟩)

-- struct nvs_gc_write_entry without is_written, which nvs_gc returns.
structure NvsGcWriteEntry where
  id : UInt16
  data : List UInt8
  len : UInt16

-- The loop of nvs_flash_block_move over the whole write blocks, with the bytes buffered
-- from the move before.
def nvsFlashBlockMoveLoop (blockSize : Nat) : Nat → UInt32 → Nat → List UInt8 → NvsFs → NvsFs × UInt32 × List UInt8
  | 0, addr, _, buf, fs => (fs, addr, buf)
  | fuel + 1, addr, len, buf, fs =>
    if len = 0 then (fs, addr, buf)
    else
      let bytesToCopy := min blockSize len - buf.length
      let data := buf ++ nvsFlashRd fs addr bytesToCopy
      let fs := nvsFlashDataWrt fs data
      nvsFlashBlockMoveLoop blockSize fuel (addr + bytesToCopy.toUInt32) (len - (bytesToCopy + buf.length)) [] fs

-- The move of one entry's data: the whole blocks are written, the tail is kept in the
-- buffer, and the entry gets its new offset.
def nvsFlashBlockMove (fs : NvsFs) (addr : UInt32) (buf : List UInt8) (gcAte : NvsAte) :
    NvsFs × List UInt8 × NvsAte :=
  let wbs := fs.flashParameters.writeBlockSize
  let len := gcAte.len.toNat + buf.length
  let tailLen := len &&& (wbs - 1)
  let blockSize := andNot nvsBlockSize (wbs - 1)
  let len := len - tailLen
  let gcAte := { gcAte with offset := ((fs.dataWra + buf.length.toUInt32) &&& addrOffsMask).toUInt16 }
  let (fs, addr, buf) := nvsFlashBlockMoveLoop blockSize (len + 1) addr len buf fs
  if tailLen ≠ 0 then (fs, buf ++ nvsFlashRd fs addr (tailLen - buf.length), gcAte) else (fs, buf, gcAte)

-- The pending write of nvs_write goes in with the buffered tail if it fits; otherwise only
-- the tail is flushed. The flag is is_written.
def nvsGcFlushAndTryWrite (cfg : NvsConfig) (fs : NvsFs) (buf : List UInt8) (entry : Option NvsGcWriteEntry) :
    NvsFs × Bool :=
  let ateSize := nvsAlSize fs nvsAteSize
  let flush := if 0 < buf.length then nvsFlashDataAlWrt fs buf [] else fs
  match entry with
  | none => (flush, false)
  | some e =>
    let requiredSpace := ateSize + nvsAlSize fs (buf.length + (nvsDataLenWithCrc e.len.toNat).toNat)
    if fs.ateWra.toNat < fs.dataWra.toNat + requiredSpace then (flush, false)
    else
      let offset := ((fs.dataWra + buf.length.toUInt32) &&& addrOffsMask).toUInt16
      let fs := nvsFlashDataAlWrt fs buf e.data
      (nvsFlashAteWrt cfg fs (nvsAteCrc8Update ⟨e.id, offset, nvsDataLenWithCrc e.len.toNat, 0xff, 0⟩), true)

-- The walk of nvs_gc for the latest entry with the id starts at its cache slot, or at
-- ate_wra when the slot is empty or there is no cache.
def nvsGcWalkStart (cfg : NvsConfig) (fs : NvsFs) (id : UInt16) : UInt32 :=
  if cfg.lookupCache then
    let wlkAddr := fs.lookupCache (nvsLookupCachePos cfg id)
    if wlkAddr = nvsLookupCacheNoAddr then fs.ateWra else wlkAddr
  else fs.ateWra

-- The do-while of nvs_gc over the entries of the sector being collected, from its newest
-- entry down to stop_addr; buf is the block move buffer. A valid entry is moved if the walk
-- finds it is the latest with its id, unless it is a deletion or the pending write replaces it.
def nvsGcLoop (cfg : NvsConfig) (entry : Option NvsGcWriteEntry) (stopAddr : UInt32) :
    Nat → UInt32 → List UInt8 → NvsFs → List UInt8 × NvsFs
  | 0, _, buf, fs => (buf, fs)
  | fuel + 1, gcAddr, buf, fs =>
    let gcPrevAddr := gcAddr
    let p := nvsPrevAte fs gcAddr
    let gcAte := p.2
    let (buf, fs) :=
      if !nvsAteValid gcPrevAddr.toUInt16 gcAte then (buf, fs)
      else
        let wlkPrevAddr := (nvsFindLatest fs gcAte.id (nvsWalkFuel fs) (nvsGcWalkStart cfg fs gcAte.id)
          (nvsGcWalkStart cfg fs gcAte.id) gcAte).2.1
        if wlkPrevAddr = gcPrevAddr ∧ gcAte.len ≠ 0 then
          let skip : Bool := match entry with
            | some e => decide (e.id = gcAte.id ∧ nvsDataLenWithCrc e.len.toNat ≤ gcAte.len)
            | none => false
          if skip then (buf, fs)
          else
            let dataAddr := (gcPrevAddr &&& addrSectMask) + gcAte.offset.toUInt32
            let (fs, buf, gcAte) := nvsFlashBlockMove fs dataAddr buf gcAte
            (buf, nvsFlashAteWrt cfg fs (nvsAteCrc8Update gcAte))
        else (buf, fs)
    if gcPrevAddr = stopAddr then (buf, fs)
    else nvsGcLoop cfg entry stopAddr fuel p.1 buf fs

-- nvs_gc: ate_wra is in the sector just opened, and the sector after it is collected into
-- it, then erased. The flag is is_written of the pending write.
def nvsGc (cfg : NvsConfig) (fs : NvsFs) (entry : Option NvsGcWriteEntry) : Int × NvsFs × Bool :=
  let ateSize := nvsAlSize fs nvsAteSize
  let secAddr := nvsSectorAdvance fs (fs.ateWra &&& addrSectMask)
  let gcAddr := secAddr + (fs.sectorSize - ateSize).toUInt32
  let closeAte := nvsFlashAteRd fs gcAddr
  let (fs, isWritten) :=
    -- an open sector is not collected
    if nvsAteCmpConst closeAte fs.flashParameters.eraseValue = 0 then (fs, false)
    else
      let stopAddr := gcAddr - ateSize.toUInt32
      let gcAddr := if nvsCloseAteValid fs closeAte then (gcAddr &&& addrSectMask) + closeAte.offset.toUInt32
        else nvsRecoverLastAte fs gcAddr
      let (buf, fs) := nvsGcLoop cfg entry stopAddr (nvsWalkFuel fs) gcAddr [] fs
      nvsGcFlushAndTryWrite cfg fs buf entry
  let fs := if fs.ateWra.toNat ≥ fs.dataWra.toNat + ateSize then nvsAddGcDoneAte cfg fs else fs
  let (rc, fs) := nvsFlashEraseSector cfg fs secAddr
  (rc, fs, isWritten)

end Zephyr.Nvs
