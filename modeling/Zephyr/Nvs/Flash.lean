import Mathlib
import Zephyr.Lib.Bytes

namespace Zephyr.Nvs

open Zephyr.Lib

def eNoEnt : Int := 2
def eNxio : Int := 6
def eAcces : Int := 13
def eInval : Int := 22
def eNoSpc : Int := 28
def eSpipe : Int := 29
def eDeadlk : Int := 45

/-! Constants of nvs_priv.h. An address is a uint32_t whose high half is the sector
and whose low half is the offset in the sector. -/

def addrSectMask : UInt32 := 0xFFFF0000
def addrSectShift : UInt32 := 16
def addrOffsMask : UInt32 := 0x0000FFFF
def nvsMaxSectorSize : Nat := 65536
def nvsBlockSize : Nat := 32
def nvsLookupCacheNoAddr : UInt32 := 0xFFFFFFFF

-- CONFIG_NVS_DATA_CRC is off, so no CRC-32 follows the data.
def nvsDataCrcSize : Nat := 0

-- sizeof(struct nvs_ate)
def nvsAteSize : Nat := 8

-- x & ~m on the 32-bit size_t of the targets.
def andNot (x m : Nat) : Nat := x &&& (2 ^ 32 - 1 - m)

/-! crc8_ccitt of subsys/crc/crc8_sw.c -/

def crc8CcittSmallTable : List UInt8 :=
  [0x00, 0x07, 0x0e, 0x09, 0x1c, 0x1b, 0x12, 0x15, 0x38, 0x3f, 0x36, 0x31, 0x24, 0x23, 0x2a, 0x2d]

def crc8CcittNibble (val : UInt8) : UInt8 :=
  (val <<< 4) ^^^ crc8CcittSmallTable.getD (val >>> 4).toNat 0

def crc8Ccitt (val : UInt8) : List UInt8 → UInt8
  | [] => val
  | p :: ps => crc8Ccitt (crc8CcittNibble (crc8CcittNibble (val ^^^ p))) ps

/-! The allocation table entry, packed little-endian as the flash holds it -/

structure NvsAte where
  id : UInt16
  offset : UInt16
  len : UInt16
  part : UInt8
  crc8 : UInt8
  deriving DecidableEq, Repr

def u16Bytes (x : UInt16) : List UInt8 := [x.toUInt8, (x >>> 8).toUInt8]

def u16OfBytes (lo hi : UInt8) : UInt16 := lo.toUInt16 + hi.toUInt16 * 256

def NvsAte.toBytes (e : NvsAte) : List UInt8 :=
  u16Bytes e.id ++ u16Bytes e.offset ++ u16Bytes e.len ++ [e.part, e.crc8]

def NvsAte.ofBytes (b : List UInt8) : NvsAte where
  id := u16OfBytes (b.getD 0 0) (b.getD 1 0)
  offset := u16OfBytes (b.getD 2 0) (b.getD 3 0)
  len := u16OfBytes (b.getD 4 0) (b.getD 5 0)
  part := b.getD 6 0
  crc8 := b.getD 7 0

theorem u16OfBytes_u16Bytes (x : UInt16) : u16OfBytes x.toUInt8 (x >>> 8).toUInt8 = x := by
  apply UInt16.toNat_inj.mp
  have hx := x.toNat_lt
  simp only [u16OfBytes, UInt16.toNat_add, UInt16.toNat_mul, UInt8.toNat_toUInt16,
    UInt16.toNat_toUInt8, UInt16.toNat_shiftRight]
  simp
  omega

@[simp] theorem length_toBytes (e : NvsAte) : e.toBytes.length = nvsAteSize := rfl

theorem NvsAte.ofBytes_toBytes (e : NvsAte) : NvsAte.ofBytes e.toBytes = e := by
  cases e
  simp [NvsAte.ofBytes, NvsAte.toBytes, u16Bytes, u16OfBytes_u16Bytes]

-- The CRC covers the bytes before the crc8 field, offsetof(struct nvs_ate, crc8) = 7.
def nvsAteCrc8Update (entry : NvsAte) : NvsAte :=
  { entry with crc8 := crc8Ccitt 0xff (entry.toBytes.take 7) }

def nvsAteCrc8Check (entry : NvsAte) : Int :=
  if crc8Ccitt 0xff (entry.toBytes.take 7) = entry.crc8 then 0 else 1

theorem nvsAteCrc8Check_update (entry : NvsAte) : nvsAteCrc8Check (nvsAteCrc8Update entry) = 0 := by
  simp [nvsAteCrc8Check, nvsAteCrc8Update, NvsAte.toBytes, u16Bytes]

-- 0 when every byte is value, as the loops of nvs_ate_cmp_const and nvs_flash_cmp_const test.
def cmpConst (value : UInt8) : List UInt8 → Int
  | [] => 0
  | b :: bs => if b ≠ value then 1 else cmpConst value bs

def nvsAteCmpConst (entry : NvsAte) (value : UInt8) : Int := cmpConst value entry.toBytes

/-! The file system and the build options -/

-- The options nvs.c is built with.
structure NvsConfig where
  lookupCache : Bool
  lookupCacheSize : Nat
  lookupCacheForSettings : Bool
  initBadMemoryRegion : Bool

structure FlashParameters where
  writeBlockSize : Nat
  eraseValue : UInt8

-- struct nvs_fs. The flash device is its bytes at each flash offset, and pageSize is
-- the size flash_get_page_info_by_offs gives for the page at offset.
structure NvsFs where
  offset : Nat
  ateWra : UInt32
  dataWra : UInt32
  sectorSize : Nat
  sectorCount : Nat
  ready : Bool
  flashParameters : FlashParameters
  pageSize : Nat
  flash : Nat → UInt8
  lookupCache : Nat → UInt32

def nvsAlSize (fs : NvsFs) (len : Nat) : Nat :=
  let writeBlockSize := fs.flashParameters.writeBlockSize
  if writeBlockSize ≤ 1 then len else andNot (len + (writeBlockSize - 1)) (writeBlockSize - 1)

def nvsDataLenWithCrc (len : Nat) : UInt16 :=
  if len ≠ 0 then (len + nvsDataCrcSize).toUInt16 else 0

/-! The lookup cache -/

-- NVS_NAME_ID_OFFSET of settings_nvs.h, a power of two with LOG2 14.
def nvsNameIdOffset : UInt16 := 0x4000

def nvsLookupCachePos (cfg : NvsConfig) (id : UInt16) : Nat :=
  if cfg.lookupCacheForSettings then
    let keyValueBit := (id >>> 14) &&& 1
    let keyValueOrd := id &&& (nvsNameIdOffset - 1)
    ((keyValueOrd <<< 1) ||| keyValueBit).toNat % cfg.lookupCacheSize
  else
    let hash := id
    let hash := hash ^^^ (hash >>> 8)
    let hash := hash * 0x88b5
    let hash := hash ^^^ (hash >>> 7)
    let hash := hash * 0xdb2d
    let hash := hash ^^^ (hash >>> 9)
    hash.toNat % cfg.lookupCacheSize

theorem nvsLookupCachePos_lt (cfg : NvsConfig) (id : UInt16) (hsize : 0 < cfg.lookupCacheSize) :
    nvsLookupCachePos cfg id < cfg.lookupCacheSize := by
  unfold nvsLookupCachePos
  split_ifs <;> exact Nat.mod_lt _ hsize

def nvsLookupCacheInvalidate (cfg : NvsConfig) (fs : NvsFs) (sector : UInt32) : NvsFs :=
  { fs with lookupCache := fun i =>
      if i < cfg.lookupCacheSize ∧ fs.lookupCache i >>> addrSectShift = sector then nvsLookupCacheNoAddr
      else fs.lookupCache i }

/-! Flash access. The device never fails, so the return codes of the flash driver are 0. -/

def nvsFlashOffset (fs : NvsFs) (addr : UInt32) : Nat :=
  fs.offset + fs.sectorSize * (addr >>> addrSectShift).toNat + (addr &&& addrOffsMask).toNat

def nvsFlashRd (fs : NvsFs) (addr : UInt32) (len : Nat) : List UInt8 :=
  (List.range len).map fun i => fs.flash (nvsFlashOffset fs addr + i)

def nvsFlashAteRd (fs : NvsFs) (addr : UInt32) : NvsAte :=
  NvsAte.ofBytes (nvsFlashRd fs addr nvsAteSize)

def flashWrite (fs : NvsFs) (offset : Nat) (data : List UInt8) : NvsFs :=
  { fs with flash := writeList fs.flash offset data }

def flashFlatten (fs : NvsFs) (offset size : Nat) : NvsFs :=
  { fs with flash := fun i =>
      if offset ≤ i ∧ i < offset + size then fs.flashParameters.eraseValue else fs.flash i }

-- The loop of nvs_flash_al_wrt_streams over the streams left, with the block buffer
-- and the flash offset. Each pass drops a stream or takes at least one byte.
def nvsFlashAlWrtStreamsLoop (wbs : Nat) :
    Nat → List (List UInt8) → List UInt8 → Nat → NvsFs → List UInt8 × Nat × NvsFs
  | 0, _, buf, offset, fs => (buf, offset, fs)
  | _ + 1, [], buf, offset, fs => (buf, offset, fs)
  | fuel + 1, s :: streams, buf, offset, fs =>
    if s.length = 0 then nvsFlashAlWrtStreamsLoop wbs fuel streams buf offset fs
    else
      let fullBytes := andNot s.length (wbs - 1)
      if buf.length = 0 ∧ 0 < fullBytes then
        nvsFlashAlWrtStreamsLoop wbs fuel (s.drop fullBytes :: streams) buf (offset + fullBytes)
          (flashWrite fs offset (s.take fullBytes))
      else
        let copy := min (wbs - buf.length) s.length
        let buf := buf ++ s.take copy
        if buf.length = wbs then
          nvsFlashAlWrtStreamsLoop wbs fuel (s.drop copy :: streams) [] (offset + wbs)
            (flashWrite fs offset buf)
        else nvsFlashAlWrtStreamsLoop wbs fuel (s.drop copy :: streams) buf offset fs

def nvsFlashAlWrtStreams (fs : NvsFs) (addr : UInt32) (head data tail : List UInt8) : NvsFs :=
  let wbs := fs.flashParameters.writeBlockSize
  let total := head.length + data.length + tail.length
  if total = 0 then fs
  else
    let (buf, offset, fs) :=
      nvsFlashAlWrtStreamsLoop wbs (total + 3) [head, data, tail] [] (nvsFlashOffset fs addr) fs
    if 0 < buf.length then
      flashWrite fs offset (buf ++ List.replicate (wbs - buf.length) fs.flashParameters.eraseValue)
    else fs

def nvsFlashAlWrt (fs : NvsFs) (addr : UInt32) (data : List UInt8) : NvsFs :=
  nvsFlashAlWrtStreams fs addr [] data []

def nvsFlashAteWrt (cfg : NvsConfig) (fs : NvsFs) (entry : NvsAte) : NvsFs :=
  let fs := nvsFlashAlWrt fs fs.ateWra entry.toBytes
  -- 0xFFFF is a special-purpose identifier, excluded from the cache
  let fs := if cfg.lookupCache ∧ entry.id ≠ 0xFFFF then
      { fs with lookupCache := Function.update fs.lookupCache (nvsLookupCachePos cfg entry.id) fs.ateWra }
    else fs
  { fs with ateWra := fs.ateWra - (nvsAlSize fs nvsAteSize).toUInt32 }

-- nvs_flash_data_al_wrt with the head and data streams; compute_crc has no effect
-- without CONFIG_NVS_DATA_CRC.
def nvsFlashDataAlWrt (fs : NvsFs) (head data : List UInt8) : NvsFs :=
  let fs := nvsFlashAlWrtStreams fs fs.dataWra head data []
  { fs with dataWra := fs.dataWra + (nvsAlSize fs (head.length + data.length)).toUInt32 }

def nvsFlashDataWrt (fs : NvsFs) (data : List UInt8) : NvsFs :=
  nvsFlashDataAlWrt fs [] data

-- The loops of nvs_flash_block_cmp and nvs_flash_cmp_const: compare block after block
-- with data8, the bytes expected from addr on.
def nvsFlashCmpLoop (fs : NvsFs) (blockSize : Nat) : Nat → UInt32 → List UInt8 → Nat → Int
  | 0, _, _, _ => 0
  | fuel + 1, addr, data8, len =>
    if len = 0 then 0
    else
      let bytesToCmp := min blockSize len
      if nvsFlashRd fs addr bytesToCmp ≠ data8.take bytesToCmp then 1
      else nvsFlashCmpLoop fs blockSize fuel (addr + bytesToCmp.toUInt32) (data8.drop bytesToCmp)
        (len - bytesToCmp)

def nvsFlashBlockCmp (fs : NvsFs) (addr : UInt32) (data : List UInt8) (len : Nat) : Int :=
  nvsFlashCmpLoop fs (andNot nvsBlockSize (fs.flashParameters.writeBlockSize - 1)) (len + 1) addr data len

def nvsFlashCmpConst (fs : NvsFs) (addr : UInt32) (value : UInt8) (len : Nat) : Int :=
  nvsFlashCmpLoop fs (andNot nvsBlockSize (fs.flashParameters.writeBlockSize - 1)) (len + 1) addr
    (List.replicate len value) len

def nvsFlashEraseSector (cfg : NvsConfig) (fs : NvsFs) (addr : UInt32) : Int × NvsFs :=
  let addr := addr &&& addrSectMask
  let offset := fs.offset + fs.sectorSize * (addr >>> addrSectShift).toNat
  let fs := if cfg.lookupCache then nvsLookupCacheInvalidate cfg fs (addr >>> addrSectShift) else fs
  let fs := flashFlatten fs offset fs.sectorSize
  if nvsFlashCmpConst fs addr fs.flashParameters.eraseValue fs.sectorSize ≠ 0 then (-eNxio, fs)
  else (0, fs)

/-! Validity of an entry -/

def nvsAteValid (entryAddr : UInt16) (entry : NvsAte) : Bool :=
  let position := entry.offset.toNat + entry.len.toNat
  !(nvsAteCrc8Check entry ≠ 0 ∨ position > (entryAddr &&& 0xFFFF).toNat)

def nvsCloseAteValid (fs : NvsFs) (entry : NvsAte) : Bool :=
  let ateSize := nvsAlSize fs nvsAteSize
  if !nvsAteValid (fs.sectorSize - ateSize).toUInt16 entry ∨ entry.len ≠ 0 ∨ entry.id ≠ 0xFFFF then false
  else if (fs.sectorSize - entry.offset.toNat) % ateSize ≠ 0 then false
  else true

-- An entry written with its CRC is valid where its data ends below it.
theorem nvsAteValid_update (entryAddr : UInt16) (entry : NvsAte) :
    nvsAteValid entryAddr (nvsAteCrc8Update entry) = true ↔
      entry.offset.toNat + entry.len.toNat ≤ (entryAddr &&& 0xFFFF).toNat := by
  simp [nvsAteValid, nvsAteCrc8Check_update]
  rfl

end Zephyr.Nvs
