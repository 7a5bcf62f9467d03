import Zephyr.Nvs.Flash
import Zephyr.Lib.Walk

namespace Zephyr.Nvs

open Zephyr.Lib

/-! The backward walk over the allocation table entries -/

def nvsSectorAdvance (fs : NvsFs) (addr : UInt32) : UInt32 :=
  let addr := addr + (1 <<< addrSectShift)
  if addr >>> addrSectShift = fs.sectorCount.toUInt32 then
    addr - (fs.sectorCount.toUInt32 <<< addrSectShift)
  else addr

-- The loop of nvs_recover_last_ate, from ate_end_addr down to the start of the sector.
def nvsRecoverLastAteLoop (fs : NvsFs) (ateSize : Nat) : Nat → UInt32 → UInt32 → UInt32 → UInt32
  | 0, _, _, addr => addr
  | fuel + 1, ateEndAddr, dataEndAddr, addr =>
    if ateEndAddr ≥ dataEndAddr ∧ ateEndAddr &&& addrOffsMask ≠ 0 then
      let endAte := nvsFlashAteRd fs ateEndAddr
      if nvsAteValid ateEndAddr.toUInt16 endAte then
        nvsRecoverLastAteLoop fs ateSize fuel (ateEndAddr - ateSize.toUInt32)
          ((dataEndAddr &&& addrSectMask) + (endAte.offset.toNat + endAte.len.toNat).toUInt32) ateEndAddr
      else nvsRecoverLastAteLoop fs ateSize fuel (ateEndAddr - ateSize.toUInt32) dataEndAddr addr
    else addr

def nvsRecoverLastAte (fs : NvsFs) (addr : UInt32) : UInt32 :=
  let ateSize := nvsAlSize fs nvsAteSize
  let addr := addr - ateSize.toUInt32
  nvsRecoverLastAteLoop fs ateSize ((addr &&& addrOffsMask).toNat + 1) addr (addr &&& addrSectMask) addr

-- The entry at addr and the address of the one before it. At the end of a sector the walk
-- jumps to the previous sector through its close ATE; an erased close ATE ends the walk,
-- which then returns ate_wra.
def nvsPrevAte (fs : NvsFs) (addr : UInt32) : UInt32 × NvsAte :=
  let ateSize := nvsAlSize fs nvsAteSize
  let ate := nvsFlashAteRd fs addr
  let addr := addr + ateSize.toUInt32
  if addr &&& addrOffsMask ≠ (fs.sectorSize - ateSize).toUInt32 then (addr, ate)
  else
    let addr := if addr >>> addrSectShift = 0 then addr + ((fs.sectorCount - 1).toUInt32 <<< addrSectShift)
      else addr - (1 <<< addrSectShift)
    let closeAte := nvsFlashAteRd fs addr
    if nvsAteCmpConst closeAte fs.flashParameters.eraseValue = 0 then (fs.ateWra, ate)
    else if nvsCloseAteValid fs closeAte then ((addr &&& addrSectMask) + closeAte.offset.toUInt32, ate)
    else (nvsRecoverLastAte fs addr, ate)

theorem nvsPrevAte_snd (fs : NvsFs) (addr : UInt32) : (nvsPrevAte fs addr).2 = nvsFlashAteRd fs addr := by
  unfold nvsPrevAte
  dsimp only
  split_ifs <;> rfl

def nvsNext (fs : NvsFs) (addr : UInt32) : UInt32 := (nvsPrevAte fs addr).1

-- The bound the model puts on a walk: one step for every ATE position of the partition.
def nvsWalkFuel (fs : NvsFs) : Nat := fs.sectorCount * (fs.sectorSize / nvsAlSize fs nvsAteSize)

-- The addresses the nvs_prev_ate walk from ate_wra reads, newest entry first.
def nvsWalk (fs : NvsFs) : List UInt32 := walk (nvsNext fs) fs.ateWra (nvsWalkFuel fs) fs.ateWra

/-! The walk reads nothing of the lookup cache -/

section Frame

variable (fs : NvsFs) (c : Nat → UInt32)

theorem nvsFlashAteRd_lookupCache : nvsFlashAteRd { fs with lookupCache := c } = nvsFlashAteRd fs := rfl

theorem nvsRecoverLastAteLoop_lookupCache (ateSize fuel : Nat) (ateEndAddr dataEndAddr addr : UInt32) :
    nvsRecoverLastAteLoop { fs with lookupCache := c } ateSize fuel ateEndAddr dataEndAddr addr =
      nvsRecoverLastAteLoop fs ateSize fuel ateEndAddr dataEndAddr addr := by
  induction fuel generalizing ateEndAddr dataEndAddr addr with
  | zero => rfl
  | succ fuel ih =>
    simp only [nvsRecoverLastAteLoop, nvsFlashAteRd_lookupCache, ih]

theorem nvsNext_lookupCache : nvsNext { fs with lookupCache := c } = nvsNext fs := by
  funext addr
  simp only [nvsNext, nvsPrevAte, nvsRecoverLastAte, nvsFlashAteRd_lookupCache,
    nvsRecoverLastAteLoop_lookupCache]
  rfl

theorem nvsWalk_lookupCache : nvsWalk { fs with lookupCache := c } = nvsWalk fs := by
  simp only [nvsWalk, nvsNext_lookupCache]
  rfl

end Frame

/-! The lookup cache against the walk -/

section Cache

variable (cfg : NvsConfig) (fs : NvsFs)

-- The entry at addr is one the cache keeps for slot h: a valid entry whose id is not 0xFFFF
-- and hashes to h.
def slotMatch (h : Nat) (addr : UInt32) : Bool :=
  let ate := nvsFlashAteRd fs addr
  decide (ate.id ≠ 0xFFFF) && decide (nvsLookupCachePos cfg ate.id = h) && nvsAteValid addr.toUInt16 ate

-- What slot h should hold: the address of the most recent entry the cache keeps for it,
-- or NO_ADDR.
def cacheSlot (h : Nat) : UInt32 :=
  ((nvsWalk fs).find? (slotMatch cfg fs h)).getD nvsLookupCacheNoAddr

def CacheInv : Prop :=
  ∀ h < cfg.lookupCacheSize, fs.lookupCache h = cacheSlot cfg fs h

instance : Decidable (CacheInv cfg fs) := by
  unfold CacheInv
  infer_instance

-- One entry of the rebuild: it fills the slot of its id if the slot is still empty.
def nvsLookupCacheRebuildStep (cache : Nat → UInt32) (ateAddr : UInt32) : Nat → UInt32 :=
  let ate := nvsFlashAteRd fs ateAddr
  let pos := nvsLookupCachePos cfg ate.id
  if ate.id ≠ 0xFFFF ∧ cache pos = nvsLookupCacheNoAddr ∧ nvsAteValid ateAddr.toUInt16 ate = true then
    Function.update cache pos ateAddr
  else cache

-- The loop of nvs_lookup_cache_rebuild.
def nvsLookupCacheRebuildLoop : Nat → UInt32 → (Nat → UInt32) → Nat → UInt32
  | 0, _, cache => cache
  | fuel + 1, addr, cache =>
    let ateAddr := addr
    let addr := nvsNext fs addr
    let cache := nvsLookupCacheRebuildStep cfg fs cache ateAddr
    if addr = fs.ateWra then cache else nvsLookupCacheRebuildLoop fuel addr cache

def nvsLookupCacheRebuild : NvsFs :=
  { fs with lookupCache :=
      nvsLookupCacheRebuildLoop cfg fs (nvsWalkFuel fs) fs.ateWra fun _ => nvsLookupCacheNoAddr }

theorem nvsLookupCacheRebuildLoop_eq_foldl (fuel : Nat) (addr : UInt32) (cache : Nat → UInt32) :
    nvsLookupCacheRebuildLoop cfg fs fuel addr cache =
      (walk (nvsNext fs) fs.ateWra fuel addr).foldl (nvsLookupCacheRebuildStep cfg fs) cache := by
  induction fuel generalizing addr cache with
  | zero => rfl
  | succ fuel ih =>
    rw [nvsLookupCacheRebuildLoop, walk_succ, List.foldl_cons]
    split_ifs
    · rfl
    · exact ih _ _

-- A step fills slot h exactly when the slot is empty and the entry is kept for it.
theorem nvsLookupCacheRebuildStep_apply (cache : Nat → UInt32) (ateAddr : UInt32) (h : Nat) :
    nvsLookupCacheRebuildStep cfg fs cache ateAddr h =
      if slotMatch cfg fs h ateAddr = true ∧ cache h = nvsLookupCacheNoAddr then ateAddr else cache h := by
  unfold nvsLookupCacheRebuildStep slotMatch
  by_cases hp : nvsLookupCachePos cfg (nvsFlashAteRd fs ateAddr).id = h
  · subst hp
    by_cases hc : (nvsFlashAteRd fs ateAddr).id ≠ 0xFFFF ∧
        cache (nvsLookupCachePos cfg (nvsFlashAteRd fs ateAddr).id) = nvsLookupCacheNoAddr ∧
        nvsAteValid ateAddr.toUInt16 (nvsFlashAteRd fs ateAddr) = true
    · simp [hc]
    · rw [if_neg hc]
      simp only [Bool.and_eq_true, decide_eq_true_eq]
      grind
  · have hp' : h ≠ nvsLookupCachePos cfg (nvsFlashAteRd fs ateAddr).id := fun e => hp e.symm
    simp only [hp, decide_false, Bool.and_false, Bool.false_and, Bool.false_eq_true, false_and, if_false]
    split_ifs <;> simp [Function.update_of_ne hp']

-- Folding the rebuild over addresses that are not NO_ADDR fills each empty slot with the
-- first address kept for it.
theorem foldl_nvsLookupCacheRebuildStep (addrs : List UInt32) (haddr : ∀ a ∈ addrs, a ≠ nvsLookupCacheNoAddr)
    (cache : Nat → UInt32) (h : Nat) :
    addrs.foldl (nvsLookupCacheRebuildStep cfg fs) cache h =
      if cache h = nvsLookupCacheNoAddr then (addrs.find? (slotMatch cfg fs h)).getD nvsLookupCacheNoAddr
      else cache h := by
  induction addrs generalizing cache with
  | nil => split_ifs with hc <;> simp [hc]
  | cons a addrs ih =>
    have ha : a ≠ nvsLookupCacheNoAddr := haddr a (by simp)
    rw [List.foldl_cons, ih (fun b hb => haddr b (by simp [hb])), nvsLookupCacheRebuildStep_apply,
      List.find?_cons]
    by_cases hc : cache h = nvsLookupCacheNoAddr
    · by_cases hm : slotMatch cfg fs h a = true
      · simp [hc, hm, ha]
      · simp [hc, hm]
    · simp [hc]

-- After the rebuild every slot is what the invariant asks for.
theorem nvsLookupCacheRebuild_cacheInv (haddr : ∀ a ∈ nvsWalk fs, a ≠ nvsLookupCacheNoAddr) :
    CacheInv cfg (nvsLookupCacheRebuild cfg fs) := by
  intro h _
  have hloop := nvsLookupCacheRebuildLoop_eq_foldl cfg fs (nvsWalkFuel fs) fs.ateWra fun _ => nvsLookupCacheNoAddr
  simp only [cacheSlot, nvsLookupCacheRebuild, nvsWalk_lookupCache]
  rw [hloop, ← nvsWalk, foldl_nvsLookupCacheRebuildStep cfg fs _ haddr, if_pos rfl]
  rfl

end Cache

/-! The walks of nvs_write, nvs_gc and nvs_read_hist -/

-- The walk of nvs_write and of nvs_gc for the most recent valid entry with an id: whether
-- it was found, the address it was read at and the entry read last.
def nvsFindLatest (fs : NvsFs) (id : UInt16) : Nat → UInt32 → UInt32 → NvsAte → Bool × UInt32 × NvsAte
  | 0, _, rdAddr, wlkAte => (false, rdAddr, wlkAte)
  | fuel + 1, wlkAddr, _, _ =>
    let rdAddr := wlkAddr
    let p := nvsPrevAte fs wlkAddr
    if p.2.id = id ∧ nvsAteValid rdAddr.toUInt16 p.2 = true then (true, rdAddr, p.2)
    else if p.1 = fs.ateWra then (false, rdAddr, p.2)
    else nvsFindLatest fs id fuel p.1 rdAddr p.2

-- The loop of nvs_read_hist, which counts the valid entries with the id until it has
-- passed cnt of them.
def nvsReadHistLoop (fs : NvsFs) (id cnt : UInt16) :
    Nat → UInt32 → UInt32 → NvsAte → UInt16 → UInt32 × UInt32 × NvsAte × UInt16
  | 0, wlkAddr, rdAddr, wlkAte, cntHis => (wlkAddr, rdAddr, wlkAte, cntHis)
  | fuel + 1, wlkAddr, rdAddr, wlkAte, cntHis =>
    if cntHis ≤ cnt then
      let rdAddr := wlkAddr
      let p := nvsPrevAte fs wlkAddr
      let cntHis := if p.2.id = id ∧ nvsAteValid rdAddr.toUInt16 p.2 = true then cntHis + 1 else cntHis
      if p.1 = fs.ateWra then (p.1, rdAddr, p.2, cntHis)
      else nvsReadHistLoop fs id cnt fuel p.1 rdAddr p.2 cntHis
    else (wlkAddr, rdAddr, wlkAte, cntHis)

section Loops

variable (fs : NvsFs) (id : UInt16)

-- The entry at addr is a valid one with the id.
def idHit (addr : UInt32) : Bool :=
  decide ((nvsFlashAteRd fs addr).id = id) && nvsAteValid addr.toUInt16 (nvsFlashAteRd fs addr)

theorem nvsFindLatest_succ (f : Nat) (a r : UInt32) (e : NvsAte) :
    nvsFindLatest fs id (f + 1) a r e =
      if idHit fs id a = true then (true, a, nvsFlashAteRd fs a)
      else if nvsNext fs a = fs.ateWra then (false, a, nvsFlashAteRd fs a)
      else nvsFindLatest fs id f (nvsNext fs a) a (nvsFlashAteRd fs a) := by
  simp only [nvsFindLatest, idHit, nvsNext, nvsPrevAte_snd, Bool.and_eq_true, decide_eq_true_eq]
  rfl

-- nvs_write's and nvs_gc's walk is the counting walk that stops at the first hit.
theorem nvsFindLatest_eq (f : Nat) (a r : UInt32) (e : NvsAte) :
    nvsFindLatest fs id (f + 1) a r e =
      let w := countWalk (nvsNext fs) fs.ateWra (idHit fs id) (fun _ => true) (fun b => b) (f + 1) a r false
      (w.2.2, w.2.1, nvsFlashAteRd fs w.2.1) := by
  induction f generalizing a r e with
  | zero =>
    rw [nvsFindLatest_succ, countWalk]
    by_cases hh : idHit fs id a = true
    · simp [hh]
    · by_cases hn : nvsNext fs a = fs.ateWra
      · simp [hh, hn]
      · simp [hh, hn, nvsFindLatest, countWalk]
  | succ f ih =>
    rw [nvsFindLatest_succ, countWalk]
    by_cases hh : idHit fs id a = true
    · simp [hh]
    · by_cases hn : nvsNext fs a = fs.ateWra
      · simp [hh, hn]
      · simp only [hh, hn, if_false, Bool.false_eq_true, false_or]
        exact ih _ _ _

variable (cnt : UInt16)

theorem nvsReadHistLoop_succ (f : Nat) (a r : UInt32) (e : NvsAte) (c : UInt16) (hc : c ≤ cnt) :
    nvsReadHistLoop fs id cnt (f + 1) a r e c =
      let c := if idHit fs id a = true then c + 1 else c
      if nvsNext fs a = fs.ateWra then (nvsNext fs a, a, nvsFlashAteRd fs a, c)
      else nvsReadHistLoop fs id cnt f (nvsNext fs a) a (nvsFlashAteRd fs a) c := by
  simp only [nvsReadHistLoop, hc, if_true, idHit, nvsNext, nvsPrevAte_snd, Bool.and_eq_true,
    decide_eq_true_eq]

-- Once the count has passed cnt the loop stops.
theorem nvsReadHistLoop_of_lt (f : Nat) (a r : UInt32) (e : NvsAte) (c : UInt16) (hc : cnt < c) :
    nvsReadHistLoop fs id cnt f a r e c = (a, r, e, c) := by
  cases f with
  | zero => rfl
  | succ f => simp [nvsReadHistLoop, UInt16.not_le.mpr hc]

theorem nvsReadHistLoop_miss (f : Nat) (a r : UInt32) (e : NvsAte) (c : UInt16) (hc : c ≤ cnt)
    (h : idHit fs id a = false) (hn : nvsNext fs a ≠ fs.ateWra) :
    nvsReadHistLoop fs id cnt (f + 1) a r e c = nvsReadHistLoop fs id cnt f (nvsNext fs a) a (nvsFlashAteRd fs a) c := by
  rw [nvsReadHistLoop_succ fs id cnt f a r e c hc]
  simp [h, hn]

-- The latest entry is the first hit: with cnt = 0 the loop stops there.
theorem nvsReadHistLoop_hit (f : Nat) (a r : UInt32) (e : NvsAte) (h : idHit fs id a = true) :
    nvsReadHistLoop fs id 0 (f + 1) a r e 0 = (nvsNext fs a, a, nvsFlashAteRd fs a, 1) := by
  rw [nvsReadHistLoop_succ fs id 0 f a r e 0 (UInt16.le_refl _)]
  simp only [h, if_true, UInt16.zero_add]
  split
  · rfl
  · exact nvsReadHistLoop_of_lt fs id 0 f _ _ _ 1 (by decide)

-- nvs_read_hist's walk is the counting walk that stops once it has passed cnt hits.
theorem nvsReadHistLoop_eq (f : Nat) (a r : UInt32) (e : NvsAte) (c : UInt16) (hc : c ≤ cnt) :
    nvsReadHistLoop fs id cnt (f + 1) a r e c =
      let w := countWalk (nvsNext fs) fs.ateWra (idHit fs id) (· + 1) (fun c => decide (cnt < c)) (f + 1) a r c
      (w.1, w.2.1, nvsFlashAteRd fs w.2.1, w.2.2) := by
  induction f generalizing a r e c with
  | zero =>
    rw [nvsReadHistLoop_succ fs id cnt 0 a r e c hc, countWalk]
    split_ifs <;> simp_all [nvsReadHistLoop, countWalk]
  | succ f ih =>
    rw [nvsReadHistLoop_succ fs id cnt _ a r e c hc, countWalk]
    dsimp only
    by_cases hn : nvsNext fs a = fs.ateWra
    · simp [hn]
    · by_cases hfull : cnt < (if idHit fs id a = true then c + 1 else c)
      · simp [hn, hfull, nvsReadHistLoop_of_lt fs id cnt _ _ _ _ _ hfull]
      · simp only [hn, decide_eq_true_eq, hfull, if_false, false_or]
        exact ih _ _ _ _ (UInt16.not_lt.mp hfull)

end Loops

end Zephyr.Nvs
