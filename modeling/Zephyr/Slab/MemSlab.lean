import Zephyr.Lib.Slist
import Zephyr.Lib.WaitQ
import Zephyr.Timeout.Front

namespace Zephyr.Slab

open Zephyr.Lib Zephyr.Timeout

def eNoMem : Int := 12

-- sizeof(void *) is 2^ptrLog bytes and size_t is as wide as a pointer;
-- `validate` is CONFIG_MEM_SLAB_POINTER_VALIDATE.
structure SlabCfg where
  ptrLog : Nat
  validate : Bool

def SlabCfg.ptrSize (cfg : SlabCfg) : Nat := 2 ^ cfg.ptrLog

def SlabCfg.sizeMax (cfg : SlabCfg) : Nat := 2 ^ (8 * cfg.ptrSize) - 1

-- A thread as k_mem_slab_alloc sees it: not waiting, pended in z_pend_curr
-- (with a finite timeout or not), handed a block by k_mem_slab_free, or
-- unpended by its timeout.
inductive SlabWait where
  | ready
  | pended (timed : Bool)
  | woken (block : Nat)
  | timedOut
  deriving DecidableEq, Repr

-- A k_mem_slab with CONFIG_MEM_SLAB_TRACE_MAX_UTILIZATION. Addresses are
-- numbers, NULL is 0, and `mem p` is the pointer stored in the first word of
-- the block at p. `held`, `inFlight` and `usedHist` are ghost state: the
-- blocks returned to callers and not yet freed, the blocks handed to pended
-- allocators that have not yet returned, and the values num_used took since
-- init or the last reset of max_used.
structure MemSlab where
  buffer : Nat
  blockSize : Nat
  numBlocks : Nat
  freeList : Nat
  mem : Nat → Nat
  numUsed : Nat
  maxUsed : Nat
  waitQ : List Nat
  prio : Nat → Int
  state : Nat → SlabWait
  held : List Nat
  inFlight : List Nat
  usedHist : List Nat

-- The loop of create_free_list: p walks down from the last block, and each
-- block is linked in front of the list built so far.
def createFreeListLoop (blockSize : Nat) : Nat → Nat → (Nat → Nat) → Nat → (Nat → Nat) × Nat
  | 0, _, mem, freeList => (mem, freeList)
  | i + 1, p, mem, freeList =>
    createFreeListLoop blockSize i (p - blockSize) (Function.update mem p freeList) p

def createFreeList (cfg : SlabCfg) (s : MemSlab) : Option MemSlab :=
  if s.blockSize = 0 then none
  else if (s.blockSize ||| s.buffer) &&& (cfg.ptrSize - 1) ≠ 0 then none
  else if cfg.sizeMax < s.blockSize * s.numBlocks then none
  else if cfg.sizeMax < s.buffer + s.blockSize * s.numBlocks then none
  else
    let totalSize := s.buffer + s.blockSize * s.numBlocks
    let r := createFreeListLoop s.blockSize s.numBlocks (totalSize - s.blockSize) s.mem 0
    some { s with mem := r.1, freeList := r.2 }

-- `none` is -EINVAL.
def kMemSlabInit (cfg : SlabCfg) (s : MemSlab) (buffer blockSize numBlocks : Nat) : Option MemSlab :=
  let s := { s with
    numBlocks := numBlocks
    blockSize := blockSize
    buffer := buffer
    numUsed := 0
    maxUsed := 0 }
  match createFreeList cfg s with
  | some s => some { s with waitQ := [] }
  | none => none

-- k_mem_slab_alloc up to z_pend_curr: `some (result, *mem)` when it returns
-- at once, `none` when the thread pends.
def kMemSlabAlloc (s : MemSlab) (t : Nat) (timeout : KTimeout) : MemSlab × Option (Int × Nat) :=
  if s.freeList ≠ 0 then
    let numUsed := s.numUsed + 1
    ({ s with freeList := s.mem s.freeList, numUsed := numUsed, maxUsed := max numUsed s.maxUsed },
      some (0, s.freeList))
  else if timeout = .rel 0 then (s, some (-eNoMem, 0))
  else
    ({ s with
        state := Function.update s.state t (.pended (decide (timeout ≠ .forever)))
        waitQ := waitqAdd s.prio t s.waitQ }, none)

def slabPtrIsGood (cfg : SlabCfg) (s : MemSlab) (p : Nat) : Bool :=
  !cfg.validate ||
    (decide (s.buffer ≤ p) && decide (p - s.buffer < s.blockSize * s.numBlocks) &&
      decide ((p - s.buffer) % s.blockSize = 0))

-- k_mem_slab_free; `none` is the k_panic on a bad pointer. With the free
-- list empty, z_sched_wake hands the block to the first waiter.
def kMemSlabFree (cfg : SlabCfg) (s : MemSlab) (p : Nat) : Option MemSlab :=
  if !slabPtrIsGood cfg s p then none
  else
    let pushed := { s with mem := Function.update s.mem p s.freeList, freeList := p, numUsed := s.numUsed - 1 }
    if s.freeList = 0 then
      match s.waitQ with
      | t :: rest => some { s with waitQ := rest, state := Function.update s.state t (.woken p) }
      | [] => some pushed
    else some pushed

def kMemSlabRuntimeStatsResetMax (s : MemSlab) : MemSlab := { s with maxUsed := s.numUsed }

/-! The free list create_free_list builds -/

-- The blocks i, i+1, ..., i+k-1 of the buffer.
def blockRun (buffer blockSize i k : Nat) : List Nat :=
  (List.range k).map fun j => buffer + (i + j) * blockSize

theorem blockRun_succ (buffer blockSize i k : Nat) :
    blockRun buffer blockSize i (k + 1) = blockRun buffer blockSize i k ++ [buffer + (i + k) * blockSize] := by
  simp [blockRun, List.range_succ]

theorem nodup_blockRun {buffer blockSize : Nat} (hbs : 0 < blockSize) (i k : Nat) :
    (blockRun buffer blockSize i k).Nodup := by
  refine (List.nodup_range).map fun a b h => ?_
  have : (i + a) * blockSize = (i + b) * blockSize := by simpa using h
  have := Nat.eq_of_mul_eq_mul_right hbs this
  omega

theorem mem_blockRun {buffer blockSize i k b : Nat} :
    b ∈ blockRun buffer blockSize i k ↔ ∃ j < k, b = buffer + (i + j) * blockSize := by
  simp [blockRun, eq_comm]

-- k iterations of the loop from the k-th block down link the blocks 0 .. k-1
-- in front of the list they started from.
theorem createFreeListLoop_spec {buffer blockSize : Nat} (hb : 0 < buffer) (hbs : 0 < blockSize) :
    ∀ (k p : Nat) (mem : Nat → Nat) (fl : Nat) (L : List Nat), Slist mem 0 fl L →
      (∀ x ∈ L, buffer + k * blockSize ≤ x) → (k ≠ 0 → p = buffer + (k - 1) * blockSize) →
      Slist (createFreeListLoop blockSize k p mem fl).1 0 (createFreeListLoop blockSize k p mem fl).2
        (blockRun buffer blockSize 0 k ++ L) := by
  intro k
  induction k with
  | zero => intro p mem fl L hL _ _; simpa [createFreeListLoop, blockRun] using hL
  | succ k ih =>
    intro p mem fl L hL hx hp
    have hp' : p = buffer + k * blockSize := by simpa using hp (by omega)
    -- one pass links block k in front
    have hpush : Slist (Function.update mem p fl) 0 p (p :: L) := by
      refine hL.push (by omega) fun hm => ?_
      have := hx p hm
      rw [hp', Nat.succ_mul] at this
      omega
    have hx' : ∀ x ∈ p :: L, buffer + k * blockSize ≤ x := by
      intro x hm
      rcases List.mem_cons.1 hm with rfl | hm
      · omega
      · have := hx x hm
        rw [Nat.succ_mul] at this
        omega
    have h := ih (p - blockSize) _ p (p :: L) hpush hx' fun hk => by
      rw [hp']
      obtain ⟨k', rfl⟩ : ∃ k', k = k' + 1 := ⟨k - 1, by omega⟩
      simp only [Nat.add_sub_cancel, Nat.succ_mul]
      omega
    rw [blockRun_succ, List.append_assoc]
    simpa [createFreeListLoop, hp'] using h

-- With the checks passed, the free list is every block in address order.
theorem createFreeList_spec {cfg : SlabCfg} {s s' : MemSlab} (hb : 0 < s.buffer)
    (h : createFreeList cfg s = some s') :
    0 < s.blockSize ∧ Slist s'.mem 0 s'.freeList (blockRun s.buffer s.blockSize 0 s.numBlocks) ∧
      s' = { s with mem := s'.mem, freeList := s'.freeList } := by
  unfold createFreeList at h
  split_ifs at h with h0 h1 h2 h3
  simp only [Option.some.injEq] at h
  subst h
  have hbs : 0 < s.blockSize := Nat.pos_of_ne_zero h0
  refine ⟨hbs, ?_, rfl⟩
  have := createFreeListLoop_spec hb hbs s.numBlocks
    (s.buffer + s.blockSize * s.numBlocks - s.blockSize) s.mem 0 [] .nil (by simp) fun hn => by
      obtain ⟨n', hn'⟩ : ∃ n', s.numBlocks = n' + 1 := ⟨s.numBlocks - 1, by omega⟩
      rw [hn', Nat.mul_succ, Nat.add_sub_cancel]
      simp [Nat.mul_comm]
      omega
  simpa using this

-- x &&& (2^k - 1) is x mod 2^k.
theorem or_and_ptrMask_eq_zero {cfg : SlabCfg} {a b : Nat} (ha : cfg.ptrSize ∣ a) (hb : cfg.ptrSize ∣ b) :
    (a ||| b) &&& (cfg.ptrSize - 1) = 0 := by
  unfold SlabCfg.ptrSize at *
  rw [Nat.and_two_pow_sub_one_eq_mod, Nat.or_mod_two_pow, Nat.mod_eq_zero_of_dvd ha,
    Nat.mod_eq_zero_of_dvd hb, Nat.zero_or]

-- k_mem_slab_init succeeds on a nonzero multiple of the pointer size, a
-- pointer-aligned buffer and a size that does not overflow.
theorem kMemSlabInit_isSome (cfg : SlabCfg) (s : MemSlab) {buffer blockSize numBlocks : Nat}
    (hbs : blockSize ≠ 0) (hdb : cfg.ptrSize ∣ blockSize) (hdbuf : cfg.ptrSize ∣ buffer)
    (hsize : buffer + blockSize * numBlocks ≤ cfg.sizeMax) :
    (kMemSlabInit cfg s buffer blockSize numBlocks).isSome := by
  have hmask := or_and_ptrMask_eq_zero hdb hdbuf
  have hmul : ¬cfg.sizeMax < blockSize * numBlocks := by omega
  have hadd : ¬cfg.sizeMax < buffer + blockSize * numBlocks := by omega
  simp [kMemSlabInit, createFreeList, hbs, hmask, hmul, hadd]

end Zephyr.Slab
