import Zephyr.Slab.MemSlab
import Zephyr.Lib.Reach

namespace Zephyr.Slab

open Zephyr.Lib Zephyr.Timeout

-- The calls on one slab: an allocation by a thread, a free of a block, the
-- timeout of a pended allocator, the return of an allocator z_pend_curr
-- released, a write by a caller into a block it holds, and
-- k_mem_slab_runtime_stats_reset_max.
inductive SlabOp where
  | alloc (t : Nat) (timeout : KTimeout)
  | free (p : Nat)
  | timeout (t : Nat)
  | resume (t : Nat)
  | write (a v : Nat)
  | resetMax
  deriving DecidableEq, Repr

-- Whether k_mem_slab_free takes the hand-off path.
def handsOff (s : MemSlab) : Bool := s.freeList = 0 && !s.waitQ.isEmpty

def SlabOp.apply (cfg : SlabCfg) (s : MemSlab) : SlabOp → MemSlab
  | .alloc t tmo =>
    let r := kMemSlabAlloc s t tmo
    match r.2 with
    | some (rc, b) =>
      if rc = 0 then { r.1 with held := r.1.held ++ [b], usedHist := r.1.usedHist ++ [r.1.numUsed] }
      else r.1
    | none => r.1
  | .free p =>
    match kMemSlabFree cfg s p with
    | some s' =>
      if handsOff s then { s' with held := s.held.erase p, inFlight := s.inFlight ++ [p] }
      else { s' with held := s.held.erase p, usedHist := s.usedHist ++ [s'.numUsed] }
    | none => s
  | .timeout t =>
    match s.state t with
    | .pended true => { s with state := Function.update s.state t .timedOut, waitQ := s.waitQ.erase t }
    | _ => s
  | .resume t =>
    match s.state t with
    | .woken b =>
      { s with
        state := Function.update s.state t .ready
        held := s.held ++ [b]
        inFlight := s.inFlight.erase b }
    | .timedOut => { s with state := Function.update s.state t .ready }
    | _ => s
  | .write a v => { s with mem := Function.update s.mem a v }
  | .resetMax =>
    let s := kMemSlabRuntimeStatsResetMax s
    { s with usedHist := [s.numUsed] }

-- Only a thread that is not blocked allocates, only a block returned to a
-- caller and not yet freed is freed, and a caller writes only inside the
-- blocks it holds.
def SlabOp.allowed (s : MemSlab) : SlabOp → Bool
  | .alloc t _ => s.state t = .ready
  | .free p => p ∈ s.held
  | .write a _ => s.held.any fun b => decide (b ≤ a ∧ a < b + s.blockSize)
  | .timeout _ | .resume _ | .resetMax => true

def SlabStep (cfg : SlabCfg) (s s' : MemSlab) : Prop :=
  ∃ op : SlabOp, op.allowed s = true ∧ s' = op.apply cfg s

-- k_mem_slab_init of a buffer at a nonzero address over any prior contents,
-- with no thread waiting.
def SlabStart (cfg : SlabCfg) (s : MemSlab) : Prop :=
  ∃ s₀ buffer blockSize numBlocks s₁, 0 < buffer ∧
    kMemSlabInit cfg s₀ buffer blockSize numBlocks = some s₁ ∧
    s = { s₁ with state := fun _ => .ready, held := [], inFlight := [], usedHist := [0] }

def SlabReach (cfg : SlabCfg) : MemSlab → Prop :=
  StateMachine.Reachable (SlabStart cfg) (SlabStep cfg)

/-! The invariant -/

def IsBlock (s : MemSlab) (b : Nat) : Prop := ∃ i < s.numBlocks, b = s.buffer + i * s.blockSize

theorem le_foldl_max {l : List Nat} {x a : Nat} (h : x ∈ l ∨ x ≤ a) : x ≤ l.foldl max a := by
  induction l generalizing a with
  | nil => simpa using h
  | cons y ys ih =>
    rw [List.foldl_cons]
    refine ih ?_
    rcases h with h | h
    · rcases List.mem_cons.1 h with rfl | h
      · exact .inr (le_max_right a x)
      · exact .inl h
    · exact .inr (le_trans h (le_max_left a y))

-- Each block in flight is held by exactly one woken allocator, and each woken
-- allocator holds a block in flight.
structure WokenOk (state : Nat → SlabWait) (inFlight : List Nat) : Prop where
  woken : ∀ t b, state t = .woken b → b ∈ inFlight
  inFlight : ∀ b ∈ inFlight, ∃ t, state t = .woken b
  inj : ∀ t u b, state t = .woken b → state u = .woken b → t = u

-- L is the free list; the blocks are those of L, those returned to callers
-- (held) and those handed to woken allocators (inFlight).
structure SlabInv (s : MemSlab) (L : List Nat) : Prop where
  buffer_pos : 0 < s.buffer
  blockSize_pos : 0 < s.blockSize
  free : Slist s.mem 0 s.freeList L
  nodup : (L ++ s.held ++ s.inFlight).Nodup
  blocks : ∀ b ∈ L ++ s.held ++ s.inFlight, IsBlock s b
  count : L.length + s.numUsed = s.numBlocks
  used : s.numUsed = s.held.length + s.inFlight.length
  waiters : s.waitQ ≠ [] → L = []
  waitQ_nodup : s.waitQ.Nodup
  mem_waitQ : ∀ t, t ∈ s.waitQ ↔ ∃ b, s.state t = .pended b
  wokenOk : WokenOk s.state s.inFlight
  maxUsed : s.maxUsed = s.usedHist.foldl max 0
  numUsed_mem : s.numUsed ∈ s.usedHist

section Inv

variable {s : MemSlab} {L : List Nat}

-- A thread that is not woken moves to another state that is not woken.
theorem WokenOk.update {state : Nat → SlabWait} {fl : List Nat} (h : WokenOk state fl) {t : Nat}
    {st : SlabWait} (hold : ∀ b, state t ≠ .woken b) (hnew : ∀ b, st ≠ .woken b) :
    WokenOk (Function.update state t st) fl := by
  refine ⟨fun u b hu => ?_, fun b hb => ?_, fun u v b hu hv => ?_⟩
  · by_cases hut : u = t
    · subst hut; simp at hu; exact absurd hu (hnew b)
    · rw [Function.update_of_ne hut] at hu; exact h.woken u b hu
  · obtain ⟨u, hu⟩ := h.inFlight b hb
    have hut : u ≠ t := by rintro rfl; exact hold b hu
    exact ⟨u, by rw [Function.update_of_ne hut]; exact hu⟩
  · have hut : u ≠ t := by rintro rfl; simp at hu; exact hnew b hu
    have hvt : v ≠ t := by rintro rfl; simp at hv; exact hnew b hv
    rw [Function.update_of_ne hut] at hu
    rw [Function.update_of_ne hvt] at hv
    exact h.inj u v b hu hv

-- k_mem_slab_free hands a block that is not in flight to a thread that is not woken.
theorem WokenOk.handOff {state : Nat → SlabWait} {fl : List Nat} (h : WokenOk state fl) {t p : Nat}
    (ht : ∀ b, state t ≠ .woken b) (hp : p ∉ fl) :
    WokenOk (Function.update state t (.woken p)) (fl ++ [p]) := by
  refine ⟨fun u b hu => ?_, fun b hb => ?_, fun u v b hu hv => ?_⟩
  · by_cases hut : u = t
    · subst hut; simp at hu; simp [hu]
    · rw [Function.update_of_ne hut] at hu; exact List.mem_append_left _ (h.woken u b hu)
  · rcases List.mem_append.1 hb with hb | hb
    · obtain ⟨u, hu⟩ := h.inFlight b hb
      have hut : u ≠ t := by rintro rfl; exact ht b hu
      exact ⟨u, by rw [Function.update_of_ne hut]; exact hu⟩
    · exact ⟨t, by simp [List.mem_singleton.1 hb]⟩
  · -- a second holder of p would have put p in flight already
    have key : ∀ w, w ≠ t → Function.update state t (.woken p) w = .woken b → b ≠ p := by
      intro w hwt hw e
      rw [Function.update_of_ne hwt, e] at hw
      exact hp (h.woken w p hw)
    by_cases hut : u = t <;> by_cases hvt : v = t
    · rw [hut, hvt]
    · subst hut; simp at hu; exact absurd hu.symm (key v hvt hv)
    · subst hvt; simp at hv; exact absurd hv.symm (key u hut hu)
    · rw [Function.update_of_ne hut] at hu
      rw [Function.update_of_ne hvt] at hv
      exact h.inj u v b hu hv

-- A woken allocator returns with its block.
theorem WokenOk.resume {state : Nat → SlabWait} {fl : List Nat} (h : WokenOk state fl) (hnd : fl.Nodup)
    {t b : Nat} (ht : state t = .woken b) :
    WokenOk (Function.update state t .ready) (fl.erase b) := by
  refine ⟨fun u c hu => ?_, fun c hc => ?_, fun u v c hu hv => ?_⟩
  · have hut : u ≠ t := by rintro rfl; simp at hu
    rw [Function.update_of_ne hut] at hu
    have hcb : c ≠ b := by rintro rfl; exact hut (h.inj u t c hu ht)
    exact (List.mem_erase_of_ne hcb).2 (h.woken u c hu)
  · have hcb : c ≠ b := fun e => by rw [e, hnd.mem_erase_iff] at hc; exact hc.1 rfl
    obtain ⟨u, hu⟩ := h.inFlight c ((List.mem_erase_of_ne hcb).1 hc)
    have hut : u ≠ t := by rintro rfl; rw [ht] at hu; exact hcb (SlabWait.woken.inj hu).symm
    exact ⟨u, by rw [Function.update_of_ne hut]; exact hu⟩
  · have hut : u ≠ t := by rintro rfl; simp at hu
    have hvt : v ≠ t := by rintro rfl; simp at hv
    rw [Function.update_of_ne hut] at hu
    rw [Function.update_of_ne hvt] at hv
    exact h.inj u v c hu hv

theorem SlabInv.nodup_iff_perm (h : SlabInv s L) {l : List Nat} (hp : l.Perm (L ++ s.held ++ s.inFlight)) :
    l.Nodup ∧ ∀ b ∈ l, IsBlock s b :=
  ⟨hp.nodup_iff.2 h.nodup, fun b hb => h.blocks b (hp.mem_iff.1 hb)⟩

theorem SlabInv.not_mem_free (h : SlabInv s L) {p : Nat} (hp : p ∈ s.held) : p ∉ L := fun hL => by
  have := h.nodup
  rw [List.append_assoc, List.nodup_append] at this
  exact this.2.2 p hL p (List.mem_append_left _ hp) rfl

theorem SlabInv.not_mem_inFlight (h : SlabInv s L) {p : Nat} (hp : p ∈ s.held) : p ∉ s.inFlight := fun hi => by
  have := (List.nodup_append.1 h.nodup).2.2
  exact this p (List.mem_append_right _ hp) p hi rfl

theorem SlabInv.block_pos (h : SlabInv s L) {b : Nat} (hb : b ∈ L ++ s.held ++ s.inFlight) : b ≠ 0 := by
  obtain ⟨i, -, rfl⟩ := h.blocks b hb
  have := h.buffer_pos
  omega

-- Two different blocks do not overlap.
theorem IsBlock.not_within (hbs : 0 < s.blockSize) {f b : Nat} (hf : IsBlock s f) (hb : IsBlock s b)
    (hne : f ≠ b) : ¬(b ≤ f ∧ f < b + s.blockSize) := by
  obtain ⟨i, -, rfl⟩ := hf
  obtain ⟨j, -, rfl⟩ := hb
  rintro ⟨h1, h2⟩
  have hle : j * s.blockSize ≤ i * s.blockSize := by omega
  have hlt : i * s.blockSize < (j + 1) * s.blockSize := by rw [Nat.succ_mul]; omega
  have := Nat.le_of_mul_le_mul_right hle hbs
  have := Nat.lt_of_mul_lt_mul_right hlt
  exact hne (by rw [show i = j by omega])

theorem slabPtrIsGood_of_block (cfg : SlabCfg) (hbs : 0 < s.blockSize) {p : Nat} (hp : IsBlock s p) :
    slabPtrIsGood cfg s p = true := by
  obtain ⟨i, hi, rfl⟩ := hp
  have hlt : i * s.blockSize < s.blockSize * s.numBlocks := by
    rw [Nat.mul_comm]; exact Nat.mul_lt_mul_of_pos_left hi hbs
  simp [slabPtrIsGood, hlt]

end Inv

/-! Each call keeps the invariant -/

section Steps

variable {cfg : SlabCfg} {s : MemSlab} {L : List Nat}

-- k_mem_slab_alloc takes the head block off the free list.
theorem SlabInv.take (h : SlabInv s L) {L' : List Nat} (hL : L = s.freeList :: L') :
    SlabInv { s with
      freeList := s.mem s.freeList
      numUsed := s.numUsed + 1
      maxUsed := max (s.numUsed + 1) s.maxUsed
      held := s.held ++ [s.freeList]
      usedHist := s.usedHist ++ [s.numUsed + 1] } L' := by
  have hfree := h.free
  rw [hL] at hfree
  have hq : s.waitQ = [] := by
    by_contra hne
    simp [h.waiters hne] at hL
  have hp : (L' ++ (s.held ++ [s.freeList]) ++ s.inFlight).Perm (L ++ s.held ++ s.inFlight) := by
    rw [hL]
    simpa using (List.perm_middle : ((L' ++ s.held) ++ s.freeList :: s.inFlight).Perm _)
  obtain ⟨hnd, hbl⟩ := h.nodup_iff_perm hp
  refine ⟨h.buffer_pos, h.blockSize_pos, hfree.pop, hnd, hbl, ?_, ?_, fun hne => absurd hq hne, h.waitQ_nodup,
    h.mem_waitQ, h.wokenOk, ?_, by simp⟩
  · have := h.count
    rw [hL, List.length_cons] at this
    dsimp only
    omega
  · simp [h.used]
    omega
  · simp [h.maxUsed, max_comm]

-- An allocator with nothing free pends.
theorem SlabInv.pend (h : SlabInv s L) {t : Nat} (ht : s.state t = .ready) (hf : s.freeList = 0) (b : Bool) :
    SlabInv { s with
      state := Function.update s.state t (.pended b)
      waitQ := waitqAdd s.prio t s.waitQ } L := by
  have hL : L = [] := h.free.null_iff.1 hf
  have hnot : t ∉ s.waitQ := by rw [h.mem_waitQ t, ht]; simp
  refine ⟨h.buffer_pos, h.blockSize_pos, h.free, h.nodup, h.blocks, h.count, h.used, fun _ => hL, ?_,
    fun u => ?_, h.wokenOk.update (by simp [ht]) (by simp), h.maxUsed, h.numUsed_mem⟩
  · exact (perm_waitqAdd s.prio t s.waitQ).nodup_iff.2 (List.nodup_cons.2 ⟨hnot, h.waitQ_nodup⟩)
  · rw [mem_waitqAdd]
    by_cases hut : u = t
    · simp [hut]
    · simpa [hut] using h.mem_waitQ u

-- k_mem_slab_free on an empty free list hands the block to the first waiter.
theorem SlabInv.handOff (h : SlabInv s L) {p t : Nat} {rest : List Nat} (hp : p ∈ s.held) (hf : s.freeList = 0)
    (hq : s.waitQ = t :: rest) :
    SlabInv { s with
      waitQ := rest
      state := Function.update s.state t (.woken p)
      held := s.held.erase p
      inFlight := s.inFlight ++ [p] } L := by
  have hL : L = [] := h.free.null_iff.1 hf
  have hp' : (L ++ s.held.erase p ++ (s.inFlight ++ [p])).Perm (L ++ s.held ++ s.inFlight) := by
    rw [hL, List.nil_append, List.nil_append, ← List.append_assoc]
    exact (List.perm_append_singleton _ _).trans ((List.perm_cons_erase hp).append_right _).symm
  obtain ⟨hnd, hbl⟩ := h.nodup_iff_perm hp'
  have hnd' := h.waitQ_nodup
  rw [hq, List.nodup_cons] at hnd'
  have htp : ∃ b, s.state t = .pended b := (h.mem_waitQ t).1 (by simp [hq])
  refine ⟨h.buffer_pos, h.blockSize_pos, h.free, hnd, hbl, h.count, ?_, fun _ => hL, hnd'.2, fun u => ?_,
    h.wokenOk.handOff (fun b e => by obtain ⟨c, hc⟩ := htp; rw [hc] at e; cases e) (h.not_mem_inFlight hp),
    h.maxUsed, h.numUsed_mem⟩
  · have := List.length_erase_of_mem hp
    have := List.length_pos_of_mem hp
    simp only [h.used, List.length_append, List.length_singleton]
    omega
  · by_cases hut : u = t
    · subst hut; simp [hnd'.1]
    · have := h.mem_waitQ u
      simp only [hq, List.mem_cons, hut, false_or] at this
      simpa [hut] using this

-- k_mem_slab_free with no waiter links the block in front of the free list.
theorem SlabInv.push (h : SlabInv s L) {p : Nat} (hp : p ∈ s.held) (hq : s.waitQ = []) :
    SlabInv { s with
      mem := Function.update s.mem p s.freeList
      freeList := p
      numUsed := s.numUsed - 1
      held := s.held.erase p
      usedHist := s.usedHist ++ [s.numUsed - 1] } (p :: L) := by
  have hp' : (p :: L ++ s.held.erase p ++ s.inFlight).Perm (L ++ s.held ++ s.inFlight) :=
    (((List.perm_cons_erase hp).append_left L).append_right _).trans (by simp) |>.symm
  obtain ⟨hnd, hbl⟩ := h.nodup_iff_perm hp'
  have hpos : p ≠ 0 := h.block_pos (by simp [hp])
  have hlen := List.length_erase_of_mem hp
  have hlen' := List.length_pos_of_mem hp
  refine ⟨h.buffer_pos, h.blockSize_pos, h.free.push hpos (h.not_mem_free hp), hnd, hbl, ?_, ?_,
    fun hne => absurd hq hne, by simp [hq], fun u => by simpa [hq] using h.mem_waitQ u, h.wokenOk, ?_, by simp⟩
  · have := h.count
    have := h.used
    simp only [List.length_cons]
    omega
  · have := h.used
    simp only
    omega
  · -- num_used only went down, so max_used stands
    have hle : s.numUsed - 1 ≤ s.usedHist.foldl max 0 :=
      le_trans (Nat.sub_le _ _) (le_foldl_max (.inl h.numUsed_mem))
    simp [h.maxUsed, hle]

-- A pended allocator's timeout unpends it.
theorem SlabInv.timeout (h : SlabInv s L) {t : Nat} (ht : s.state t = .pended true) :
    SlabInv { s with state := Function.update s.state t .timedOut, waitQ := s.waitQ.erase t } L := by
  refine ⟨h.buffer_pos, h.blockSize_pos, h.free, h.nodup, h.blocks, h.count, h.used,
    fun hne => h.waiters fun e => hne (by simp [e]), h.waitQ_nodup.erase t, fun u => ?_,
    h.wokenOk.update (by simp [ht]) (by simp), h.maxUsed, h.numUsed_mem⟩
  rw [h.waitQ_nodup.mem_erase_iff]
  by_cases hut : u = t
  · simp [hut]
  · simpa [hut] using h.mem_waitQ u

-- An allocator returns: with the block it was handed, or with -EAGAIN.
theorem SlabInv.resumeWoken (h : SlabInv s L) {t b : Nat} (ht : s.state t = .woken b) :
    SlabInv { s with
      state := Function.update s.state t .ready
      held := s.held ++ [b]
      inFlight := s.inFlight.erase b } L := by
  have hb := h.wokenOk.woken t b ht
  have hp' : (L ++ (s.held ++ [b]) ++ s.inFlight.erase b).Perm (L ++ s.held ++ s.inFlight) :=
    ((List.perm_cons_erase hb).append_left (L ++ s.held)).trans (by simp) |>.symm
  obtain ⟨hnd, hbl⟩ := h.nodup_iff_perm hp'
  have hnt : t ∉ s.waitQ := by rw [h.mem_waitQ t, ht]; simp
  have hfl : s.inFlight.Nodup := (List.nodup_append.1 h.nodup).2.1
  refine ⟨h.buffer_pos, h.blockSize_pos, h.free, hnd, hbl, h.count, ?_, h.waiters, h.waitQ_nodup,
    fun u => ?_, h.wokenOk.resume hfl ht, h.maxUsed, h.numUsed_mem⟩
  · have := List.length_erase_of_mem hb
    have := List.length_pos_of_mem hb
    simp only [h.used, List.length_append, List.length_singleton]
    omega
  · by_cases hut : u = t
    · subst hut; simp [hnt]
    · simpa [hut] using h.mem_waitQ u

theorem SlabInv.resumeTimedOut (h : SlabInv s L) {t : Nat} (ht : s.state t = .timedOut) :
    SlabInv { s with state := Function.update s.state t .ready } L := by
  have hnt : t ∉ s.waitQ := by rw [h.mem_waitQ t, ht]; simp
  refine ⟨h.buffer_pos, h.blockSize_pos, h.free, h.nodup, h.blocks, h.count, h.used, h.waiters,
    h.waitQ_nodup, fun u => ?_, h.wokenOk.update (by simp [ht]) (by simp), h.maxUsed, h.numUsed_mem⟩
  by_cases hut : u = t
  · subst hut; simp [hnt]
  · simpa [hut] using h.mem_waitQ u

-- A caller's write inside a block it holds misses every free block.
theorem SlabInv.write (h : SlabInv s L) {a b : Nat} (hb : b ∈ s.held) (ha : b ≤ a ∧ a < b + s.blockSize)
    (v : Nat) : SlabInv { s with mem := Function.update s.mem a v } L := by
  have hfree : Slist (Function.update s.mem a v) 0 s.freeList L := h.free.frame fun x hx => by
    have hxa : x ≠ a := by
      rintro rfl
      have hxb : x ≠ b := fun e => h.not_mem_free hb (e ▸ hx)
      exact IsBlock.not_within h.blockSize_pos (h.blocks x (by simp [hx])) (h.blocks b (by simp [hb])) hxb ha
    exact Function.update_of_ne hxa _ _
  exact ⟨h.buffer_pos, h.blockSize_pos, hfree, h.nodup, h.blocks, h.count, h.used, h.waiters, h.waitQ_nodup,
    h.mem_waitQ, h.wokenOk, h.maxUsed, h.numUsed_mem⟩

theorem SlabInv.resetMax (h : SlabInv s L) :
    SlabInv { s with maxUsed := s.numUsed, usedHist := [s.numUsed] } L :=
  ⟨h.buffer_pos, h.blockSize_pos, h.free, h.nodup, h.blocks, h.count, h.used, h.waiters, h.waitQ_nodup,
    h.mem_waitQ, h.wokenOk, by simp, by simp⟩

-- k_mem_slab_alloc takes the head, fails with -ENOMEM, or pends.
theorem SlabInv.alloc (h : SlabInv s L) {t : Nat} (ht : s.state t = .ready) (tmo : KTimeout) :
    ∃ L', SlabInv ((SlabOp.alloc t tmo).apply cfg s) L' := by
  by_cases hf : s.freeList = 0
  · by_cases h0 : tmo = .rel 0
    · exact ⟨L, by simpa [SlabOp.apply, kMemSlabAlloc, hf, h0, eNoMem] using h⟩
    · exact ⟨L, by simpa [SlabOp.apply, kMemSlabAlloc, hf, h0] using h.pend ht hf _⟩
  · obtain ⟨L', hL⟩ := h.free.eq_cons hf
    exact ⟨L', by simpa [SlabOp.apply, kMemSlabAlloc, hf] using h.take hL⟩

-- A held block passes the pointer check, so its free hands it off or pushes it.
theorem SlabInv.freeBlock (h : SlabInv s L) {p : Nat} (hp : p ∈ s.held) :
    ∃ L', SlabInv ((SlabOp.free p).apply cfg s) L' := by
  have hgood : slabPtrIsGood cfg s p = true :=
    slabPtrIsGood_of_block cfg h.blockSize_pos (h.blocks p (by simp [hp]))
  by_cases hf : s.freeList = 0
  · cases hq : s.waitQ with
    | cons t rest =>
      exact ⟨L, by simpa [SlabOp.apply, kMemSlabFree, hgood, hf, hq, handsOff] using h.handOff hp hf hq⟩
    | nil => exact ⟨p :: L, by simpa [SlabOp.apply, kMemSlabFree, hgood, hf, hq, handsOff] using h.push hp hq⟩
  · have hq : s.waitQ = [] := by
      by_contra hne
      exact hf (h.free.null_iff.2 (h.waiters hne))
    exact ⟨p :: L, by simpa [SlabOp.apply, kMemSlabFree, hgood, hf, hq, handsOff] using h.push hp hq⟩

theorem SlabInv.step (h : SlabInv s L) {op : SlabOp} (hop : op.allowed s = true) :
    ∃ L', SlabInv (op.apply cfg s) L' := by
  cases op with
  | alloc t tmo => exact h.alloc (by simpa [SlabOp.allowed] using hop) tmo
  | free p => exact h.freeBlock (by simpa [SlabOp.allowed] using hop)
  | timeout t =>
    refine ⟨L, ?_⟩
    simp only [SlabOp.apply]
    split
    · next ht => exact h.timeout ht
    · exact h
  | resume t =>
    refine ⟨L, ?_⟩
    simp only [SlabOp.apply]
    split
    · next ht => exact h.resumeWoken ht
    · next ht => exact h.resumeTimedOut ht
    · exact h
  | write a v =>
    obtain ⟨b, hb, ha⟩ := List.any_eq_true.1 hop
    exact ⟨L, h.write hb (of_decide_eq_true ha) v⟩
  | resetMax => exact ⟨L, h.resetMax⟩

end Steps

-- After k_mem_slab_init every block is on the free list, in address order.
theorem slabInv_start {cfg : SlabCfg} {s : MemSlab} (h : SlabStart cfg s) : ∃ L, SlabInv s L := by
  obtain ⟨s₀, buffer, blockSize, numBlocks, s₁, hb, hi, rfl⟩ := h
  unfold kMemSlabInit at hi
  dsimp only at hi
  split at hi
  · next s₂ hc =>
    simp only [Option.some.injEq] at hi
    subst hi
    obtain ⟨hbs, hfree, hs₂⟩ := createFreeList_spec hb hc
    rw [hs₂]
    refine ⟨blockRun buffer blockSize 0 numBlocks, hb, hbs, hfree, ?_, fun b hm => ?_, ?_, rfl,
      fun hne => absurd rfl hne, List.nodup_nil, by simp, ⟨by simp, by simp, by simp⟩, rfl, by simp⟩
    · simpa using nodup_blockRun hbs 0 numBlocks
    · obtain ⟨j, hj, rfl⟩ := mem_blockRun.1 (by simpa using hm)
      exact ⟨j, hj, by simp⟩
    · simp [blockRun]
  · simp at hi

theorem SlabReach.inv {cfg : SlabCfg} {s : MemSlab} (h : SlabReach cfg s) : ∃ L, SlabInv s L :=
  StateMachine.Reachable.inv (fun s => ∃ L, SlabInv s L) (fun _ => slabInv_start)
    (fun _ _ ⟨_, hL⟩ ⟨_, hop, e⟩ => e ▸ hL.step hop) h

-- k_mem_slab_alloc fails or pends only on an empty free list.
theorem kMemSlabAlloc_freeList_eq_zero {s : MemSlab} {t : Nat} {tmo : KTimeout}
    (h : (kMemSlabAlloc s t tmo).2 = none ∨ (kMemSlabAlloc s t tmo).2 = some (-eNoMem, 0)) :
    s.freeList = 0 := by
  by_contra hf
  simp [kMemSlabAlloc, hf] at h

-- The block a successful k_mem_slab_alloc returns is the head of the free list.
theorem kMemSlabAlloc_eq_head {s : MemSlab} {t : Nat} {tmo : KTimeout} {b : Nat}
    (h : (kMemSlabAlloc s t tmo).2 = some (0, b)) : s.freeList ≠ 0 ∧ b = s.freeList := by
  unfold kMemSlabAlloc at h
  split_ifs at h with hf h0
  · simp only [Option.some.injEq, Prod.mk.injEq, true_and] at h
    exact ⟨hf, h.symm⟩
  · simp [eNoMem] at h

theorem SlabInv.alloc_block {s : MemSlab} {L : List Nat} (h : SlabInv s L) {t : Nat} {tmo : KTimeout} {b : Nat}
    (hb : (kMemSlabAlloc s t tmo).2 = some (0, b)) : IsBlock s b ∧ b ∉ s.held ++ s.inFlight := by
  obtain ⟨hf, rfl⟩ := kMemSlabAlloc_eq_head hb
  obtain ⟨L', rfl⟩ := h.free.eq_cons hf
  have hnd := h.nodup
  rw [List.append_assoc, List.cons_append, List.nodup_cons] at hnd
  exact ⟨h.blocks _ (by simp), fun hm => hnd.1 (List.mem_append_right _ hm)⟩

-- The k_mem_slab block-pool invariant, over every interleaving of calls on a
-- slab k_mem_slab_init set up.
theorem mem_slab_pool_invariant :
    (∀ (cfg : SlabCfg) (s₀ : MemSlab) (buffer blockSize numBlocks : Nat), blockSize ≠ 0 →
        cfg.ptrSize ∣ blockSize → cfg.ptrSize ∣ buffer → buffer + blockSize * numBlocks ≤ cfg.sizeMax →
        (kMemSlabInit cfg s₀ buffer blockSize numBlocks).isSome) ∧
    (∀ (cfg : SlabCfg) (s : MemSlab), SlabReach cfg s →
      ∃ L, Slist s.mem 0 s.freeList L ∧ L.Nodup ∧ L.length = s.numBlocks - s.numUsed ∧
        (L ++ s.held ++ s.inFlight).Nodup ∧ (∀ b ∈ L ++ s.held ++ s.inFlight, IsBlock s b) ∧
        s.numUsed = s.held.length + s.inFlight.length ∧
        (∀ t b, s.state t = .pended b → s.freeList = 0) ∧
        s.maxUsed = s.usedHist.foldl max 0 ∧ s.numUsed ∈ s.usedHist) ∧
    (∀ (s : MemSlab) (t : Nat) (tmo : KTimeout),
      (kMemSlabAlloc s t tmo).2 = none ∨ (kMemSlabAlloc s t tmo).2 = some (-eNoMem, 0) → s.freeList = 0) ∧
    (∀ (cfg : SlabCfg) (s : MemSlab) (t : Nat) (tmo : KTimeout) (b : Nat), SlabReach cfg s →
      (kMemSlabAlloc s t tmo).2 = some (0, b) → IsBlock s b ∧ b ∉ s.held ++ s.inFlight) ∧
    (∀ (cfg : SlabCfg) (s : MemSlab) (p : Nat), SlabReach cfg s → p ∈ s.held →
      (kMemSlabFree cfg s p).isSome) := by
  refine ⟨fun cfg s₀ _ _ _ hbs hdb hdbuf hsize => kMemSlabInit_isSome cfg s₀ hbs hdb hdbuf hsize,
    fun cfg s hr => ?_, fun _ _ _ => kMemSlabAlloc_freeList_eq_zero,
    fun cfg s _ _ _ hr hb => ?_, fun cfg s p hr hp => ?_⟩
  · obtain ⟨L, h⟩ := hr.inv
    have hcount := h.count
    refine ⟨L, h.free, ?_, by omega, h.nodup, h.blocks, h.used, fun t b ht => ?_, h.maxUsed, h.numUsed_mem⟩
    · exact (List.nodup_append.1 (List.nodup_append.1 h.nodup).1).1
    · -- a pended thread is queued, and a queued thread means an empty free list
      have hq : s.waitQ ≠ [] := List.ne_nil_of_mem ((h.mem_waitQ t).2 ⟨b, ht⟩)
      exact h.free.null_iff.2 (h.waiters hq)
  · obtain ⟨L, h⟩ := hr.inv
    exact h.alloc_block hb
  · obtain ⟨L, h⟩ := hr.inv
    have hgood := slabPtrIsGood_of_block cfg h.blockSize_pos (h.blocks p (by simp [hp]))
    unfold kMemSlabFree
    simp only [hgood, Bool.not_true, Bool.false_eq_true, if_false]
    split_ifs
    · split <;> rfl
    · rfl

end Zephyr.Slab
