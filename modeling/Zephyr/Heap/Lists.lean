import Zephyr.Heap.Layout

namespace Zephyr.Heap

open Zephyr.Lib

theorem sum_update_add {n b0 : Nat} (hb : b0 < n) (g : List Nat → Nat) (L : Nat → List Nat)
    (l : List Nat) :
    (∑ b ∈ Finset.range n, g (Function.update L b0 l b)) + g (L b0) =
      (∑ b ∈ Finset.range n, g (L b)) + g l := by
  have hm : b0 ∈ Finset.range n := Finset.mem_range.2 hb
  have e : ∀ b, g (Function.update L b0 l b) = Function.update (fun b => g (L b)) b0 (g l) b :=
    fun b => Function.apply_update (fun _ => g) L b0 l b
  simp only [e]
  rw [Finset.sum_update_of_mem hm, ← Finset.add_sum_erase _ _ hm, Finset.sdiff_singleton_eq_erase]
  omega

section Buckets

variable (cfg : HeapConfig)

def numBuckets (h : ZHeap) : Nat := bucketIdx cfg h h.endChunk + 1

def listedBytes (h : ZHeap) (L : Nat → List Nat) : Nat :=
  ∑ b ∈ Finset.range (numBuckets cfg h), ((L b).map (chunkUsableBytes cfg h)).sum

-- The free lists, one list per bucket read from the bucket's head, with
-- the bitmask and the free-byte count that summarise them.
structure Buckets (h : ZHeap) (cs : List Nat) (L : Nat → List Nat) : Prop where
  ring : ∀ b, Ring (nextFreeChunk h) (prevFreeChunk h) (L b)
  head : ∀ b < numBuckets cfg h, h.buckets b = (L b).headD 0
  avail : ∀ b, h.availBuckets.getLsbD b = decide (L b ≠ [])
  nil_of_ge : ∀ b, numBuckets cfg h ≤ b → L b = []
  mem : ∀ b, ∀ c ∈ L b, c ∈ cs ∧ chunkUsed h c = false ∧ undersizedChunk cfg h c = false ∧
    bucketIdx cfg h (chunkSize h c) = b
  bound : numBuckets cfg h ≤ 32
  free_bytes : h.freeBytes = listedBytes cfg h L

theorem numBuckets_congr {h h' : ZHeap} (e : h'.endChunk = h.endChunk) :
    numBuckets cfg h' = numBuckets cfg h := by
  simp [numBuckets, bucketIdx_congr cfg e, e]

variable {cfg}

namespace Buckets

variable {h h' : ZHeap} {cs : List Nat} {L : Nat → List Nat}

theorem lt_numBuckets (hB : Buckets cfg h cs L) {b c : Nat} (hc : c ∈ L b) : b < numBuckets cfg h := by
  by_contra hge
  rw [hB.nil_of_ge b (by omega)] at hc
  simp at hc

theorem eq_of_mem (hB : Buckets cfg h cs L) {b b' c : Nat} (hc : c ∈ L b) (hc' : c ∈ L b') :
    b = b' := by
  rw [← (hB.mem b c hc).2.2.2, (hB.mem b' c hc').2.2.2]

-- Rewriting one bucket: every operation on the free lists is an instance.
theorem update (hB : Buckets cfg h cs L) {b0 : Nat} {l : List Nat} (hb0 : b0 < numBuckets cfg h)
    (hlay : SameLayout h h') (hring : Ring (nextFreeChunk h') (prevFreeChunk h') l)
    (hlink : ∀ b ≠ b0, ∀ d ∈ L b,
      nextFreeChunk h' d = nextFreeChunk h d ∧ prevFreeChunk h' d = prevFreeChunk h d)
    (hhead : ∀ b < numBuckets cfg h, h'.buckets b = if b = b0 then l.headD 0 else h.buckets b)
    (havail : ∀ i, h'.availBuckets.getLsbD i =
      if i = b0 then decide (l ≠ []) else h.availBuckets.getLsbD i)
    (hmem : ∀ d ∈ l, d ∈ cs ∧ chunkUsed h d = false ∧ undersizedChunk cfg h d = false ∧
      bucketIdx cfg h (chunkSize h d) = b0)
    (hfree : h'.freeBytes + ((L b0).map (chunkUsableBytes cfg h)).sum =
      h.freeBytes + (l.map (chunkUsableBytes cfg h)).sum) :
    Buckets cfg h' cs (Function.update L b0 l) := by
  have hnb := numBuckets_congr cfg hlay.endChunk
  have hus : chunkUsableBytes cfg h' = chunkUsableBytes cfg h :=
    funext fun c => chunkUsableBytes_congr cfg hlay.endChunk (hlay.size c)
  have hun : ∀ c, undersizedChunk cfg h' c = undersizedChunk cfg h c :=
    fun c => undersizedChunk_congr cfg hlay.endChunk (hlay.size c)
  refine ⟨fun b => ?_, fun b hb => ?_, fun i => ?_, fun b hb => ?_, fun b c hc => ?_, hnb ▸ hB.bound, ?_⟩
  · by_cases e : b = b0
    · subst e; simpa using hring
    · rw [Function.update_of_ne e]
      exact (hB.ring b).congr (fun d hd => (hlink b e d hd).1) (fun d hd => (hlink b e d hd).2)
  · rw [hnb] at hb
    rw [hhead b hb]
    by_cases e : b = b0
    · subst e; simp
    · rw [if_neg e, Function.update_of_ne e, hB.head b hb]
  · rw [havail i]
    by_cases e : i = b0
    · subst e; simp
    · rw [if_neg e, Function.update_of_ne e, hB.avail i]
  · rw [hnb] at hb
    have e : b ≠ b0 := by omega
    rw [Function.update_of_ne e, hB.nil_of_ge b hb]
  · have hm : c ∈ cs ∧ chunkUsed h c = false ∧ undersizedChunk cfg h c = false ∧
        bucketIdx cfg h (chunkSize h c) = b := by
      by_cases e : b = b0
      · subst e; simp only [Function.update_self] at hc; exact hmem c hc
      · rw [Function.update_of_ne e] at hc; exact hB.mem b c hc
    simp only [chunkUsed, chunkSize] at hm ⊢
    rw [hlay.used c, hun c, bucketIdx_congr cfg hlay.endChunk, hlay.size c]
    exact hm
  · have hsum := sum_update_add hb0 (fun l => (l.map (chunkUsableBytes cfg h)).sum) L l
    simp only [listedBytes, hnb, hus] at hsum ⊢
    rw [hB.free_bytes, listedBytes] at hfree
    omega

-- Layout changes that leave every listed chunk alone keep the lists.
theorem congr (hB : Buckets cfg h cs L) {cs' : List Nat} (hl : SameLists h h')
    (hs : ∀ b, ∀ c ∈ L b, (h'.chunks c).size = (h.chunks c).size ∧ (h'.chunks c).used = (h.chunks c).used)
    (hcs : ∀ b, ∀ c ∈ L b, c ∈ cs') : Buckets cfg h' cs' L := by
  have hnb := numBuckets_congr cfg hl.endChunk
  have hn : nextFreeChunk h' = nextFreeChunk h := funext hl.next
  have hp : prevFreeChunk h' = prevFreeChunk h := funext hl.prev
  refine ⟨fun b => hn ▸ hp ▸ hB.ring b, fun b hb => ?_, fun b => ?_, fun b hb => ?_,
    fun b c hc => ?_, hnb ▸ hB.bound, ?_⟩
  · rw [hl.buckets]; exact hB.head b (hnb ▸ hb)
  · rw [hl.availBuckets]; exact hB.avail b
  · exact hB.nil_of_ge b (hnb ▸ hb)
  · obtain ⟨h1, h2, h3, h4⟩ := hB.mem b c hc
    obtain ⟨hs1, hs2⟩ := hs b c hc
    refine ⟨hcs b c hc, by simpa [hs2] using h2, ?_, ?_⟩
    · rw [undersizedChunk_congr cfg hl.endChunk hs1]; exact h3
    · simp only [chunkSize] at h4 ⊢
      rw [bucketIdx_congr cfg hl.endChunk, hs1]; exact h4
  · rw [hl.freeBytes, hB.free_bytes, listedBytes, listedBytes, hnb]
    refine Finset.sum_congr rfl fun b _ => ?_
    congr 1
    refine List.map_congr_left fun c hc => ?_
    exact (chunkUsableBytes_congr cfg hl.endChunk (hs b c hc).1).symm

theorem bucket_le (hB : Buckets cfg h cs L) {b : Nat} (hb : b < numBuckets cfg h) :
    ((L b).map (chunkUsableBytes cfg h)).sum ≤ h.freeBytes := by
  rw [hB.free_bytes, listedBytes]
  exact Finset.single_le_sum (f := fun b => ((L b).map (chunkUsableBytes cfg h)).sum)
    (fun _ _ => Nat.zero_le _) (Finset.mem_range.2 hb)

theorem removeBidx (hB : Buckets cfg h cs L) {b c : Nat} (hc : c ∈ L b) :
    ∃ A B, L b = A ++ c :: B ∧
      Buckets cfg (freeListRemoveBidx cfg h c b) cs (Function.update L b (B ++ A)) := by
  obtain ⟨A, B, hAB⟩ := List.append_of_mem hc
  have hr := hB.ring b
  rw [hAB] at hr
  have hbn := hB.lt_numBuckets hc
  have hb32 : b < 32 := by have := hB.bound; omega
  have hle := hB.bucket_le hbn
  rw [hAB] at hle
  simp only [List.map_append, List.map_cons, List.sum_append, List.sum_cons] at hle
  refine ⟨A, B, hAB, ?_⟩
  by_cases hself : nextFreeChunk h c = c
  · obtain ⟨rfl, rfl⟩ := hr.next_eq_self_iff.1 hself
    simp only [nextFreeChunk] at hself
    refine hB.update hbn (freeListRemoveBidx_sameLayout cfg h c b) Ring.nil
      (fun _ _ _ _ => by simp [freeListRemoveBidx, hself]) (fun b' _ => ?_) (fun i => ?_)
      (by simp) ?_
    · by_cases e : b' = b <;> simp [freeListRemoveBidx, hself, e]
    · by_cases e : i = b
      · subst e; simp [freeListRemoveBidx, hself, getLsbD_bit hb32]
      · simp [freeListRemoveBidx, hself, getLsbD_bit hb32, e]
        exact BitVec.lt_of_getLsbD
    · rw [freeListRemoveBidx_freeBytes, hAB]
      simp only [List.map_nil, List.sum_nil, List.nil_append, List.map_cons, List.sum_cons] at hle ⊢
      omega
  · have hne : B ++ A ≠ [] := by
      intro e
      exact hself (hr.next_eq_self_iff.2 (List.append_eq_nil_iff.1 e).symm)
    simp only [nextFreeChunk] at hself
    have hrot : Ring (nextFreeChunk h) (prevFreeChunk h) (c :: (B ++ A)) := by
      simpa using hr.rotate_append (A := A) (B := c :: B)
    have hsec := hrot.next_rotate
    have hfm : prevFreeChunk h c ∈ L b := hAB ▸ hr.prev_mem (by simp)
    have hsm : nextFreeChunk h c ∈ L b := hAB ▸ hr.next_mem (by simp)
    have hn : ∀ d, nextFreeChunk (freeListRemoveBidx cfg h c b) d =
        if d = prevFreeChunk h c then nextFreeChunk h c else nextFreeChunk h d := fun d => by
      by_cases e : d = (h.chunks c).freePrev <;>
        simp [freeListRemoveBidx, hself, setPrevFreeChunk, setNextFreeChunk, e]
    have hp : ∀ d, prevFreeChunk (freeListRemoveBidx cfg h c b) d =
        if d = nextFreeChunk h c then prevFreeChunk h c else prevFreeChunk h d := fun d => by
      by_cases e : d = (h.chunks c).freeNext <;>
        simp [freeListRemoveBidx, hself, setPrevFreeChunk, setNextFreeChunk, e]
    refine hB.update hbn (freeListRemoveBidx_sameLayout cfg h c b)
      (hr.remove hne (fun a ha => by rw [hn, if_neg ha]) (by rw [hn, if_pos rfl])
        (fun a ha => by rw [hp, if_neg ha]) (by rw [hp, if_pos rfl]))
      (fun b' hb' d hd => ?_) (fun b' _ => ?_) (fun i => ?_)
      (fun d hd => hB.mem b d (by rw [hAB]; simp only [List.mem_append, List.mem_cons] at hd ⊢; tauto)) ?_
    · have h1 : d ≠ prevFreeChunk h c := fun e => hb' (hB.eq_of_mem (e ▸ hd) hfm)
      have h2 : d ≠ nextFreeChunk h c := fun e => hb' (hB.eq_of_mem (e ▸ hd) hsm)
      rw [hn, hp, if_neg h1, if_neg h2]
      exact ⟨rfl, rfl⟩
    · obtain ⟨y, ys, hy⟩ := List.exists_cons_of_ne_nil hne
      simp only [hy, List.cons_append, List.head_cons, nextFreeChunk] at hsec
      have hyc : y ≠ c := hsec ▸ hself
      by_cases e : b' = b <;>
        simp [freeListRemoveBidx, setPrevFreeChunk, setNextFreeChunk, e, hy, hsec, hyc]
    · have hl : L b ≠ [] := by rw [hAB]; simp
      by_cases e : i = b
      · subst e
        simp [freeListRemoveBidx, setPrevFreeChunk, setNextFreeChunk, hself, hB.avail, hne, hl]
      · simp [freeListRemoveBidx, setPrevFreeChunk, setNextFreeChunk, hself, e]
    · rw [freeListRemoveBidx_freeBytes, hAB]
      simp only [List.map_append, List.sum_append, List.map_cons, List.sum_cons] at hle ⊢
      omega

theorem addBidx (hB : Buckets cfg h cs L) {b c : Nat} (hcs : c ∈ cs) (hpos : ∀ d ∈ cs, 0 < d)
    (hu : chunkUsed h c = false) (hun : undersizedChunk cfg h c = false)
    (hbk : bucketIdx cfg h (chunkSize h c) = b) (hsz : chunkSize h c ≤ h.endChunk)
    (hnot : ∀ b', c ∉ L b') :
    Buckets cfg (freeListAddBidx cfg h c b) cs (Function.update L b (L b ++ [c])) := by
  have hbn : b < numBuckets cfg h := by
    have := bucketIdx_mono cfg h hsz
    simp only [numBuckets]; omega
  have hb32 : b < 32 := by have := hB.bound; omega
  have hmem : ∀ d ∈ L b ++ [c], d ∈ cs ∧ chunkUsed h d = false ∧
      undersizedChunk cfg h d = false ∧ bucketIdx cfg h (chunkSize h d) = b := by
    intro d hd
    rcases List.mem_append.1 hd with hd | hd
    · exact hB.mem b d hd
    · rw [List.mem_singleton.1 hd]; exact ⟨hcs, hu, hun, hbk⟩
  have hfree : (freeListAddBidx cfg h c b).freeBytes + ((L b).map (chunkUsableBytes cfg h)).sum =
      h.freeBytes + ((L b ++ [c]).map (chunkUsableBytes cfg h)).sum := by
    rw [freeListAddBidx_freeBytes]
    simp only [List.map_append, List.map_cons, List.map_nil, List.sum_append, List.sum_cons,
      List.sum_nil]
    omega
  have hr := hB.ring b
  have hhead := hB.head b hbn
  have havail := hB.avail b
  rcases hL : L b with _ | ⟨x, xs⟩
  · rw [hL] at hmem hfree hhead havail
    simp only [List.nil_append] at hmem hfree ⊢
    have h0 : h.buckets b = 0 := hhead
    have hn : ∀ d, nextFreeChunk (freeListAddBidx cfg h c b) d =
        if d = c then c else nextFreeChunk h d := fun d => by
      by_cases e : d = c <;> simp [freeListAddBidx, h0, setPrevFreeChunk, setNextFreeChunk, e]
    have hp : ∀ d, prevFreeChunk (freeListAddBidx cfg h c b) d =
        if d = c then c else prevFreeChunk h d := fun d => by
      by_cases e : d = c <;> simp [freeListAddBidx, h0, setPrevFreeChunk, setNextFreeChunk, e]
    refine hB.update hbn (freeListAddBidx_sameLayout cfg h c b)
      (Ring.singleton (by rw [hn, if_pos rfl]) (by rw [hp, if_pos rfl]))
      (fun b' _ d hd => ?_) (fun b' _ => ?_) (fun i => ?_) hmem (by rw [hL]; simpa using hfree)
    · have e : d ≠ c := fun e => hnot b' (e ▸ hd)
      rw [hn, hp, if_neg e, if_neg e]
      exact ⟨rfl, rfl⟩
    · by_cases e : b' = b <;> simp [freeListAddBidx, h0, setPrevFreeChunk, setNextFreeChunk, e]
    · by_cases e : i = b
      · subst e; simp [freeListAddBidx, h0, setPrevFreeChunk, setNextFreeChunk, getLsbD_bit hb32]
      · simp [freeListAddBidx, h0, setPrevFreeChunk, setNextFreeChunk, getLsbD_bit hb32, e]
  · rw [hL] at hmem hfree hhead havail hr
    have hx : x ∈ L b := by rw [hL]; simp
    have hx0 : x ≠ 0 := Nat.ne_of_gt (hpos x (hB.mem b x hx).1)
    have hxb : h.buckets b = x := hhead
    have hcx : c ∉ x :: xs := hL ▸ hnot b
    have hfm : prevFreeChunk h x ∈ L b := hL ▸ hr.prev_mem (by simp)
    have hfc : prevFreeChunk h x ≠ c := fun e => hnot b (e ▸ hfm)
    have hxc : x ≠ c := fun e => hcx (by simp [e])
    have hn : ∀ d, nextFreeChunk (freeListAddBidx cfg h c b) d =
        if d = prevFreeChunk h x then c else if d = c then x else nextFreeChunk h d := fun d => by
      by_cases e1 : d = (h.chunks x).freePrev
      · subst e1; simp [freeListAddBidx, hx0, hxb, setPrevFreeChunk, setNextFreeChunk]
      · by_cases e2 : d = c <;>
          simp [freeListAddBidx, hx0, hxb, setPrevFreeChunk, setNextFreeChunk, e1, e2]
    have hp : ∀ d, prevFreeChunk (freeListAddBidx cfg h c b) d =
        if d = x then c else if d = c then prevFreeChunk h x else prevFreeChunk h d := fun d => by
      by_cases e1 : d = x
      · subst e1; simp [freeListAddBidx, hx0, hxb, setPrevFreeChunk, setNextFreeChunk]
      · by_cases e2 : d = c <;>
          simp [freeListAddBidx, hx0, hxb, setPrevFreeChunk, setNextFreeChunk, e1, e2]
    refine hB.update hbn (freeListAddBidx_sameLayout cfg h c b)
      (hr.snoc hcx (fun a h1 h2 => by rw [hn, if_neg h1, if_neg h2])
        (by rw [hn, if_pos rfl]) (by rw [hn, if_neg (Ne.symm hfc), if_pos rfl])
        (fun a h1 h2 => by rw [hp, if_neg h1, if_neg h2]) (by rw [hp, if_pos rfl])
        (by rw [hp, if_neg (Ne.symm hxc), if_pos rfl]))
      (fun b' hb' d hd => ?_) (fun b' _ => ?_) (fun i => ?_) hmem (by rw [hL]; exact hfree)
    · have e1 : d ≠ prevFreeChunk h x := fun e => hb' (hB.eq_of_mem (e ▸ hd) hfm)
      have e2 : d ≠ c := fun e => hnot b' (e ▸ hd)
      have e3 : d ≠ x := fun e => hb' (hB.eq_of_mem (e ▸ hd) hx)
      rw [hn, hp, if_neg e1, if_neg e2, if_neg e3, if_neg e2]
      exact ⟨rfl, rfl⟩
    · by_cases e : b' = b
      · subst e; simp [freeListAddBidx, hx0, setPrevFreeChunk, setNextFreeChunk, hxb]
      · simp [freeListAddBidx, hx0, hxb, setPrevFreeChunk, setNextFreeChunk, e]
    · by_cases e : i = b
      · subst e; simp [freeListAddBidx, hx0, hxb, setPrevFreeChunk, setNextFreeChunk, havail]
      · simp [freeListAddBidx, hx0, hxb, setPrevFreeChunk, setNextFreeChunk, e]

theorem rotate (hB : Buckets cfg h cs L) {b x : Nat} {xs : List Nat} (hL : L b = x :: xs) :
    Buckets cfg { h with buckets := Function.update h.buckets b (nextFreeChunk h x) } cs
      (Function.update L b (xs ++ [x])) := by
  have hx : x ∈ L b := by rw [hL]; simp
  have hbn := hB.lt_numBuckets hx
  have hr := hB.ring b
  rw [hL] at hr
  have hsec := hr.next_rotate
  refine hB.update hbn ⟨rfl, rfl, fun _ => rfl, fun _ => rfl, fun _ => rfl, rfl⟩ hr.rotate
    (fun _ _ _ _ => ⟨rfl, rfl⟩) (fun b' _ => ?_) (fun i => ?_) (fun d hd => hB.mem b d ?_) ?_
  · by_cases e : b' = b
    · subst e
      have hsec' : (h.chunks x).freeNext = (xs ++ [x]).headD 0 := by
        rcases xs with _ | ⟨y, ys⟩ <;> simpa using hsec
      simp [hsec']
    · simp [e]
  · by_cases e : i = b
    · subst e; simp [hB.avail, hL]
    · simp [e]
  · rw [hL]; simp only [List.mem_append, List.mem_cons] at hd ⊢; tauto
  · rw [hL]
    simp only [List.map_append, List.map_cons, List.map_nil, List.sum_append, List.sum_cons,
      List.sum_nil]
    omega

end Buckets

end Buckets

end Zephyr.Heap
