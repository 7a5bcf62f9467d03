import Zephyr.Heap.Lists

namespace Zephyr.Heap

open Zephyr.Lib

-- Two neighbours are not both free, unless one of them is exempt.
def FreeApart (h : ZHeap) (P : List Nat) (p q : Nat) : Prop :=
  p ∈ P ∨ q ∈ P ∨ chunkUsed h p = true ∨ chunkUsed h q = true

theorem freeApart_iff {h : ZHeap} {P : List Nat} {p q : Nat} :
    FreeApart h P p q ↔ (p ∈ P ∨ chunkUsed h p = true) ∨ (q ∈ P ∨ chunkUsed h q = true) := by
  unfold FreeApart; tauto

-- A step that frees nothing outside `P'`: everything used or exempt before
-- stays used or becomes exempt.
theorem FreeApart.imp {h h' : ZHeap} {P P' : List Nat}
    (hk : ∀ d, d ∈ P ∨ chunkUsed h d = true → d ∈ P' ∨ chunkUsed h' d = true) {p q : Nat}
    (hpq : FreeApart h P p q) : FreeApart h' P' p q :=
  freeApart_iff.2 ((freeApart_iff.1 hpq).imp (hk p) (hk q))

variable (cfg : HeapConfig)

-- The heap between the steps of an operation: the chunks of `P` are exempt
-- from being on their free list and from the no-two-free-neighbours rule.
structure HeapWf (h : ZHeap) (cs : List Nat) (L : Nat → List Nat) (P : List Nat) : Prop where
  tiling : Tiling h cs
  buckets : Buckets cfg h cs L
  used0 : chunkUsed h 0 = true
  usedEnd : chunkUsed h h.endChunk = true
  listed : ∀ c ∈ cs, c ∉ P → chunkUsed h c = false → undersizedChunk cfg h c = false →
    c ∈ L (bucketIdx cfg h (chunkSize h c))
  unlisted : ∀ c ∈ P, ∀ b, c ∉ L b
  noAdj : cs.IsChain (FreeApart h P)
  usedOk : ∀ c ∈ cs, chunkUsed h c = true → undersizedChunk cfg h c = false

variable {cfg}

namespace HeapWf

variable {h h' : ZHeap} {cs : List Nat} {L L' : Nat → List Nat} {P Q : List Nat}

theorem unlisted_of_used (w : HeapWf cfg h cs L P) {c : Nat} (hc : chunkUsed h c = true) (b : Nat) :
    c ∉ L b := fun hm => by
  have := (w.buckets.mem b c hm).2.1
  simp_all

theorem noAdj_mono (w : HeapWf cfg h cs L P) (hPQ : ∀ d ∈ P, d ∈ Q) :
    cs.IsChain (FreeApart h Q) :=
  w.noAdj.imp fun _ _ => FreeApart.imp fun d hd => hd.imp_left (hPQ d)

theorem bucket_lt (w : HeapWf cfg h cs L P) {c : Nat} (hc : c ∈ cs) :
    bucketIdx cfg h (chunkSize h c) < numBuckets cfg h := by
  have := bucketIdx_mono cfg h (show chunkSize h c ≤ h.endChunk by
    have := w.tiling.right_le hc; simp only [chunkSize]; omega)
  simp only [numBuckets]; omega

-- A free chunk that is not exempt has used (or exempt) neighbours.
theorem right_used (w : HeapWf cfg h cs L P) {c : Nat} (hc : c ∈ cs) (hcP : c ∉ P)
    (hu : chunkUsed h c = false) : rightChunk h c ∈ P ∨ chunkUsed h (rightChunk h c) = true := by
  obtain ⟨A, B, rfl⟩ := List.append_of_mem hc
  obtain ⟨r, Y, hY, hr⟩ := w.tiling.right_eq
  rw [hr]
  cases B with
  | nil =>
    rw [List.nil_append, List.cons.injEq] at hY
    rw [← hY.1]; exact Or.inr w.usedEnd
  | cons r' B' =>
    rw [List.cons_append, List.cons.injEq] at hY
    rw [← hY.1]
    have := (List.isChain_append_cons_cons.1 w.noAdj).2.1
    rcases this with h1 | h1 | h1 | h1
    · exact absurd h1 hcP
    · exact Or.inl h1
    · simp_all
    · exact Or.inr h1

theorem left_used (w : HeapWf cfg h cs L P) {c : Nat} (hc : c ∈ cs) (hcP : c ∉ P)
    (hu : chunkUsed h c = false) : leftChunk h c ∈ P ∨ chunkUsed h (leftChunk h c) = true := by
  obtain ⟨A, B, rfl⟩ := List.append_of_mem hc
  rw [w.tiling.left_eq]
  rcases List.eq_nil_or_concat' A with rfl | ⟨A', l, rfl⟩
  · exact Or.inr (by simpa using w.used0)
  · have hch := w.noAdj
    rw [show A' ++ [l] ++ c :: B = A' ++ l :: c :: B by simp] at hch
    have e : (0 :: (A' ++ [l])).getLast (List.cons_ne_nil 0 _) = l := by simp
    rw [e]
    rcases (List.isChain_append_cons_cons.1 hch).2.1 with h1 | h1 | h1 | h1
    · exact Or.inl h1
    · exact absurd h1 hcP
    · exact Or.inr h1
    · simp_all

-- Free-list operations: the layout stays, the lists change.
theorem relist (w : HeapWf cfg h cs L P) (hl : SameLayout h h') (hB : Buckets cfg h' cs L')
    (hQ : ∀ d ∈ Q, ∀ b, d ∉ L' b)
    (hadj : cs.IsChain (FreeApart h Q))
    (hlisted : ∀ c ∈ cs, c ∉ Q → chunkUsed h c = false → undersizedChunk cfg h c = false →
      c ∈ L' (bucketIdx cfg h (chunkSize h c))) : HeapWf cfg h' cs L' Q := by
  have hu : ∀ c, chunkUsed h' c = chunkUsed h c := hl.used
  have hun : ∀ c, undersizedChunk cfg h' c = undersizedChunk cfg h c :=
    fun c => undersizedChunk_congr cfg hl.endChunk (hl.size c)
  have hbi : ∀ c, bucketIdx cfg h' (chunkSize h' c) = bucketIdx cfg h (chunkSize h c) := fun c => by
    simp only [chunkSize]; rw [bucketIdx_congr cfg hl.endChunk, hl.size c]
  refine ⟨w.tiling.congr hl.endChunk hl.size hl.leftSize, hB, by rw [hu]; exact w.used0, by rw [hu, hl.endChunk]; exact w.usedEnd,
    fun c hc hQc hf hs => ?_, hQ, ?_, fun c hc hcu => ?_⟩
  · rw [hbi]; exact hlisted c hc hQc (by rwa [← hu]) (by rwa [← hun])
  · exact hadj.imp fun _ _ => FreeApart.imp fun d hd => by rwa [hu]
  · rw [hun]; exact w.usedOk c hc (by rwa [← hu])

theorem mono (w : HeapWf cfg h cs L P) (hPQ : ∀ d ∈ P, d ∈ Q) (hQ : ∀ d ∈ Q, ∀ b, d ∉ L b) :
    HeapWf cfg h cs L Q :=
  w.relist ⟨rfl, rfl, fun _ => rfl, fun _ => rfl, fun _ => rfl, rfl⟩ w.buckets hQ (w.noAdj_mono hPQ)
    fun c hc hQc hf hs => w.listed c hc (fun hP => hQc (hPQ c hP)) hf hs

-- free_list_remove: the chunk leaves its list and becomes pending.
theorem remove (w : HeapWf cfg h cs L P) {c : Nat} (hc : c ∈ cs) (hP : c ∉ P)
    (hu : chunkUsed h c = false) :
    ∃ L', HeapWf cfg (freeListRemove cfg h c) cs L' (c :: P) := by
  have hPc : ∀ d ∈ P, d ∈ c :: P := fun d hd => List.mem_cons_of_mem c hd
  unfold freeListRemove
  by_cases hun : undersizedChunk cfg h c = false
  · have hcL := w.listed c hc hP hu hun
    obtain ⟨A, B, hAB, hB'⟩ := w.buckets.removeBidx hcL
    have hnd : (A ++ c :: B).Nodup := hAB ▸ (w.buckets.ring _).nodup
    rw [hun, Bool.not_false, if_pos rfl]
    refine ⟨_, w.relist (freeListRemoveBidx_sameLayout cfg h c _) hB' (fun d hd b => ?_)
      (w.noAdj_mono hPc) fun d hd hQd hf hs => ?_⟩
    · rcases List.mem_cons.1 hd with rfl | hd
      · by_cases e : b = bucketIdx cfg h (chunkSize h d)
        · subst e
          rw [Function.update_self]
          intro hm
          rw [List.nodup_middle] at hnd
          exact (List.nodup_cons.1 hnd).1 (by simpa [or_comm] using hm)
        · rw [Function.update_of_ne e]
          exact fun hm => e (w.buckets.eq_of_mem hm hcL)
      · by_cases e : b = bucketIdx cfg h (chunkSize h c)
        · subst e
          rw [Function.update_self]
          intro hm
          exact w.unlisted d hd _ (by rw [hAB]; simp only [List.mem_append, List.mem_cons] at hm ⊢; tauto)
        · rw [Function.update_of_ne e]; exact w.unlisted d hd b
    · have hdc : d ≠ c := fun e => hQd (by simp [e])
      have hdL := w.listed d hd (fun h => hQd (by simp [h])) hf hs
      by_cases e : bucketIdx cfg h (chunkSize h d) = bucketIdx cfg h (chunkSize h c)
      · rw [e, Function.update_self]
        rw [e, hAB] at hdL
        simp only [List.mem_append, List.mem_cons] at hdL ⊢
        tauto
      · rwa [Function.update_of_ne e]
  · rw [Bool.not_eq_false] at hun
    rw [hun, Bool.not_true]
    exact ⟨L, w.mono hPc fun d hd b => by
      rcases List.mem_cons.1 hd with rfl | hd
      · exact fun hm => by simp_all [(w.buckets.mem b d hm).2.2.1]
      · exact w.unlisted d hd b⟩

-- free_list_add: a pending chunk whose neighbours are in use (or pending)
-- goes on the list of its bucket.
theorem add {c : Nat} (w : HeapWf cfg h cs L (c :: Q)) (hcQ : c ∉ Q) (hc : c ∈ cs)
    (hu : chunkUsed h c = false)
    (hl : leftChunk h c ∈ Q ∨ chunkUsed h (leftChunk h c) = true)
    (hr : rightChunk h c ∈ Q ∨ chunkUsed h (rightChunk h c) = true) :
    ∃ L', HeapWf cfg (freeListAdd cfg h c) cs L' Q := by
  have hadj : cs.IsChain (FreeApart h Q) := by
    refine List.isChain_iff_forall_rel_of_append_cons_cons.2 fun p q l₁ l₂ e => ?_
    have hpq := List.isChain_iff_forall_rel_of_append_cons_cons.1 w.noAdj e
    have hA := w.tiling.adj (X := 0 :: l₁) (Y := l₂ ++ [h.endChunk]) (p := p) (q := q) (by simp [e])
    by_cases hp : p = c
    · subst hp; rw [← hA.1]; tauto
    · by_cases hq : q = c
      · subst hq; rw [← hA.2]; tauto
      · simp only [FreeApart, List.mem_cons, hp, hq, false_or] at hpq
        exact hpq
  have hQ : ∀ d ∈ Q, ∀ b, d ∉ L b := fun d hd => w.unlisted d (List.mem_cons_of_mem c hd)
  have hlisted : ∀ d ∈ cs, d ∉ Q → d ≠ c → chunkUsed h d = false →
      undersizedChunk cfg h d = false → d ∈ L (bucketIdx cfg h (chunkSize h d)) :=
    fun d hd hQd hdc hf hs => w.listed d hd (by simp [hQd, hdc]) hf hs
  unfold freeListAdd
  by_cases hun : undersizedChunk cfg h c = false
  · have hB' := w.buckets.addBidx hc (fun d hd => w.tiling.pos_of_mem hd) hu hun rfl
      (by have := w.tiling.right_le hc; simp only [chunkSize]; omega) (w.unlisted c (by simp))
    rw [hun, Bool.not_false, if_pos rfl]
    refine ⟨_, w.relist (freeListAddBidx_sameLayout cfg h c _) hB' (fun d hd b => ?_) hadj
      fun d hd hQd hf hs => ?_⟩
    · have hdc : d ≠ c := fun e => hcQ (e ▸ hd)
      by_cases e : b = bucketIdx cfg h (chunkSize h c)
      · subst e; rw [Function.update_self]; simp [hdc, hQ d hd]
      · rw [Function.update_of_ne e]; exact hQ d hd b
    · by_cases hdc : d = c
      · subst hdc; simp
      · have := hlisted d hd hQd hdc hf hs
        by_cases e : bucketIdx cfg h (chunkSize h d) = bucketIdx cfg h (chunkSize h c)
        · rw [e, Function.update_self]; rw [e] at this; exact List.mem_append_left _ this
        · rwa [Function.update_of_ne e]
  · rw [Bool.not_eq_false] at hun
    rw [hun, Bool.not_true]
    refine ⟨L, w.relist ⟨rfl, rfl, fun _ => rfl, fun _ => rfl, fun _ => rfl, rfl⟩ w.buckets hQ hadj
      fun d hd hQd hf hs => ?_⟩
    by_cases hdc : d = c
    · subst hdc; simp_all
    · exact hlisted d hd hQd hdc hf hs

theorem rotate (w : HeapWf cfg h cs L P) {b x : Nat} {xs : List Nat} (hL : L b = x :: xs) :
    HeapWf cfg { h with buckets := Function.update h.buckets b (nextFreeChunk h x) } cs
      (Function.update L b (xs ++ [x])) P := by
  have hmem : ∀ d, d ∈ Function.update L b (xs ++ [x]) b ↔ d ∈ L b := fun d => by
    rw [hL, Function.update_self]; simp [or_comm]
  refine w.relist ⟨rfl, rfl, fun _ => rfl, fun _ => rfl, fun _ => rfl, rfl⟩ (w.buckets.rotate hL)
    (fun d hd b' => ?_) w.noAdj fun d hd hQd hf hs => ?_
  · by_cases e : b' = b
    · subst e; rw [hmem]; exact w.unlisted d hd b'
    · rw [Function.update_of_ne e]; exact w.unlisted d hd b'
  · have := w.listed d hd hQd hf hs
    by_cases e : bucketIdx cfg h (chunkSize h d) = b
    · rw [e, hmem]; rwa [e] at this
    · rwa [Function.update_of_ne e]

-- Layout changes: the chunks of `T` are rewritten, every other chunk keeps
-- its size and used bit, and the free lists are not touched.
theorem relayout (w : HeapWf cfg h cs L P) {cs' P' T : List Nat} (hl : SameLists h h')
    (t : Tiling h' cs') (hkeep : ∀ d, d ∉ T → (h'.chunks d).size = (h.chunks d).size ∧
      (h'.chunks d).used = (h.chunks d).used)
    (hT : ∀ b, ∀ d ∈ L b, d ∉ T) (hcs : ∀ b, ∀ d ∈ L b, d ∈ cs') (hcs' : ∀ d ∈ cs', d ∉ T → d ∈ cs)
    (h0 : 0 ∉ T) (hend : h.endChunk ∉ T)
    (hTP : ∀ d ∈ T, d ∈ P' ∨ chunkUsed h' d = true)
    (hPP : ∀ d ∈ P, d ∉ T → d ∈ P') (hunl : ∀ d ∈ P', ∀ b, d ∉ L b)
    (hadj : cs'.IsChain (FreeApart h' P'))
    (hTok : ∀ d ∈ T, chunkUsed h' d = true → undersizedChunk cfg h' d = false) :
    HeapWf cfg h' cs' L P' := by
  have hbi : ∀ d, d ∉ T → bucketIdx cfg h' (chunkSize h' d) = bucketIdx cfg h (chunkSize h d) :=
    fun d hd => by simp only [chunkSize]; rw [bucketIdx_congr cfg hl.endChunk, (hkeep d hd).1]
  have hun : ∀ d, d ∉ T → undersizedChunk cfg h' d = undersizedChunk cfg h d :=
    fun d hd => undersizedChunk_congr cfg hl.endChunk (hkeep d hd).1
  have hu : ∀ d, d ∉ T → chunkUsed h' d = chunkUsed h d := fun d hd => (hkeep d hd).2
  refine ⟨t, w.buckets.congr hl (fun b d hd => hkeep d (hT b d hd)) hcs, ?_, ?_,
    fun d hd hPd hf hs => ?_, hunl, hadj, fun d hd hdu => ?_⟩
  · rw [hu 0 h0]; exact w.used0
  · rw [hl.endChunk, hu _ hend]; exact w.usedEnd
  · have hdT : d ∉ T := fun hm => by
      rcases hTP d hm with h1 | h1
      · exact hPd h1
      · exact absurd h1 (by simpa using hf)
    rw [hbi d hdT]
    exact w.listed d (hcs' d hd hdT) (fun hm => hPd (hPP d hm hdT)) (by rwa [← hu d hdT])
      (by rwa [← hun d hdT])
  · by_cases hdT : d ∈ T
    · exact hTok d hdT hdu
    · rw [hun d hdT]; exact w.usedOk d (hcs' d hd hdT) (by rwa [← hu d hdT])

-- Writes that leave every chunk header alone: the statistics fields.
theorem of_chunks (w : HeapWf cfg h cs L P) (hc : h'.chunks = h.chunks) (hl : SameLists h h') :
    HeapWf cfg h' cs L P :=
  w.relayout hl (w.tiling.congr hl.endChunk (by simp [hc]) (by simp [hc]))
    (fun d _ => by simp [hc]) (fun _ _ _ => List.not_mem_nil) (fun b d hd => (w.buckets.mem b d hd).1)
    (fun d hd _ => hd) List.not_mem_nil List.not_mem_nil (fun _ hd => absurd hd List.not_mem_nil)
    (fun d hd _ => hd) w.unlisted (w.noAdj.imp fun _ _ => FreeApart.imp fun d hd => by simpa [hc] using hd)
    (fun _ hd => absurd hd List.not_mem_nil)

-- split_chunks of a pending chunk: both halves are free and pending.
theorem split {A B : List Nat} {lc rc : Nat} (w : HeapWf cfg h (A ++ lc :: B) L P) (hP : lc ∈ P)
    (hlr : lc < rc) (hr : rc < lc + (h.chunks lc).size) :
    HeapWf cfg (splitChunks h lc rc) (A ++ lc :: rc :: B) L (rc :: P) := by
  have t := w.tiling
  obtain ⟨hA, hB⟩ := t.bounds
  have hus := fun d => splitChunks_used h d hlr hr
  have hkeep : ∀ d, d ∉ [lc, rc] → ((splitChunks h lc rc).chunks d).size = (h.chunks d).size ∧
      ((splitChunks h lc rc).chunks d).used = (h.chunks d).used := fun d hd => by
    simp only [List.mem_cons, List.not_mem_nil, or_false, not_or] at hd
    rw [splitChunks_size h d hlr hr, hus]; simp [hd.1, hd.2]
  have hrc : ∀ d ∈ A ++ lc :: B, d ≠ rc := by
    intro d hd
    simp only [List.mem_append, List.mem_cons] at hd
    rcases hd with hd | rfl | hd
    · have := hA d hd; omega
    · omega
    · have := hB d hd; omega
  have hpos := t.pos_of_mem (c := lc) (by simp)
  have hend := t.right_le (c := lc) (by simp)
  have hTP : ∀ d ∈ [lc, rc], d ∈ rc :: P := fun d hd => by
    simp only [List.mem_cons, List.not_mem_nil, or_false] at hd
    rcases hd with rfl | rfl
    · exact List.mem_cons_of_mem _ hP
    · exact List.mem_cons_self
  have hk : ∀ d, d ∈ P ∨ chunkUsed h d = true →
      d ∈ rc :: P ∨ chunkUsed (splitChunks h lc rc) d = true := fun d hd => by
    by_cases hdT : d ∈ [lc, rc]
    · exact Or.inl (hTP d hdT)
    · simp only [chunkUsed, (hkeep d hdT).2]
      exact hd.imp_left (List.mem_cons_of_mem rc)
  refine w.relayout (splitChunks_sameLists h lc rc) (t.split hlr hr) hkeep
    (fun b d hd hm => ?_) (fun b d hd => ?_) (fun d hd hdT => ?_) (by simp; omega)
    (by simp; omega) (fun d hd => Or.inl (hTP d hd)) (fun d hd _ => List.mem_cons_of_mem rc hd)
    (fun d hd b => ?_) ?_ (fun d hd hdu => absurd hdu (by simp [hus, List.mem_pair.1 hd]))
  · have hdcs := (w.buckets.mem b d hd).1
    rcases List.mem_pair.1 hm with rfl | rfl
    · exact w.unlisted _ hP b hd
    · exact hrc _ hdcs rfl
  · have := (w.buckets.mem b d hd).1
    simp only [List.mem_append, List.mem_cons] at this ⊢; tauto
  · simp only [List.mem_cons, List.not_mem_nil, or_false, not_or] at hdT
    simp only [List.mem_append, List.mem_cons] at hd ⊢; tauto
  · rcases List.mem_cons.1 hd with rfl | hd
    · exact fun hm => hrc d (w.buckets.mem b d hm).1 rfl
    · exact w.unlisted d hd b
  · exact isChain_insert (w.noAdj.imp fun _ _ => FreeApart.imp hk) (Or.inl (by simp [hP]))
      fun _ _ => Or.inl List.mem_cons_self

-- merge_chunks of two pending neighbours: `rc` leaves the layout.
theorem merge {A B : List Nat} {lc rc : Nat} (w : HeapWf cfg h (A ++ lc :: rc :: B) L P)
    (hl : lc ∈ P) (hr : rc ∈ P) : HeapWf cfg (mergeChunks h lc rc) (A ++ lc :: B) L P := by
  have t := w.tiling
  have hpos := t.pos_of_mem (c := lc) (by simp)
  have hlt := t.lt_end (c := lc) (by simp)
  have hne : rc ≠ lc := by
    have := t.nodup
    simp only [List.nodup_append, List.nodup_cons, List.mem_cons] at this
    exact fun e => this.2.1.1 (Or.inl e.symm)
  have hkeep : ∀ d, d ∉ [lc] → ((mergeChunks h lc rc).chunks d).size = (h.chunks d).size ∧
      ((mergeChunks h lc rc).chunks d).used = (h.chunks d).used := fun d hd => by
    rw [List.mem_singleton] at hd
    rw [mergeChunks_size h d hne, mergeChunks_used h d hne]; simp [hd]
  have hk : ∀ d, d ∈ P ∨ chunkUsed h d = true → d ∈ P ∨ chunkUsed (mergeChunks h lc rc) d = true :=
    fun d hd => by
      by_cases hdl : d = lc
      · exact Or.inl (hdl ▸ hl)
      · simpa only [chunkUsed, (hkeep d (by simpa using hdl)).2] using hd
  refine w.relayout (mergeChunks_sameLists h lc rc) t.merge hkeep
    (fun b d hd hm => ?_) (fun b d hd => ?_) (fun d hd _ => ?_) (by simp; omega) (by simp; omega)
    (fun d hd => Or.inl (List.mem_singleton.1 hd ▸ hl)) (fun d hd _ => hd) w.unlisted ?_
    (fun d hd hdu => by rw [List.mem_singleton.1 hd] at hdu; simp [mergeChunks_used h lc hne] at hdu)
  · exact w.unlisted lc hl b (List.mem_singleton.1 hm ▸ hd)
  · have hdr : d ≠ rc := fun e => w.unlisted rc hr b (e ▸ hd)
    have := (w.buckets.mem b d hd).1
    simp only [List.mem_append, List.mem_cons] at this ⊢; tauto
  · simp only [List.mem_append, List.mem_cons] at hd ⊢; tauto
  · exact isChain_erase (w.noAdj.imp fun _ _ => FreeApart.imp hk) fun _ _ => Or.inl hl

-- set_chunk_used(c, true) on a pending chunk: it needs no exemption any more.
theorem setUsed (w : HeapWf cfg h cs L P) {c : Nat} (hc : c ∈ cs) (hcP : c ∈ P)
    (hun : undersizedChunk cfg h c = false) (hQ : ∀ d ∈ P, d ≠ c → d ∈ Q) (hQP : ∀ d ∈ Q, d ∈ P) :
    HeapWf cfg (setChunkUsed h c true) cs L Q := by
  have hkeep : ∀ d, d ∉ [c] → ((setChunkUsed h c true).chunks d).size = (h.chunks d).size ∧
      ((setChunkUsed h c true).chunks d).used = (h.chunks d).used := fun d hd => by
    rw [List.mem_singleton] at hd
    simp [setChunkUsed, hd]
  have hcu : chunkUsed (setChunkUsed h c true) c = true := by simp [setChunkUsed]
  have hk : ∀ d, d ∈ P ∨ chunkUsed h d = true → d ∈ Q ∨ chunkUsed (setChunkUsed h c true) d = true :=
    fun d hd => by
      by_cases hdc : d = c
      · exact Or.inr (hdc ▸ hcu)
      · simp only [chunkUsed, (hkeep d (by simpa using hdc)).2]
        exact hd.imp_left fun hm => hQ d hm hdc
  refine w.relayout (setChunkUsed_sameLists h c true)
    (w.tiling.congr rfl (fun d => by simp [setChunkUsed]) fun d => by simp [setChunkUsed]) hkeep
    (fun b d hd hm => w.unlisted c hcP b (List.mem_singleton.1 hm ▸ hd))
    (fun b d hd => (w.buckets.mem b d hd).1) (fun d hd _ => hd)
    (by simp; have := w.tiling.pos_of_mem hc; omega) (by simp; have := w.tiling.lt_end hc; omega)
    (fun d hd => Or.inr (List.mem_singleton.1 hd ▸ hcu))
    (fun d hd hdc => hQ d hd (by simpa using hdc)) (fun d hd => w.unlisted d (hQP d hd))
    (w.noAdj.imp fun _ _ => FreeApart.imp hk) (fun d hd _ => ?_)
  rw [List.mem_singleton.1 hd]
  have e : undersizedChunk cfg (setChunkUsed h c true) c = undersizedChunk cfg h c := by
    refine undersizedChunk_congr cfg ?_ ?_ <;> simp [setChunkUsed]
  exact e.trans hun

-- set_chunk_used(c, false) on a used chunk: it is free and not yet listed.
theorem setFree (w : HeapWf cfg h cs L P) {c : Nat} (hc : c ∈ cs) (hu : chunkUsed h c = true) :
    HeapWf cfg (setChunkUsed h c false) cs L (c :: P) := by
  have hkeep : ∀ d, d ∉ [c] → ((setChunkUsed h c false).chunks d).size = (h.chunks d).size ∧
      ((setChunkUsed h c false).chunks d).used = (h.chunks d).used := fun d hd => by
    rw [List.mem_singleton] at hd
    simp [setChunkUsed, hd]
  have hk : ∀ d, d ∈ P ∨ chunkUsed h d = true →
      d ∈ c :: P ∨ chunkUsed (setChunkUsed h c false) d = true := fun d hd => by
    by_cases hdc : d = c
    · exact Or.inl (hdc ▸ List.mem_cons_self)
    · simp only [chunkUsed, (hkeep d (by simpa using hdc)).2]
      exact hd.imp_left (List.mem_cons_of_mem c)
  have hpos := w.tiling.pos_of_mem hc
  have hlt := w.tiling.lt_end hc
  refine w.relayout (setChunkUsed_sameLists h c false)
    (w.tiling.congr rfl (fun d => by simp [setChunkUsed]) fun d => by simp [setChunkUsed]) hkeep
    (fun b d hd hm => w.unlisted_of_used hu b (List.mem_singleton.1 hm ▸ hd))
    (fun b d hd => (w.buckets.mem b d hd).1) (fun d hd _ => hd) (by simp; omega) (by simp; omega)
    (fun d hd => Or.inl (List.mem_singleton.1 hd ▸ List.mem_cons_self))
    (fun d hd _ => List.mem_cons_of_mem c hd) (fun d hd b => ?_)
    (w.noAdj.imp fun _ _ => FreeApart.imp hk)
    (fun d hd hdu => absurd hdu (by simp [setChunkUsed, List.mem_singleton.1 hd]))
  rcases List.mem_cons.1 hd with rfl | hd
  · exact w.unlisted_of_used hu b
  · exact w.unlisted d hd b

end HeapWf

end Zephyr.Heap
