import Zephyr.Heap.Field
import Zephyr.Lib.Ring

namespace Zephyr.Heap

open Zephyr.Lib

def Adj (h : ZHeap) (p q : Nat) : Prop := rightChunk h p = q ∧ leftChunk h q = p

theorem Adj.eq {h : ZHeap} {p q : Nat} (a : Adj h p q) : q = p + (h.chunks p).size := a.1.symm

theorem isChain_adj_frame {h h' : ZHeap} {S : List Nat} (hS : S.IsChain (Adj h))
    (H : ∀ p ∈ S, ∀ q ∈ S.tail, Adj h p q →
      (h'.chunks p).size = (h.chunks p).size ∧ (h'.chunks q).leftSize = (h.chunks q).leftSize) :
    S.IsChain (Adj h') :=
  hS.imp_of_mem_tail_imp fun p q hp hq hpq => by
    obtain ⟨hs, hl⟩ := H p hp q hq hpq
    simpa [Adj, hs, hl] using hpq

-- The chunks between chunk 0 and the end marker, in address order: walking
-- right_chunk from chunk 0 visits exactly them and then end_chunk.
structure Tiling (h : ZHeap) (cs : List Nat) : Prop where
  chain : (0 :: cs ++ [h.endChunk]).IsChain (Adj h)
  pos : ∀ c ∈ 0 :: cs, 0 < chunkSize h c

namespace Tiling

variable {h h' : ZHeap} {cs A B : List Nat}

theorem congr (t : Tiling h cs) (he : h'.endChunk = h.endChunk)
    (hs : ∀ c, (h'.chunks c).size = (h.chunks c).size)
    (hl : ∀ c, (h'.chunks c).leftSize = (h.chunks c).leftSize) : Tiling h' cs := by
  refine ⟨?_, fun c hc => by simpa [hs c] using t.pos c hc⟩
  rw [he]
  exact isChain_adj_frame t.chain fun p _ q _ _ => ⟨hs p, hl q⟩

theorem sorted (t : Tiling h cs) : (0 :: cs ++ [h.endChunk]).Pairwise (· < ·) := by
  obtain ⟨hc, hl⟩ := isChain_concat.1 t.chain
  refine List.isChain_iff_pairwise.1 (isChain_concat.2 ⟨hc.imp_of_mem_imp fun p q hp _ hpq => ?_, ?_⟩)
  · have := t.pos p hp
    simp only [chunkSize] at this
    rw [hpq.eq]
    omega
  · have := t.pos ((0 :: cs).getLast (List.cons_ne_nil 0 cs)) (List.getLast_mem _)
    simp only [chunkSize] at this
    rw [hl.eq]
    omega

theorem adj (t : Tiling h cs) {X Y : List Nat} {p q : Nat}
    (e : 0 :: cs ++ [h.endChunk] = X ++ p :: q :: Y) : Adj h p q :=
  (List.isChain_append_cons_cons.1 (e ▸ t.chain)).2.1

theorem nodup (t : Tiling h cs) : cs.Nodup := by
  have := (List.pairwise_append.1 (List.pairwise_cons.1 t.sorted).2).1
  exact this.imp (fun h => Nat.ne_of_lt h)

theorem pos_of_mem (t : Tiling h cs) {c : Nat} (hc : c ∈ cs) : 0 < c :=
  (List.pairwise_cons.1 t.sorted).1 c (by simp [hc])

theorem lt_end (t : Tiling h cs) {c : Nat} (hc : c ∈ cs) : c < h.endChunk :=
  (List.pairwise_append.1 (List.pairwise_cons.1 t.sorted).2).2.2 c hc h.endChunk (by simp)

-- The frame of a split or a merge: `X` ends with the chunk `lc` being
-- rewritten, and `Y` starts at the right neighbour of the rewritten range.
theorem segments (t : Tiling h (A ++ lc :: B)) :
    ∃ r Y, B ++ [h.endChunk] = r :: Y ∧ r = lc + (h.chunks lc).size ∧
      ((0 :: A) ++ [lc]).IsChain (Adj h) ∧ (r :: Y).IsChain (Adj h) ∧
      (∀ x ∈ 0 :: A, x < lc) ∧ (∀ y ∈ Y, r < y) := by
  obtain ⟨r, Y, hY⟩ := List.exists_cons_of_ne_nil (show B ++ [h.endChunk] ≠ [] by simp)
  have e0 : 0 :: (A ++ lc :: B) ++ [h.endChunk] = (0 :: A) ++ lc :: r :: Y := by simp [← hY]
  have hch := t.chain
  have hs := t.sorted
  rw [e0] at hch hs
  obtain ⟨hX, hlr, hR⟩ := List.isChain_append_cons_cons.1 hch
  obtain ⟨-, hs2, hs3⟩ := List.pairwise_append.1 hs
  exact ⟨r, Y, hY, hlr.eq, hX, hR, fun x hx => hs3 x hx lc (by simp),
    (List.pairwise_cons.1 (List.pairwise_cons.1 hs2).2).1⟩

theorem bounds (t : Tiling h (A ++ lc :: B)) :
    (∀ x ∈ A, x < lc) ∧ ∀ y ∈ B, lc + (h.chunks lc).size ≤ y := by
  obtain ⟨r, Y, hY, hr0, -, -, hlt, hgt⟩ := t.segments
  refine ⟨fun x hx => hlt x (List.mem_cons_of_mem 0 hx), fun y hy => ?_⟩
  have hy' : y ∈ r :: Y := by rw [← hY]; exact List.mem_append_left _ hy
  rcases List.mem_cons.1 hy' with rfl | hy'
  · omega
  · have := hgt y hy'; omega

theorem outside (t : Tiling h (A ++ lc :: B)) {d : Nat} (hd : d ∈ A ++ B) :
    d < lc ∨ lc + (h.chunks lc).size ≤ d := by
  obtain ⟨hA, hB⟩ := t.bounds
  rcases List.mem_append.1 hd with hd | hd
  · exact Or.inl (hA d hd)
  · exact Or.inr (hB d hd)

theorem right_eq (t : Tiling h (A ++ lc :: B)) :
    ∃ r Y, B ++ [h.endChunk] = r :: Y ∧ rightChunk h lc = r := by
  obtain ⟨r, Y, hY, hr0, -⟩ := t.segments
  exact ⟨r, Y, hY, hr0.symm⟩

theorem left_eq (t : Tiling h (A ++ lc :: B)) :
    leftChunk h lc = (0 :: A).getLast (List.cons_ne_nil 0 A) := by
  obtain ⟨r, Y, -, -, hX, -⟩ := t.segments
  exact (isChain_concat.1 hX).2.2

theorem left_lt (t : Tiling h (A ++ lc :: B)) : leftChunk h lc < lc := by
  rw [t.left_eq]
  have hm := List.getLast_mem (List.cons_ne_nil 0 A)
  rcases List.mem_cons.1 hm with e | e
  · rw [e]; exact t.pos_of_mem (by simp)
  · exact t.bounds.1 _ e

theorem right_le (t : Tiling h cs) {c : Nat} (hc : c ∈ cs) : c + (h.chunks c).size ≤ h.endChunk := by
  obtain ⟨A, B, rfl⟩ := List.append_of_mem hc
  obtain ⟨r, Y, hY, hr0, -, -, -, hgt⟩ := t.segments
  have he : h.endChunk ∈ r :: Y := by rw [← hY]; simp
  rcases List.mem_cons.1 he with he | he
  · omega
  · have := hgt _ he; omega

theorem left_frame (t : Tiling h (A ++ lc :: B)) (hX : ((0 :: A) ++ [lc]).IsChain (Adj h))
    (hlt : ∀ x ∈ 0 :: A, x < lc)
    (H : ∀ p < lc, ∀ q ≤ lc, (h'.chunks p).size = (h.chunks p).size ∧
      (h'.chunks q).leftSize = (h.chunks q).leftSize) :
    ((0 :: A) ++ [lc]).IsChain (Adj h') := by
  have hle : ∀ x ∈ (0 :: A) ++ [lc], x ≤ lc := by
    intro x hx
    rcases List.mem_append.1 hx with hx | hx
    · exact Nat.le_of_lt (hlt x hx)
    · simp at hx; omega
  refine isChain_adj_frame hX fun p hp q hq hpq => H p ?_ q (hle q (List.mem_of_mem_tail hq))
  have hq' := hle q (List.mem_of_mem_tail hq)
  have hpos := t.pos p (by
    rcases List.mem_append.1 hp with hp | hp
    · rcases List.mem_cons.1 hp with hp | hp <;> simp [hp]
    · simp at hp; simp [hp])
  simp only [chunkSize] at hpos
  rw [hpq.eq] at hq'
  omega

theorem right_frame {r : Nat} {Y : List Nat} (hR : (r :: Y).IsChain (Adj h)) (hY : ∀ y ∈ Y, r < y)
    (H : ∀ p ≥ r, ∀ q > r, (h'.chunks p).size = (h.chunks p).size ∧
      (h'.chunks q).leftSize = (h.chunks q).leftSize) :
    (r :: Y).IsChain (Adj h') := by
  refine isChain_adj_frame hR fun p hp q hq _ => H p ?_ q (hY q hq)
  rcases List.mem_cons.1 hp with rfl | hp
  · exact Nat.le_refl _
  · exact Nat.le_of_lt (hY p hp)

theorem split {lc rc : Nat} (t : Tiling h (A ++ lc :: B)) (hlr : lc < rc)
    (hr : rc < lc + (h.chunks lc).size) : Tiling (splitChunks h lc rc) (A ++ lc :: rc :: B) := by
  obtain ⟨r, Y, hY, hr0, hX, hR, hlt, hgt⟩ := t.segments
  have hsz := fun d => splitChunks_size h d hlr hr
  have hls := fun d => splitChunks_leftSize h d hlr hr
  constructor
  · have e0 : 0 :: (A ++ lc :: rc :: B) ++ [(splitChunks h lc rc).endChunk] =
        (0 :: A) ++ lc :: rc :: r :: Y := by simp [← hY]
    rw [e0, List.isChain_append_cons_cons, List.isChain_cons_cons]
    refine ⟨t.left_frame hX hlt fun p hp q hq => ?_, ?_, ?_, right_frame hR hgt fun p hp q hq => ?_⟩
    · rw [hsz, hls, if_neg (by omega), if_neg (by omega), if_neg (by omega), if_neg (by omega)]
      exact ⟨rfl, rfl⟩
    · simp only [Adj, rightChunk, leftChunk, chunkSize, hsz, hls, if_true]
      omega
    · simp only [Adj, rightChunk, leftChunk, chunkSize, hsz, hls, if_true,
        if_neg (show rc ≠ lc by omega), hr0,
        if_neg (show lc + (h.chunks lc).size ≠ rc by omega)]
      omega
    · rw [hsz, hls, if_neg (by omega), if_neg (by omega), if_neg (by omega), if_neg (by omega)]
      exact ⟨rfl, rfl⟩
  · intro c hc
    have hold := t.pos c
    simp only [chunkSize, hsz] at hold ⊢
    split_ifs with h1 h2
    · omega
    · omega
    · apply hold
      simp only [List.mem_cons, List.mem_append] at hc ⊢
      tauto

theorem merge {lc rc : Nat} (t : Tiling h (A ++ lc :: rc :: B)) :
    Tiling (mergeChunks h lc rc) (A ++ lc :: B) := by
  obtain ⟨r, Y, hY, hr0, hX, -, hlt, -⟩ := t.segments
  have t2 : Tiling h ((A ++ [lc]) ++ rc :: B) := by simpa using t
  obtain ⟨r2, Y2, hY2, hr2, -, hR2, hlt2, hgt2⟩ := t2.segments
  have hrc : rc = lc + (h.chunks lc).size := by
    rw [← hr0]
    exact (List.cons.inj (by simpa using hY)).1
  have hpos := t.pos lc (by simp)
  simp only [chunkSize] at hpos
  have hne : rc ≠ lc := by omega
  have hsz := fun d => mergeChunks_size h d hne
  have hls := fun d => mergeChunks_leftSize h d hne
  constructor
  · have e0 : 0 :: (A ++ lc :: B) ++ [(mergeChunks h lc rc).endChunk] =
        (0 :: A) ++ lc :: r2 :: Y2 := by simp [← hY2]
    rw [e0, List.isChain_append_cons_cons]
    refine ⟨t.left_frame hX hlt fun p hp q hq => ?_, ?_, right_frame hR2 hgt2 fun p hp q hq => ?_⟩
    · rw [hsz, hls, if_neg (by omega), if_neg (by omega)]
      exact ⟨rfl, rfl⟩
    · simp only [Adj, rightChunk, leftChunk, chunkSize, hsz, hls, if_true, ← hr2]
      omega
    · rw [hsz, hls, if_neg (by omega), if_neg (by omega)]
      exact ⟨rfl, rfl⟩
  · intro c hc
    simp only [chunkSize, hsz]
    split_ifs with h1
    · omega
    · have hold := t.pos c
      simp only [chunkSize] at hold
      apply hold
      simp only [List.mem_cons, List.mem_append] at hc ⊢
      tauto

end Tiling

end Zephyr.Heap
