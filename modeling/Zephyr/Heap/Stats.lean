import Zephyr.Heap.Inv

namespace Zephyr.Heap

-- The chunks in use, in address order, and the bytes they make available:
-- what allocated_bytes counts with CONFIG_SYS_HEAP_RUNTIME_STATS.
def usedChunks (h : ZHeap) (cs : List Nat) : List Nat := cs.filter fun c => chunkUsed h c

def usedBytes (cfg : HeapConfig) (h : ZHeap) (cs : List Nat) : Nat :=
  ((usedChunks h cs).map (chunkUsableBytes cfg h)).sum

variable {cfg : HeapConfig} {h h' : ZHeap}

@[simp] theorem usedChunks_nil : usedChunks h [] = [] := rfl

@[simp] theorem usedChunks_cons (c : Nat) (cs : List Nat) :
    usedChunks h (c :: cs) = if chunkUsed h c then c :: usedChunks h cs else usedChunks h cs := by
  unfold usedChunks
  cases hc : (h.chunks c).used <;> simp [hc]

@[simp] theorem usedChunks_append (A B : List Nat) :
    usedChunks h (A ++ B) = usedChunks h A ++ usedChunks h B := List.filter_append ..

@[simp] theorem usedBytes_nil : usedBytes cfg h [] = 0 := rfl

@[simp] theorem usedBytes_cons (c : Nat) (cs : List Nat) :
    usedBytes cfg h (c :: cs) =
      (if chunkUsed h c then chunkUsableBytes cfg h c else 0) + usedBytes cfg h cs := by
  unfold usedBytes
  cases hc : (h.chunks c).used <;> simp [hc]

@[simp] theorem usedBytes_append (A B : List Nat) :
    usedBytes cfg h (A ++ B) = usedBytes cfg h A + usedBytes cfg h B := by
  simp [usedBytes]

theorem mem_usedChunks {cs : List Nat} {c : Nat} :
    c ∈ usedChunks h cs ↔ c ∈ cs ∧ chunkUsed h c = true := by
  simp [usedChunks]

theorem usedChunks_congr {cs : List Nat} (H : ∀ d ∈ cs, chunkUsed h' d = chunkUsed h d) :
    usedChunks h' cs = usedChunks h cs :=
  List.filter_congr H

theorem usedBytes_congr {cs : List Nat} (e : h'.endChunk = h.endChunk)
    (H : ∀ d ∈ cs, chunkUsed h' d = chunkUsed h d ∧ (h'.chunks d).size = (h.chunks d).size) :
    usedBytes cfg h' cs = usedBytes cfg h cs := by
  unfold usedBytes
  rw [usedChunks_congr fun d hd => (H d hd).1]
  refine congrArg List.sum (List.map_congr_left fun d hd => ?_)
  exact chunkUsableBytes_congr cfg e (H d (mem_usedChunks.1 hd).1).2

theorem SameLayout.usedChunks (hl : SameLayout h h') (cs : List Nat) :
    usedChunks h' cs = usedChunks h cs :=
  usedChunks_congr fun d _ => hl.used d

theorem SameLayout.usedBytes (hl : SameLayout h h') (cs : List Nat) :
    usedBytes cfg h' cs = usedBytes cfg h cs :=
  usedBytes_congr hl.endChunk fun d _ => ⟨hl.used d, hl.size d⟩

-- The chunks outside `T` keep their size and used bit.
def Agree (h h' : ZHeap) (T : List Nat) : Prop :=
  ∀ d, d ∉ T → (h'.chunks d).size = (h.chunks d).size ∧ (h'.chunks d).used = (h.chunks d).used

theorem Agree.trans {h₁ h₂ h₃ : ZHeap} {T T' : List Nat} (a : Agree h₁ h₂ T) (b : Agree h₂ h₃ T') :
    Agree h₁ h₃ (T ++ T') := fun d hd => by
  simp only [List.mem_append, not_or] at hd
  obtain ⟨a1, a2⟩ := a d hd.1
  obtain ⟨b1, b2⟩ := b d hd.2
  exact ⟨b1.trans a1, b2.trans a2⟩

theorem Agree.mono {T T' : List Nat} (a : Agree h h' T) (hT : ∀ d ∈ T, d ∈ T') : Agree h h' T' :=
  fun d hd => a d fun hm => hd (hT d hm)

theorem SameLayout.agree (hl : SameLayout h h') : Agree h h' [] :=
  fun d _ => ⟨hl.size d, hl.used d⟩

theorem agree_of_chunks (e : h'.chunks = h.chunks) : Agree h h' [] :=
  fun d _ => by simp [e]

theorem splitChunks_agree {lc rc : Nat} (hlr : lc < rc) (hr : rc < lc + (h.chunks lc).size) :
    Agree h (splitChunks h lc rc) [lc, rc] := fun d hd => by
  simp only [List.mem_cons, List.not_mem_nil, or_false, not_or] at hd
  rw [splitChunks_size h d hlr hr, splitChunks_used h d hlr hr]
  simp [hd.1, hd.2]

theorem mergeChunks_agree (lc rc : Nat) : Agree h (mergeChunks h lc rc) [lc] := fun d hd => by
  rw [List.mem_singleton] at hd
  simp [mergeChunks, setChunkSize, setLeftChunkSize, hd]

theorem setChunkUsed_agree (c : Nat) (u : Bool) : Agree h (setChunkUsed h c u) [c] := fun d hd => by
  rw [List.mem_singleton] at hd
  simp [setChunkUsed, hd]

theorem Agree.usedChunks {T cs : List Nat} (a : Agree h h' T) (hcs : ∀ d ∈ cs, d ∉ T) :
    usedChunks h' cs = usedChunks h cs :=
  usedChunks_congr fun d hd => (a d (hcs d hd)).2

theorem Agree.usedBytes {T cs : List Nat} (a : Agree h h' T) (e : h'.endChunk = h.endChunk)
    (hcs : ∀ d ∈ cs, d ∉ T) : usedBytes cfg h' cs = usedBytes cfg h cs :=
  usedBytes_congr e fun d hd => ⟨(a d (hcs d hd)).2, (a d (hcs d hd)).1⟩

theorem usedChunks_eq_nil {cs : List Nat} (H : ∀ d ∈ cs, chunkUsed h d = false) :
    usedChunks h cs = [] :=
  List.filter_eq_nil_iff.2 fun d hd => by simpa using H d hd

theorem usedBytes_eq_zero {cs : List Nat} (H : ∀ d ∈ cs, chunkUsed h d = false) :
    usedBytes cfg h cs = 0 := by
  rw [usedBytes, usedChunks_eq_nil H]; rfl

-- A layout change confined to free chunks: the segment `M` becomes `M'`,
-- both free, and the chunks around them keep their headers.
theorem usedChunks_free_frame {T A B M M' : List Nat} (a : Agree h h' T)
    (hT : ∀ d ∈ A ++ B, d ∉ T) (hM : ∀ d ∈ M, chunkUsed h d = false)
    (hM' : ∀ d ∈ M', chunkUsed h' d = false) :
    usedChunks h' (A ++ M' ++ B) = usedChunks h (A ++ M ++ B) := by
  simp only [usedChunks_append, usedChunks_eq_nil hM, usedChunks_eq_nil hM']
  rw [a.usedChunks fun d hd => hT d (List.mem_append_left B hd),
    a.usedChunks fun d hd => hT d (List.mem_append_right A hd)]

theorem usedBytes_free_frame {T A B M M' : List Nat} (a : Agree h h' T)
    (e : h'.endChunk = h.endChunk) (hT : ∀ d ∈ A ++ B, d ∉ T)
    (hM : ∀ d ∈ M, chunkUsed h d = false) (hM' : ∀ d ∈ M', chunkUsed h' d = false) :
    usedBytes cfg h' (A ++ M' ++ B) = usedBytes cfg h (A ++ M ++ B) := by
  simp only [usedBytes_append, usedBytes_eq_zero hM, usedBytes_eq_zero hM']
  rw [a.usedBytes e fun d hd => hT d (List.mem_append_left B hd),
    a.usedBytes e fun d hd => hT d (List.mem_append_right A hd)]

theorem usedChunks_nodup {cs : List Nat} (hcs : cs.Nodup) : (usedChunks h cs).Nodup :=
  hcs.filter _

end Zephyr.Heap
