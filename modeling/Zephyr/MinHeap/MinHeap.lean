import Zephyr.Lib.HeapOrder

namespace Zephyr.Sys

open Zephyr.Lib

def eNoMem : Int := 12

-- A struct min_heap. Element i is the elem_size bytes at storage + i * elem_size;
-- α stands for those bytes, and byteswp and memcpy move them as one value.
structure MinHeap (α : Type) where
  storage : Nat → α
  capacity : Nat
  size : Nat
  cmp : α → α → Int

variable {α β : Type}

def minHeapInit (storage : Nat → α) (cap : Nat) (cmp : α → α → Int) : MinHeap α :=
  { storage := storage, capacity := cap, size := 0, cmp := cmp }

def heapifyUp (heap : MinHeap α) (index : Nat) : MinHeap α :=
  if 0 < index then
    let parent := (index - 1) / 2
    if heap.cmp (heap.storage index) (heap.storage parent) ≥ 0 then heap
    else heapifyUp { heap with storage := swapAt heap.storage index parent } parent
  else heap
termination_by index
decreasing_by omega

-- The `smallest` one pass of heapify_down picks.
def heapifyDownSmallest (heap : MinHeap α) (index : Nat) : Nat :=
  let left := 2 * index + 1
  let right := left + 1
  let smallest := if heap.cmp (heap.storage left) (heap.storage index) < 0 then left else index
  if right < heap.size ∧ heap.cmp (heap.storage right) (heap.storage smallest) < 0 then right
  else smallest

theorem heapifyDownSmallest_cases (heap : MinHeap α) (index : Nat) :
    heapifyDownSmallest heap index = index ∨ heapifyDownSmallest heap index = 2 * index + 1 ∨
      (heapifyDownSmallest heap index = 2 * index + 2 ∧ 2 * index + 2 < heap.size) := by
  unfold heapifyDownSmallest
  dsimp only
  split_ifs <;> omega

def heapifyDown (heap : MinHeap α) (index : Nat) : MinHeap α :=
  let left := 2 * index + 1
  if left < heap.size then
    let smallest := heapifyDownSmallest heap index
    if smallest = index then heap
    else heapifyDown { heap with storage := swapAt heap.storage index smallest } smallest
  else heap
termination_by heap.size - index
decreasing_by
  have := heapifyDownSmallest_cases heap index
  omega

def minHeapPeek (heap : MinHeap α) : Option α :=
  if heap.size = 0 then none else some (heap.storage 0)

def minHeapPush (heap : MinHeap α) (item : α) : MinHeap α × Int :=
  if heap.size ≥ heap.capacity then (heap, -eNoMem)
  else
    let heap := { heap with storage := Function.update heap.storage heap.size item }
    let heap := heapifyUp heap heap.size
    ({ heap with size := heap.size + 1 }, 0)

-- min_heap_remove: `none` is false, and `some x` is true with x copied to out_buf.
def minHeapRemove (heap : MinHeap α) (id : Nat) : MinHeap α × Option α :=
  if id ≥ heap.size then (heap, none)
  else
    let removed := heap.storage id
    let heap := { heap with size := heap.size - 1 }
    if id ≠ heap.size then
      let heap := { heap with storage := Function.update heap.storage id (heap.storage heap.size) }
      let heap := heapifyDown heap id
      (heapifyUp heap id, some removed)
    else (heap, some removed)

def minHeapPop (heap : MinHeap α) : MinHeap α × Option α := minHeapRemove heap 0

def minHeapFindLoop (heap : MinHeap α) (eq : α → β → Bool) (other : β) (i : Nat) : Option Nat :=
  if i < heap.size then
    if eq (heap.storage i) other then some i else minHeapFindLoop heap eq other (i + 1)
  else none
termination_by heap.size - i

-- min_heap_find: the index it writes to out_id; the element it returns is storage i.
def minHeapFind (heap : MinHeap α) (eq : α → β → Bool) (other : β) : Option Nat :=
  minHeapFindLoop heap eq other 0

/-! The sifts move entries and nothing else -/

theorem heapifyUp_shape (heap : MinHeap α) (index : Nat) :
    heapifyUp heap index = { heap with storage := (heapifyUp heap index).storage } := by
  fun_induction heapifyUp heap index with
  | case1 => rfl
  | case2 _ _ _ _ _ ih => exact ih
  | case3 => rfl

@[simp] theorem heapifyUp_size (heap : MinHeap α) (index : Nat) : (heapifyUp heap index).size = heap.size :=
  by rw [heapifyUp_shape]

@[simp] theorem heapifyUp_capacity (heap : MinHeap α) (index : Nat) :
    (heapifyUp heap index).capacity = heap.capacity :=
  by rw [heapifyUp_shape]

@[simp] theorem heapifyUp_cmp (heap : MinHeap α) (index : Nat) : (heapifyUp heap index).cmp = heap.cmp :=
  by rw [heapifyUp_shape]

theorem heapifyDown_shape (heap : MinHeap α) (index : Nat) :
    heapifyDown heap index = { heap with storage := (heapifyDown heap index).storage } := by
  fun_induction heapifyDown heap index with
  | case1 => rfl
  | case2 _ _ _ _ _ _ ih => exact ih
  | case3 => rfl

@[simp] theorem heapifyDown_size (heap : MinHeap α) (index : Nat) :
    (heapifyDown heap index).size = heap.size :=
  by rw [heapifyDown_shape]

@[simp] theorem heapifyDown_capacity (heap : MinHeap α) (index : Nat) :
    (heapifyDown heap index).capacity = heap.capacity :=
  by rw [heapifyDown_shape]

@[simp] theorem heapifyDown_cmp (heap : MinHeap α) (index : Nat) : (heapifyDown heap index).cmp = heap.cmp :=
  by rw [heapifyDown_shape]

theorem perm_heapifyUp (heap : MinHeap α) {n index : Nat} (h : index < n) :
    (prefixList (heapifyUp heap index).storage n).Perm (prefixList heap.storage n) := by
  fun_induction heapifyUp heap index with
  | case1 => rfl
  | case2 heap index hi _ _ ih =>
    have hp : (index - 1) / 2 < n := by omega
    exact (ih hp).trans (perm_prefixList_swapAt _ h hp)
  | case3 => rfl

theorem perm_heapifyDown (heap : MinHeap α) (index : Nat) :
    (prefixList (heapifyDown heap index).storage heap.size).Perm (prefixList heap.storage heap.size) := by
  fun_induction heapifyDown heap index with
  | case1 => rfl
  | case2 heap index _ hl _ hne ih =>
    have hs := heapifyDownSmallest_cases heap index
    dsimp only at ih
    exact ih.trans (perm_prefixList_swapAt _ (by omega) (by omega))
  | case3 => rfl

/-! The sifts restore the heap order -/

section Order

variable (heap : MinHeap α) (hc : Comparator heap.cmp)
include hc

theorem isHeap_heapifyUp {n index : Nat} (h : UpInv heap.cmp heap.storage n index) (hin : index < n) :
    IsHeap heap.cmp (heapifyUp heap index).storage n := by
  fun_induction heapifyUp heap index with
  | case1 heap index hi _ hge =>
    exact h.isHeap fun _ _ => hc.le_of_not_lt (Int.not_lt.2 hge)
  | case2 heap index hi _ hlt ih =>
    exact ih hc (h.swap hc hi hin (Int.lt_of_not_ge hlt)) (by omega)
  | case3 heap index hi =>
    obtain rfl : index = 0 := by omega
    exact h.isHeap_zero

-- With `smallest` = index, index is at or before its children.
theorem heapifyDownSmallest_eq_self {index : Nat} (hs : heapifyDownSmallest heap index = index) :
    ∀ c < heap.size, 0 < c → parent c = index → heap.cmp (heap.storage index) (heap.storage c) ≤ 0 := by
  intro c hcn hc0 hpc
  unfold heapifyDownSmallest at hs
  dsimp only at hs
  rw [parent_eq_iff hc0] at hpc
  split_ifs at hs with hl hr hr <;> try omega
  rcases hpc with rfl | rfl
  · exact hc.le_of_not_lt hl
  · exact hc.le_of_not_lt fun hlt => hr ⟨hcn, hlt⟩

-- Otherwise `smallest` is the child of index that orders first, and before index.
theorem heapifyDownSmallest_ne_self {index : Nat} (hl : 2 * index + 1 < heap.size)
    (hs : heapifyDownSmallest heap index ≠ index) :
    let s := heapifyDownSmallest heap index
    0 < s ∧ s < heap.size ∧ parent s = index ∧ heap.cmp (heap.storage s) (heap.storage index) < 0 ∧
      ∀ c < heap.size, 0 < c → parent c = index → heap.cmp (heap.storage s) (heap.storage c) ≤ 0 := by
  intro s
  have hmin : ∀ c < heap.size, 0 < c → parent c = index → c = 2 * index + 1 ∨ c = 2 * index + 2 :=
    fun c _ hc0 hpc => (parent_eq_iff hc0).1 hpc
  simp only [s, heapifyDownSmallest] at hs ⊢
  split_ifs at hs ⊢ with h1 h2 h2
  · refine ⟨by omega, h2.1, by unfold parent; omega, hc.lt_trans h2.2 h1, fun c hcn hc0 hpc => ?_⟩
    rcases hmin c hcn hc0 hpc with rfl | rfl
    · exact Comparator.le_of_lt h2.2
    · exact hc.refl _
  · refine ⟨by omega, hl, by unfold parent; omega, h1, fun c hcn hc0 hpc => ?_⟩
    rcases hmin c hcn hc0 hpc with rfl | rfl
    · exact hc.refl _
    · exact hc.le_of_not_lt fun hlt => h2 ⟨hcn, hlt⟩
  · refine ⟨by omega, h2.1, by unfold parent; omega, h2.2, fun c hcn hc0 hpc => ?_⟩
    rcases hmin c hcn hc0 hpc with rfl | rfl
    · exact hc.le_trans _ _ _ (Comparator.le_of_lt h2.2) (hc.le_of_not_lt h1)
    · exact hc.refl _
  · exact absurd rfl hs

theorem isHeap_heapifyDown {index : Nat} (h : DownInv heap.cmp heap.storage heap.size index) :
    IsHeap heap.cmp (heapifyDown heap index).storage heap.size := by
  fun_induction heapifyDown heap index with
  | case1 heap index _ hl _ hs =>
    exact h.isHeap (heapifyDownSmallest_eq_self heap hc hs)
  | case2 heap index _ hl _ hs ih =>
    obtain ⟨hs0, hsn, hps, hlt, hmin⟩ := heapifyDownSmallest_ne_self heap hc hl hs
    exact ih hc (h.holeInv.swap hs0 hsn hps hlt hmin)
  | case3 heap index _ hl =>
    refine h.isHeap fun c hcn hc0 hpc => ?_
    rw [parent_eq_iff hc0] at hpc
    omega

-- From a new entry at index, heapify_down leaves only (parent index, index) out of order.
theorem upInv_heapifyDown {index : Nat} (h : HoleInv heap.cmp heap.storage heap.size index) :
    UpInv heap.cmp (heapifyDown heap index).storage heap.size index := by
  unfold heapifyDown
  dsimp only
  split_ifs with hl hs
  · exact h.upInv (heapifyDownSmallest_eq_self heap hc hs)
  · obtain ⟨hs0, hsn, hps, hlt, hmin⟩ := heapifyDownSmallest_ne_self heap hc hl hs
    let heap' := { heap with storage := swapAt heap.storage index (heapifyDownSmallest heap index) }
    exact (isHeap_heapifyDown heap' hc (h.swap hs0 hsn hps hlt hmin)).upInv hc
  · refine h.upInv fun c hcn hc0 hpc => ?_
    rw [parent_eq_iff hc0] at hpc
    omega

end Order

/-! What each call does to a heap in order -/

-- The entries storage[0, size), in storage order.
def MinHeap.elems (heap : MinHeap α) : List α := prefixList heap.storage heap.size

-- What min_heap_init sets up and every call keeps.
structure MinHeap.Ok (heap : MinHeap α) : Prop where
  cmp : Comparator heap.cmp
  ordered : IsHeap heap.cmp heap.storage heap.size
  size_le : heap.size ≤ heap.capacity

theorem minHeapInit_ok {cmp : α → α → Int} (hc : Comparator cmp) (storage : Nat → α) (cap : Nat) :
    (minHeapInit storage cap cmp).Ok :=
  ⟨hc, fun c hc _ => absurd hc (Nat.not_lt_zero c), Nat.zero_le cap⟩

section Calls

variable {heap : MinHeap α}

theorem minHeapPush_of_full (item : α) (h : heap.capacity ≤ heap.size) :
    minHeapPush heap item = (heap, -eNoMem) := by
  simp [minHeapPush, h]

theorem MinHeap.Ok.push (h : heap.Ok) (hlt : heap.size < heap.capacity) (item : α) :
    ∃ heap', minHeapPush heap item = (heap', 0) ∧ heap'.Ok ∧ heap'.elems.Perm (heap.elems ++ [item]) ∧
      heap'.capacity = heap.capacity ∧ heap'.cmp = heap.cmp := by
  let heap₁ := { heap with storage := Function.update heap.storage heap.size item }
  let heap₂ := { heapifyUp heap₁ heap.size with size := heap.size + 1 }
  have hpush : minHeapPush heap item = (heap₂, 0) := by simp [minHeapPush, Nat.not_le.2 hlt, heap₁, heap₂]
  have hup : UpInv heap₁.cmp heap₁.storage (heap.size + 1) heap.size := h.ordered.upInv_push item
  have hperm := perm_heapifyUp heap₁ (Nat.lt_succ_self heap.size)
  refine ⟨heap₂, hpush, ⟨by simpa [heap₁, heap₂] using h.cmp, ?_, by simp [heap₁, heap₂]; omega⟩, ?_,
    by simp [heap₁, heap₂], by simp [heap₁, heap₂]⟩
  · simpa [heap₂] using isHeap_heapifyUp heap₁ h.cmp hup (Nat.lt_succ_self _)
  · simpa [MinHeap.elems, heap₁, heap₂, prefixList_update_last] using hperm

theorem minHeapRemove_of_le {id : Nat} (h : heap.size ≤ id) : minHeapRemove heap id = (heap, none) := by
  simp [minHeapRemove, h]

-- The last entry is dropped: nothing moves.
theorem MinHeap.Ok.removeLast (h : heap.Ok) {m : Nat} (hm : heap.size = m + 1) :
    minHeapRemove heap m = ({ heap with size := m }, some (heap.storage m)) ∧
      MinHeap.Ok { heap with size := m } ∧
      MinHeap.elems { heap with size := m } = heap.elems.eraseIdx m := by
  have hle : m ≤ heap.capacity := by have := h.size_le; omega
  refine ⟨by simp [minHeapRemove, hm], ⟨h.cmp, h.ordered.mono (show m ≤ heap.size by omega), hle⟩, ?_⟩
  simp [MinHeap.elems, hm, prefixList_succ, List.eraseIdx_append_of_length_le]

-- The last entry is moved into the hole at id, then sifted down and up.
theorem MinHeap.Ok.removeMove (h : heap.Ok) {m id : Nat} (hm : heap.size = m + 1) (hid : id < m) :
    let heap₁ := { heap with size := m, storage := Function.update heap.storage id (heap.storage m) }
    minHeapRemove heap id = (heapifyUp (heapifyDown heap₁ id) id, some (heap.storage id)) ∧
      MinHeap.Ok (heapifyUp (heapifyDown heap₁ id) id) ∧
      (MinHeap.elems (heapifyUp (heapifyDown heap₁ id) id)).Perm (heap.elems.eraseIdx id) := by
  intro heap₁
  have hhole : HoleInv heap₁.cmp heap₁.storage heap₁.size id := (hm ▸ h.ordered).holeInv_move h.cmp hid
  have hup := upInv_heapifyDown heap₁ h.cmp hhole
  rw [← heapifyDown_cmp heap₁ id] at hup
  have hord := isHeap_heapifyUp (heapifyDown heap₁ id) (by simpa [heap₁] using h.cmp) hup (by simpa using hid)
  have hmin : minHeapRemove heap id = (heapifyUp (heapifyDown heap₁ id) id, some (heap.storage id)) := by
    have hsz : heap.size - 1 = m := by omega
    rw [minHeapRemove, if_neg (by omega)]
    dsimp only
    rw [if_pos (by omega), hsz]
  refine ⟨hmin, ⟨by simpa using h.cmp, by simpa using hord,
    by have := h.size_le; simp [heap₁]; omega⟩, ?_⟩
  have hidm : id < (prefixList heap.storage m).length := by simpa using hid
  have herase : heap.elems.eraseIdx id = (prefixList heap.storage m).eraseIdx id ++ [heap.storage m] := by
    rw [MinHeap.elems, hm, prefixList_succ, List.eraseIdx_append_of_lt_length hidm]
  rw [herase]
  calc MinHeap.elems (heapifyUp (heapifyDown heap₁ id) id)
      = prefixList (heapifyUp (heapifyDown heap₁ id) id).storage (heapifyDown heap₁ id).size := by
        simp [MinHeap.elems]
    List.Perm _ (prefixList (heapifyDown heap₁ id).storage (heapifyDown heap₁ id).size) :=
      perm_heapifyUp _ (by simpa using hid)
    List.Perm _ (prefixList heap₁.storage m) := by simpa [heap₁] using perm_heapifyDown heap₁ id
    _ = (prefixList heap.storage m).set id (heap.storage m) := prefixList_update heap.storage hid _
    List.Perm _ (heap.storage m :: (prefixList heap.storage m).eraseIdx id) := List.set_perm_cons_eraseIdx hidm _
    List.Perm _ ((prefixList heap.storage m).eraseIdx id ++ [heap.storage m]) :=
      (List.perm_append_singleton _ _).symm

theorem MinHeap.Ok.remove (h : heap.Ok) {id : Nat} (hid : id < heap.size) :
    ∃ heap', minHeapRemove heap id = (heap', some (heap.storage id)) ∧ heap'.Ok ∧
      heap'.elems.Perm (heap.elems.eraseIdx id) ∧ heap'.capacity = heap.capacity ∧ heap'.cmp = heap.cmp := by
  obtain ⟨m, hm⟩ : ∃ m, heap.size = m + 1 := ⟨heap.size - 1, by omega⟩
  rcases Nat.lt_or_ge id m with hlt | hge
  · obtain ⟨hr, hok, hp⟩ := h.removeMove hm hlt
    exact ⟨_, hr, hok, hp, by simp, by simp⟩
  · obtain rfl : id = m := by omega
    obtain ⟨hr, hok, he⟩ := h.removeLast hm
    exact ⟨_, hr, hok, he ▸ List.Perm.refl _, rfl, rfl⟩

theorem MinHeap.Ok.root_le (h : heap.Ok) : ∀ y ∈ heap.elems, heap.cmp (heap.storage 0) y ≤ 0 := by
  intro y hy
  obtain ⟨i, hi, rfl⟩ := mem_prefixList.1 hy
  exact h.ordered.root_le h.cmp i hi

theorem minHeapPeek_eq_none : minHeapPeek heap = none ↔ heap.size = 0 := by
  unfold minHeapPeek
  split_ifs with h <;> simp [h]

theorem MinHeap.Ok.peek (h : heap.Ok) {x : α} (hx : minHeapPeek heap = some x) :
    x ∈ heap.elems ∧ ∀ y ∈ heap.elems, heap.cmp x y ≤ 0 := by
  unfold minHeapPeek at hx
  split_ifs at hx with h0
  obtain rfl := Option.some.inj hx
  exact ⟨mem_prefixList.2 ⟨0, by omega, rfl⟩, h.root_le⟩

theorem minHeapPop_of_empty (h : heap.size = 0) : minHeapPop heap = (heap, none) :=
  minHeapRemove_of_le (by omega)

theorem MinHeap.Ok.pop (h : heap.Ok) (hpos : 0 < heap.size) :
    ∃ heap', minHeapPop heap = (heap', some (heap.storage 0)) ∧ heap'.Ok ∧ heap'.elems.Perm heap.elems.tail ∧
      heap'.capacity = heap.capacity ∧ heap'.cmp = heap.cmp := by
  simpa [minHeapPop, List.eraseIdx_zero] using h.remove hpos

theorem MinHeap.Ok.push_eq_noMem_iff (h : heap.Ok) (item : α) :
    (minHeapPush heap item).2 = -eNoMem ↔ heap.size = heap.capacity := by
  have hle := h.size_le
  rcases Nat.lt_or_ge heap.size heap.capacity with hlt | hge
  · obtain ⟨heap', hr, -⟩ := h.push hlt item
    rw [hr]
    simp only [eNoMem]
    omega
  · rw [minHeapPush_of_full item hge]
    simp only [true_iff]
    omega

theorem minHeapRemove_eq_none_iff {id : Nat} : (minHeapRemove heap id).2 = none ↔ heap.size ≤ id := by
  unfold minHeapRemove
  dsimp only
  split_ifs with h1 h2 <;> simp [h1]

theorem MinHeap.Ok.pop_min (h : heap.Ok) {x : α} (hx : (minHeapPop heap).2 = some x) :
    x ∈ heap.elems ∧ ∀ y ∈ heap.elems, heap.cmp x y ≤ 0 := by
  have hpos : 0 < heap.size := by
    by_contra h0
    rw [minHeapPop_of_empty (by omega)] at hx
    cases hx
  obtain ⟨heap', hr, -⟩ := h.pop hpos
  rw [hr] at hx
  obtain rfl := Option.some.inj hx
  exact ⟨mem_prefixList.2 ⟨0, hpos, rfl⟩, h.root_le⟩

end Calls

-- The loop of min_heap_find from i = k stops at the first match at or after k.
theorem minHeapFindLoop_eq_some (heap : MinHeap α) (eq : α → β → Bool) (other : β) (k i : Nat) :
    minHeapFindLoop heap eq other k = some i ↔ k ≤ i ∧ i < heap.size ∧ eq (heap.storage i) other = true ∧
      ∀ j, k ≤ j → j < i → eq (heap.storage j) other = false := by
  fun_induction minHeapFindLoop heap eq other k with
  | case1 k hk hm =>
    constructor
    · rintro ⟨⟩
      exact ⟨Nat.le_refl _, hk, hm, fun j h1 h2 => absurd h2 (by omega)⟩
    · rintro ⟨h1, -, -, hfirst⟩
      rcases Nat.lt_or_ge k i with hlt | hge
      · simp [hfirst k (Nat.le_refl _) hlt] at hm
      · simp only [Option.some.injEq]
        omega
  | case2 k hk hm ih =>
    rw [ih]
    constructor
    · rintro ⟨h1, h2, h3, hfirst⟩
      refine ⟨by omega, h2, h3, fun j hj1 hj2 => ?_⟩
      rcases Nat.lt_or_ge k j with hlt | hge
      · exact hfirst j hlt hj2
      · obtain rfl : j = k := by omega
        simpa using hm
    · rintro ⟨h1, h2, h3, hfirst⟩
      have hki : k ≠ i := by rintro rfl; simp [h3] at hm
      exact ⟨by omega, h2, h3, fun j hj1 hj2 => hfirst j (by omega) hj2⟩
  | case3 k hk =>
    simp only [reduceCtorEq, false_iff, not_and]
    intro h1 h2
    omega

theorem minHeapFind_eq_some (heap : MinHeap α) (eq : α → β → Bool) (other : β) (i : Nat) :
    minHeapFind heap eq other = some i ↔ i < heap.size ∧ eq (heap.storage i) other = true ∧
      ∀ j < i, eq (heap.storage j) other = false := by
  simp [minHeapFind, minHeapFindLoop_eq_some]

theorem minHeapFindLoop_eq_none (heap : MinHeap α) (eq : α → β → Bool) (other : β) (k : Nat) :
    minHeapFindLoop heap eq other k = none ↔ ∀ i, k ≤ i → i < heap.size → eq (heap.storage i) other = false := by
  fun_induction minHeapFindLoop heap eq other k with
  | case1 k hk hm =>
    simp only [reduceCtorEq, false_iff, not_forall]
    exact ⟨k, Nat.le_refl _, hk, by simp [hm]⟩
  | case2 k hk hm ih =>
    rw [ih]
    constructor
    · intro h i hi1 hi2
      rcases Nat.lt_or_ge k i with hlt | hge
      · exact h i hlt hi2
      · obtain rfl : i = k := by omega
        simpa using hm
    · exact fun h i hi1 hi2 => h i (by omega) hi2
  | case3 k hk =>
    simp only [true_iff]
    intro i hi1 hi2
    omega

theorem minHeapFind_eq_none (heap : MinHeap α) (eq : α → β → Bool) (other : β) :
    minHeapFind heap eq other = none ↔ ∀ i < heap.size, eq (heap.storage i) other = false := by
  simp [minHeapFind, minHeapFindLoop_eq_none]

end Zephyr.Sys
