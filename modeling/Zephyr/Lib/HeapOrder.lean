import Mathlib.Logic.Equiv.Basic
import Mathlib.Data.List.Perm.Basic
import Mathlib.Data.List.Nodup

namespace Zephyr.Lib

variable {α : Type}

/-! Positions of a binary heap laid out in an array -/

-- The parent of position i.
def parent (i : Nat) : Nat := (i - 1) / 2

theorem parent_lt {i : Nat} (h : 0 < i) : parent i < i := by
  unfold parent
  omega

theorem parent_eq_iff {c i : Nat} (h : 0 < c) : parent c = i ↔ c = 2 * i + 1 ∨ c = 2 * i + 2 := by
  unfold parent
  omega

-- Exchange the contents of positions i and j.
def swapAt (f : Nat → α) (i j : Nat) : Nat → α :=
  Function.update (Function.update f i (f j)) j (f i)

theorem swapAt_eq_comp (f : Nat → α) (i j : Nat) : swapAt f i j = f ∘ Equiv.swap i j := by
  funext x
  rw [swapAt, Function.comp_apply, Equiv.swap_apply_def]
  by_cases hj : x = j <;> by_cases hi : x = i <;> simp_all

@[simp] theorem swapAt_left (f : Nat → α) (i j : Nat) : swapAt f i j i = f j := by
  simp [swapAt_eq_comp]

@[simp] theorem swapAt_right (f : Nat → α) (i j : Nat) : swapAt f i j j = f i := by
  simp [swapAt_eq_comp]

theorem swapAt_of_ne {f : Nat → α} {i j x : Nat} (hi : x ≠ i) (hj : x ≠ j) : swapAt f i j x = f x := by
  simp [swapAt_eq_comp, Equiv.swap_apply_of_ne_of_ne hi hj]

-- The first n entries, in storage order.
def prefixList (f : Nat → α) (n : Nat) : List α := (List.range n).map f

theorem prefixList_succ (f : Nat → α) (n : Nat) : prefixList f (n + 1) = prefixList f n ++ [f n] := by
  simp [prefixList, List.range_succ]

theorem prefixList_congr {f g : Nat → α} {n : Nat} (h : ∀ i < n, f i = g i) :
    prefixList f n = prefixList g n :=
  List.map_congr_left fun i hi => h i (List.mem_range.1 hi)

@[simp] theorem length_prefixList (f : Nat → α) (n : Nat) : (prefixList f n).length = n := by
  simp [prefixList]

theorem prefixList_update (f : Nat → α) {i n : Nat} (h : i < n) (x : α) :
    prefixList (Function.update f i x) n = (prefixList f n).set i x := by
  refine List.ext_getElem (by simp) fun j h1 _ => ?_
  simp only [prefixList, List.getElem_map, List.getElem_range, List.getElem_set]
  by_cases hj : j = i
  · subst hj
    simp
  · simp [hj, Ne.symm hj]

theorem prefixList_update_last (f : Nat → α) (n : Nat) (x : α) :
    prefixList (Function.update f n x) (n + 1) = prefixList f n ++ [x] := by
  rw [prefixList_succ, Function.update_self]
  congr 1
  exact prefixList_congr fun i hi => Function.update_of_ne (Nat.ne_of_lt hi) _ _

@[simp] theorem mem_prefixList {f : Nat → α} {n : Nat} {x : α} : x ∈ prefixList f n ↔ ∃ i < n, f i = x := by
  simp [prefixList]

theorem perm_prefixList_swapAt (f : Nat → α) {n i j : Nat} (hi : i < n) (hj : j < n) :
    (prefixList (swapAt f i j) n).Perm (prefixList f n) := by
  have hnd : ((List.range n).map (Equiv.swap i j)).Nodup := List.Nodup.map (Equiv.injective _) List.nodup_range
  have hmem : ∀ x, x ∈ (List.range n).map (Equiv.swap i j) ↔ x ∈ List.range n := by
    intro x
    simp only [List.mem_map, List.mem_range]
    constructor
    · rintro ⟨y, hy, rfl⟩
      rw [Equiv.swap_apply_def]
      split_ifs <;> omega
    · intro hx
      refine ⟨Equiv.swap i j x, ?_, Equiv.swap_apply_self _ _ _⟩
      rw [Equiv.swap_apply_def]
      split_ifs <;> omega
  have hp := ((List.perm_ext_iff_of_nodup hnd List.nodup_range).2 hmem).map f
  rwa [List.map_map, ← swapAt_eq_comp] at hp

section Defs

variable (cmp : α → α → Int)

-- A comparator whose order is a total preorder: the sign flips with the
-- arguments, and "at or before" is transitive.
structure Comparator : Prop where
  lt_iff : ∀ a b, cmp a b < 0 ↔ 0 < cmp b a
  le_trans : ∀ a b c, cmp a b ≤ 0 → cmp b c ≤ 0 → cmp a c ≤ 0

-- Every parent is at or before its child among the first n entries.
def IsHeap (f : Nat → α) (n : Nat) : Prop := ∀ c < n, 0 < c → cmp (f (parent c)) (f c) ≤ 0

instance (f : Nat → α) (n : Nat) : Decidable (IsHeap cmp f n) := by
  unfold IsHeap
  infer_instance

-- The parent-child pairs whose child `skip` does not exclude are in order.
def OrderedExcept (f : Nat → α) (n : Nat) (skip : Nat → Prop) : Prop :=
  ∀ c < n, 0 < c → ¬skip c → cmp (f (parent c)) (f c) ≤ 0

-- The children of i are at or after i's parent.
def Grand (f : Nat → α) (n i : Nat) : Prop :=
  0 < i → ∀ c < n, 0 < c → parent c = i → cmp (f (parent i)) (f c) ≤ 0

-- What sifting up from i needs: every pair but (parent i, i) is in order.
structure UpInv (f : Nat → α) (n i : Nat) : Prop where
  except : OrderedExcept cmp f n (· = i)
  grand : Grand cmp f n i

-- What sifting down from i needs: every pair but those below i is in order.
structure DownInv (f : Nat → α) (n i : Nat) : Prop where
  except : OrderedExcept cmp f n (parent · = i)
  grand : Grand cmp f n i

-- A new entry written at i: the pairs touching i may be out of order.
structure HoleInv (f : Nat → α) (n i : Nat) : Prop where
  except : OrderedExcept cmp f n fun c => c = i ∨ parent c = i
  grand : Grand cmp f n i

end Defs

variable {cmp : α → α → Int}

theorem Comparator.le_of_lt {a b : α} (h : cmp a b < 0) : cmp a b ≤ 0 := Int.le_of_lt h

namespace Comparator

variable (hc : Comparator cmp)
include hc

theorem le_of_not_lt {a b : α} (h : ¬cmp a b < 0) : cmp b a ≤ 0 := by
  have := hc.lt_iff a b
  omega

theorem not_lt_of_le {a b : α} (h : cmp a b ≤ 0) : ¬cmp b a < 0 := by
  have := hc.lt_iff b a
  omega

theorem refl (a : α) : cmp a a ≤ 0 := by
  have := hc.lt_iff a a
  omega

theorem lt_of_lt_of_le {a b c : α} (hab : cmp a b < 0) (hbc : cmp b c ≤ 0) : cmp a c < 0 := by
  by_contra hac
  exact hc.not_lt_of_le (hc.le_trans _ _ _ hbc (hc.le_of_not_lt hac)) hab

theorem lt_trans {a b c : α} (hab : cmp a b < 0) (hbc : cmp b c < 0) : cmp a c < 0 :=
  hc.lt_of_lt_of_le hab (le_of_lt hbc)

end Comparator

section Sift

variable (hc : Comparator cmp) {f : Nat → α} {n i : Nat}
include hc

theorem IsHeap.upInv (h : IsHeap cmp f n) : UpInv cmp f n i :=
  ⟨fun c hc hc0 _ => h c hc hc0, fun hi c hcn hc0 hpc => hc.le_trans _ _ _ (h i (by
    rw [parent_eq_iff hc0] at hpc
    omega) hi) (hpc ▸ h c hcn hc0)⟩

omit hc in
theorem UpInv.isHeap (h : UpInv cmp f n i) (hstop : 0 < i → i < n → cmp (f (parent i)) (f i) ≤ 0) :
    IsHeap cmp f n := by
  intro c hcn hc0
  by_cases hci : c = i
  · subst hci
    exact hstop hc0 hcn
  · exact h.except c hcn hc0 hci

omit hc in
theorem UpInv.isHeap_zero (h : UpInv cmp f n 0) : IsHeap cmp f n := fun c hcn hc0 =>
  h.except c hcn hc0 (Nat.pos_iff_ne_zero.1 hc0)

-- One swap of i with its parent moves the out-of-place pair one level up.
theorem UpInv.swap (h : UpInv cmp f n i) (hi : 0 < i) (hin : i < n)
    (hlt : cmp (f i) (f (parent i)) < 0) : UpInv cmp (swapAt f i (parent i)) n (parent i) := by
  have hp := parent_lt hi
  have hpp : 0 < parent i → cmp (f (parent (parent i))) (f (parent i)) ≤ 0 := fun hp0 =>
    h.except _ (by omega) hp0 (by omega)
  have hsib : ∀ c < n, 0 < c → parent c = parent i → c ≠ i → cmp (f i) (f c) ≤ 0 :=
    fun c hcn hc0 hpc hci => Comparator.le_of_lt (hc.lt_of_lt_of_le hlt (hpc ▸ h.except c hcn hc0 hci))
  constructor
  · intro c hcn hc0 hcp
    by_cases hci : c = i
    · subst hci
      simpa using Comparator.le_of_lt hlt
    have hc_ne_p : c ≠ parent i := hcp
    by_cases hpc : parent c = i
    · rw [hpc, swapAt_left, swapAt_of_ne hci hc_ne_p]
      exact h.grand hi c hcn hc0 hpc
    by_cases hpcp : parent c = parent i
    · rw [hpcp, swapAt_right, swapAt_of_ne hci hc_ne_p]
      exact hsib c hcn hc0 hpcp hci
    · rw [swapAt_of_ne hpc hpcp, swapAt_of_ne hci hc_ne_p]
      exact h.except c hcn hc0 hci
  · intro hp0 c hcn hc0 hpc
    have hpp_ne_i : parent (parent i) ≠ i := by have := parent_lt hp0; omega
    have hpp_ne_p : parent (parent i) ≠ parent i := by have := parent_lt hp0; omega
    rw [swapAt_of_ne hpp_ne_i hpp_ne_p]
    by_cases hci : c = i
    · rw [hci, swapAt_left]
      exact hpp hp0
    have hcp : c ≠ parent i := by rw [parent_eq_iff hc0] at hpc; omega
    rw [swapAt_of_ne hci hcp]
    exact hc.le_trans _ _ _ (hpp hp0) (hpc ▸ h.except c hcn hc0 hci)

omit hc in
theorem DownInv.holeInv (h : DownInv cmp f n i) : HoleInv cmp f n i :=
  ⟨fun c hcn hc0 hs => h.except c hcn hc0 fun hp => hs (.inr hp), h.grand⟩

-- i holds the smallest of itself and its children: only (parent i, i) may be out of order.
omit hc in
theorem HoleInv.upInv (h : HoleInv cmp f n i)
    (hstop : ∀ c < n, 0 < c → parent c = i → cmp (f i) (f c) ≤ 0) : UpInv cmp f n i := by
  refine ⟨fun c hcn hc0 hci => ?_, h.grand⟩
  by_cases hpc : parent c = i
  · exact hpc ▸ hstop c hcn hc0 hpc
  · exact h.except c hcn hc0 fun hs => hs.elim hci hpc

omit hc in
theorem DownInv.isHeap (h : DownInv cmp f n i)
    (hstop : ∀ c < n, 0 < c → parent c = i → cmp (f i) (f c) ≤ 0) : IsHeap cmp f n :=
  (h.holeInv.upInv hstop).isHeap fun hi hin => h.except i hin hi (by have := parent_lt hi; omega)

-- One swap of i with its smallest child s moves the entry at i down to s.
omit hc in
theorem HoleInv.swap (h : HoleInv cmp f n i) {s : Nat} (hs0 : 0 < s) (hsn : s < n) (hps : parent s = i)
    (hlt : cmp (f s) (f i) < 0) (hmin : ∀ c < n, 0 < c → parent c = i → cmp (f s) (f c) ≤ 0) :
    DownInv cmp (swapAt f i s) n s := by
  have hsi : i < s := hps ▸ parent_lt hs0
  have hbelow : ∀ c < n, 0 < c → parent c = s → cmp (f s) (f c) ≤ 0 := fun c hcn hc0 hpc =>
    hpc ▸ h.except c hcn hc0 fun e => e.elim (fun e => by rw [e] at hpc; unfold parent at hpc; omega)
      fun e => by rw [hpc] at e; omega
  constructor
  · intro c hcn hc0 hpc
    by_cases hcs : c = s
    · subst hcs
      rw [hps, swapAt_left, swapAt_right]
      exact Comparator.le_of_lt hlt
    by_cases hci : c = i
    · subst hci
      have hpi : parent c ≠ c := by have := parent_lt hc0; omega
      have hpis : parent c ≠ s := by have := parent_lt hc0; omega
      rw [swapAt_of_ne hpi hpis, swapAt_left]
      exact h.grand hc0 s hsn hs0 hps
    by_cases hpci : parent c = i
    · rw [hpci, swapAt_left, swapAt_of_ne hci hcs]
      exact hmin c hcn hc0 hpci
    · have hpcs : parent c ≠ s := hpc
      rw [swapAt_of_ne hpci hpcs, swapAt_of_ne hci hcs]
      exact h.except c hcn hc0 fun e => e.elim hci hpci
  · intro _ c hcn hc0 hpc
    have hcs : c ≠ s := by have := parent_lt hc0; omega
    have hci : c ≠ i := by have := parent_lt hc0; omega
    rw [hps, swapAt_left, swapAt_of_ne hci hcs]
    exact hbelow c hcn hc0 hpc

-- The root is at or before every entry.
theorem IsHeap.root_le (h : IsHeap cmp f n) : ∀ i < n, cmp (f 0) (f i) ≤ 0 := by
  intro i
  induction i using Nat.strongRecOn with
  | ind i ih =>
    intro hin
    rcases Nat.eq_zero_or_pos i with rfl | hi
    · exact hc.refl _
    · exact hc.le_trans _ _ _ (ih _ (parent_lt hi) (by have := parent_lt hi; omega)) (h i hin hi)

end Sift

section Shape

variable {f : Nat → α} {n : Nat}

theorem IsHeap.mono (h : IsHeap cmp f n) {m : Nat} (hm : m ≤ n) : IsHeap cmp f m :=
  fun c hcm hc0 => h c (by omega) hc0

theorem IsHeap.congr (h : IsHeap cmp f n) {g : Nat → α} (hg : ∀ i < n, g i = f i) : IsHeap cmp g n := by
  intro c hcn hc0
  rw [hg c hcn, hg _ (by have := parent_lt hc0; omega)]
  exact h c hcn hc0

-- A new last entry: only its own pair may be out of order.
theorem IsHeap.upInv_push (h : IsHeap cmp f n) (x : α) : UpInv cmp (Function.update f n x) (n + 1) n := by
  refine ⟨fun c hcn hc0 hcn' => ?_, fun _ c hcn hc0 hpc => ?_⟩
  · have hcn'' : c < n := by omega
    have hp : parent c ≠ n := by have := parent_lt hc0; omega
    rw [Function.update_of_ne hcn', Function.update_of_ne hp]
    exact h c hcn'' hc0
  · rw [parent_eq_iff hc0] at hpc
    omega

-- The last entry moved into position i, which it no longer shares with i's old entry.
theorem IsHeap.holeInv_move (hc : Comparator cmp) (h : IsHeap cmp f (n + 1)) {i : Nat} (hi : i < n) :
    HoleInv cmp (Function.update f i (f n)) n i := by
  refine ⟨fun c hcn hc0 hs => ?_, fun hi0 c hcn hc0 hpc => ?_⟩
  · have hci : c ≠ i := fun e => hs (.inl e)
    have hpci : parent c ≠ i := fun e => hs (.inr e)
    rw [Function.update_of_ne hci, Function.update_of_ne hpci]
    exact h c (by omega) hc0
  · have hpi : parent i ≠ i := by have := parent_lt hi0; omega
    have hci : c ≠ i := by have := parent_lt hc0; omega
    rw [Function.update_of_ne hpi, Function.update_of_ne hci]
    exact hc.le_trans _ _ _ (h i (by omega) hi0) (hpc ▸ h c (by omega) hc0)

end Shape

end Zephyr.Lib
