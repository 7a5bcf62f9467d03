import Zephyr.MinHeap.MinHeap
import Zephyr.Lib.Reach
import Mathlib.Data.Multiset.AddSub

namespace Zephyr.Sys

open Zephyr.Lib

variable {α β : Type}

/-! The calls and what they answer -/

inductive HeapOp (α β : Type) where
  | push (item : α)
  | pop
  | remove (id : Nat)
  | peek
  | find (eq : α → β → Bool) (other : β)

-- min_heap_push's code; the element pop, remove and peek give, or none; find's index.
inductive HeapAnswer (α : Type) where
  | code (rc : Int)
  | elem (x : Option α)
  | index (i : Option Nat)

def HeapOp.run (heap : MinHeap α) : HeapOp α β → MinHeap α × HeapAnswer α
  | .push item => let r := minHeapPush heap item; (r.1, .code r.2)
  | .pop => let r := minHeapPop heap; (r.1, .elem r.2)
  | .remove id => let r := minHeapRemove heap id; (r.1, .elem r.2)
  | .peek => (heap, .elem (minHeapPeek heap))
  | .find eq other => (heap, .index (minHeapFind heap eq other))

-- The element a call puts in: a push that returns 0.
def HeapOp.added : HeapOp α β → HeapAnswer α → Multiset α
  | .push item, .code 0 => {item}
  | _, _ => 0

-- The element a call takes out: what pop or remove copies to out_buf.
def HeapOp.taken : HeapOp α β → HeapAnswer α → Multiset α
  | .pop, .elem (some x) => {x}
  | .remove _, .elem (some x) => {x}
  | _, _ => 0

/-! The bounded priority multiset min_heap implements -/

-- One call on a multiset of at most cap elements ordered by cmp: which answers
-- it may give and what it leaves. Remove takes some element; which one depends
-- on the storage order, which the multiset does not have.
inductive PQStep (cmp : α → α → Int) (cap : Nat) : Multiset α → HeapOp α β → HeapAnswer α → Multiset α → Prop
  | pushFull {q : Multiset α} {x : α} : Multiset.card q = cap → PQStep cmp cap q (.push x) (.code (-eNoMem)) q
  | push {q : Multiset α} {x : α} : Multiset.card q < cap → PQStep cmp cap q (.push x) (.code 0) (x ::ₘ q)
  | popEmpty : PQStep cmp cap 0 .pop (.elem none) 0
  | pop {q : Multiset α} {x : α} : (∀ y ∈ x ::ₘ q, cmp x y ≤ 0) → PQStep cmp cap (x ::ₘ q) .pop (.elem (some x)) q
  | removeNone {q : Multiset α} {id : Nat} : PQStep cmp cap q (.remove id) (.elem none) q
  | remove {q : Multiset α} {x : α} {id : Nat} : PQStep cmp cap (x ::ₘ q) (.remove id) (.elem (some x)) q
  | peekEmpty : PQStep cmp cap 0 .peek (.elem none) 0
  | peek {q : Multiset α} {x : α} : x ∈ q → (∀ y ∈ q, cmp x y ≤ 0) → PQStep cmp cap q .peek (.elem (some x)) q
  | find {q : Multiset α} {eq : α → β → Bool} {other : β} {i : Option Nat} :
      PQStep cmp cap q (.find eq other) (.index i) q

-- What a call takes out and puts in is all that changes.
theorem PQStep.conserve {cmp : α → α → Int} {cap : Nat} {q q' : Multiset α} {op : HeapOp α β}
    {a : HeapAnswer α} (h : PQStep cmp cap q op a q') : q' + op.taken a = q + op.added a := by
  cases h with
  | pushFull => simp [HeapOp.taken, HeapOp.added, eNoMem]
  | push => simp [HeapOp.taken, HeapOp.added, Multiset.add_comm q, Multiset.singleton_add]
  | pop | remove => simp [HeapOp.taken, HeapOp.added, Multiset.add_comm _ {_}, Multiset.singleton_add]
  | popEmpty | removeNone | peekEmpty | peek | find => simp [HeapOp.taken, HeapOp.added]

/-! One call on a heap in order is one step of the multiset -/

section Refine

variable {heap : MinHeap α}

theorem coe_elems_of_perm {heap' : MinHeap α} {l : List α} (h : heap'.elems.Perm l) :
    (heap'.elems : Multiset α) = l :=
  Multiset.coe_eq_coe.2 h

theorem MinHeap.Ok.runPush (h : heap.Ok) (item : α) :
    let r := (HeapOp.push item : HeapOp α β).run heap
    r.1.Ok ∧ r.1.cmp = heap.cmp ∧ r.1.capacity = heap.capacity ∧
      PQStep heap.cmp heap.capacity (heap.elems : Multiset α) (.push item : HeapOp α β) r.2 r.1.elems := by
  rcases Nat.lt_or_ge heap.size heap.capacity with hlt | hge
  · obtain ⟨heap', hr, hok, hp, hcap, hcmp⟩ := h.push hlt item
    simp only [HeapOp.run, hr]
    refine ⟨hok, hcmp, hcap, ?_⟩
    rw [coe_elems_of_perm hp, ← Multiset.coe_add, Multiset.add_comm, Multiset.coe_singleton,
      Multiset.singleton_add]
    exact .push (by simpa [MinHeap.elems] using hlt)
  · have hfull : heap.size = heap.capacity := by have := h.size_le; omega
    dsimp only [HeapOp.run]
    rw [minHeapPush_of_full item hge]
    exact ⟨h, rfl, rfl, .pushFull (by simpa [MinHeap.elems] using hfull)⟩

theorem MinHeap.Ok.runRemove (h : heap.Ok) (id : Nat) :
    let r := (HeapOp.remove id : HeapOp α β).run heap
    r.1.Ok ∧ r.1.cmp = heap.cmp ∧ r.1.capacity = heap.capacity ∧
      PQStep heap.cmp heap.capacity (heap.elems : Multiset α) (.remove id : HeapOp α β) r.2 r.1.elems := by
  rcases Nat.lt_or_ge id heap.size with hlt | hge
  · obtain ⟨heap', hr, hok, hp, hcap, hcmp⟩ := h.remove hlt
    simp only [HeapOp.run, hr]
    refine ⟨hok, hcmp, hcap, ?_⟩
    have hx : (heap.elems : Multiset α) = heap.storage id ::ₘ heap.elems.eraseIdx id := by
      have hid : id < heap.elems.length := by simpa [MinHeap.elems] using hlt
      have hget : heap.elems[id] = heap.storage id := by simp [MinHeap.elems, prefixList]
      rw [← hget]
      exact (Multiset.coe_eq_coe.2 (List.getElem_cons_eraseIdx_perm hid)).symm
    rw [coe_elems_of_perm hp, hx]
    exact .remove
  · dsimp only [HeapOp.run]
    rw [minHeapRemove_of_le hge]
    exact ⟨h, rfl, rfl, .removeNone⟩

theorem MinHeap.Ok.runPop (h : heap.Ok) :
    let r := (HeapOp.pop : HeapOp α β).run heap
    r.1.Ok ∧ r.1.cmp = heap.cmp ∧ r.1.capacity = heap.capacity ∧
      PQStep heap.cmp heap.capacity (heap.elems : Multiset α) (.pop : HeapOp α β) r.2 r.1.elems := by
  rcases Nat.eq_zero_or_pos heap.size with h0 | hpos
  · dsimp only [HeapOp.run]
    rw [minHeapPop_of_empty h0]
    have he : heap.elems = [] := by simp [MinHeap.elems, h0, prefixList]
    exact ⟨h, rfl, rfl, by rw [he]; exact .popEmpty⟩
  · obtain ⟨heap', hr, hok, hp, hcap, hcmp⟩ := h.pop hpos
    simp only [HeapOp.run, hr]
    refine ⟨hok, hcmp, hcap, ?_⟩
    have hx : (heap.elems : Multiset α) = heap.storage 0 ::ₘ heap.elems.tail := by
      obtain ⟨m, hm⟩ : ∃ m, heap.size = m + 1 := ⟨heap.size - 1, by omega⟩
      simp [MinHeap.elems, hm, prefixList, List.range_succ_eq_map]
    rw [coe_elems_of_perm hp]
    refine hx ▸ .pop fun y hy => h.root_le y ?_
    rw [← hx] at hy
    exact Multiset.mem_coe.1 hy

theorem MinHeap.Ok.runPeek (h : heap.Ok) :
    PQStep heap.cmp heap.capacity (heap.elems : Multiset α) (.peek : HeapOp α β)
      (HeapAnswer.elem (minHeapPeek heap)) heap.elems := by
  cases hx : minHeapPeek heap with
  | none =>
    have he : heap.elems = [] := by simp [MinHeap.elems, minHeapPeek_eq_none.1 hx, prefixList]
    rw [he]
    exact .peekEmpty
  | some x =>
    obtain ⟨hmem, hmin⟩ := h.peek hx
    exact .peek (Multiset.mem_coe.2 hmem) fun y hy => hmin y (Multiset.mem_coe.1 hy)

-- Every call on a heap in order keeps it in order and is one step of its multiset.
theorem MinHeap.Ok.run (h : heap.Ok) (op : HeapOp α β) :
    (op.run heap).1.Ok ∧ (op.run heap).1.cmp = heap.cmp ∧ (op.run heap).1.capacity = heap.capacity ∧
      PQStep heap.cmp heap.capacity (heap.elems : Multiset α) op (op.run heap).2 (op.run heap).1.elems := by
  cases op with
  | push item => exact h.runPush item
  | pop => exact h.runPop
  | remove id => exact h.runRemove id
  | peek => exact ⟨h, rfl, rfl, h.runPeek⟩
  | find eq other => exact ⟨h, rfl, rfl, .find⟩

end Refine

/-! Runs from min_heap_init -/

-- A heap with what the calls so far put in and took out.
structure HeapRun (α : Type) where
  heap : MinHeap α
  pushed : Multiset α
  removed : Multiset α

def HeapRun.step (r : HeapRun α) (op : HeapOp α β) : HeapRun α :=
  let s := op.run r.heap
  { heap := s.1, pushed := r.pushed + op.added s.2, removed := r.removed + op.taken s.2 }

-- min_heap_init with a comparator that is a total preorder, before any call.
def HeapStart (r : HeapRun α) : Prop :=
  ∃ storage cap cmp, Comparator cmp ∧ r = ⟨minHeapInit storage cap cmp, 0, 0⟩

def HeapReach (β : Type) : HeapRun α → Prop :=
  StateMachine.Reachable HeapStart fun r r' => ∃ op : HeapOp α β, r' = r.step op

structure HeapRun.Inv (r : HeapRun α) : Prop where
  ok : r.heap.Ok
  conserve : (r.heap.elems : Multiset α) + r.removed = r.pushed

theorem HeapRun.Inv.step {r : HeapRun α} (h : r.Inv) (op : HeapOp α β) : (r.step op).Inv := by
  obtain ⟨hok, -, -, hpq⟩ := h.ok.run op
  refine ⟨hok, ?_⟩
  have hc := hpq.conserve
  simp only [HeapRun.step]
  generalize (op.run r.heap).2 = a at hc ⊢
  calc ((op.run r.heap).1.elems : Multiset α) + (r.removed + op.taken a)
      = (↑(op.run r.heap).1.elems + op.taken a) + r.removed := by
        rw [Multiset.add_comm r.removed, Multiset.add_assoc]
    _ = (↑r.heap.elems + op.added a) + r.removed := by rw [hc]
    _ = r.pushed + op.added a := by
        rw [Multiset.add_assoc, Multiset.add_comm (op.added a), ← Multiset.add_assoc, h.conserve]

theorem heapRun_start_inv {r : HeapRun α} (h : HeapStart r) : r.Inv := by
  obtain ⟨storage, cap, cmp, hc, rfl⟩ := h
  exact ⟨minHeapInit_ok hc storage cap, by simp [MinHeap.elems, minHeapInit, prefixList]⟩

theorem HeapReach.inv {r : HeapRun α} (h : HeapReach β r) : r.Inv :=
  StateMachine.Reachable.inv (fun r : HeapRun α => r.Inv) (fun _ hs => heapRun_start_inv hs)
    (fun _ _ hi ⟨op, e⟩ => e ▸ hi.step op) h

theorem HeapRun.Inv.elems_eq [DecidableEq α] {r : HeapRun α} (h : r.Inv) :
    (r.heap.elems : Multiset α) = r.pushed - r.removed := by
  rw [← h.conserve, Multiset.add_sub_cancel_right]

-- min_heap over every run of calls from min_heap_init: the heap order and the
-- multiset it holds, and what each call answers in every state a run reaches.
theorem min_heap_refines_priority_multiset [DecidableEq α] :
    (∀ r : HeapRun α, HeapReach β r →
      (∀ i, 0 < i → i < r.heap.size → r.heap.cmp (r.heap.storage ((i - 1) / 2)) (r.heap.storage i) ≤ 0) ∧
      (r.heap.elems : Multiset α) = r.pushed - r.removed ∧ r.heap.size ≤ r.heap.capacity ∧
      ∀ op : HeapOp α β,
        PQStep r.heap.cmp r.heap.capacity (r.heap.elems : Multiset α) op (op.run r.heap).2 (op.run r.heap).1.elems) ∧
    (∀ r : HeapRun α, HeapReach β r → ∀ item,
      ((minHeapPush r.heap item).2 = -eNoMem ↔ r.heap.size = r.heap.capacity) ∧
      ((minHeapPush r.heap item).2 = -eNoMem → (minHeapPush r.heap item).1 = r.heap)) ∧
    (∀ r : HeapRun α, HeapReach β r →
      (minHeapPeek r.heap = none ↔ r.heap.size = 0) ∧
      (∀ x, minHeapPeek r.heap = some x → x ∈ r.heap.elems ∧ ∀ y ∈ r.heap.elems, r.heap.cmp x y ≤ 0) ∧
      ((minHeapPop r.heap).2 = none ↔ r.heap.size = 0) ∧
      (∀ x, (minHeapPop r.heap).2 = some x → x ∈ r.heap.elems ∧ ∀ y ∈ r.heap.elems, r.heap.cmp x y ≤ 0)) ∧
    (∀ r : HeapRun α, HeapReach β r → ∀ id,
      ((minHeapRemove r.heap id).2 = none ↔ r.heap.size ≤ id) ∧
      (id < r.heap.size → (minHeapRemove r.heap id).2 = some (r.heap.storage id) ∧
        (minHeapRemove r.heap id).1.elems.Perm (r.heap.elems.eraseIdx id))) ∧
    (∀ (heap : MinHeap α) (eq : α → β → Bool) (other : β),
      (∀ i, minHeapFind heap eq other = some i ↔
        i < heap.size ∧ eq (heap.storage i) other = true ∧ ∀ j < i, eq (heap.storage j) other = false) ∧
      (minHeapFind heap eq other = none ↔ ∀ i < heap.size, eq (heap.storage i) other = false)) := by
  refine ⟨fun r hr => ?_, fun r hr item => ?_, fun r hr => ?_, fun r hr id => ?_,
    fun heap eq other => ⟨minHeapFind_eq_some heap eq other, minHeapFind_eq_none heap eq other⟩⟩
  · have hi := hr.inv
    exact ⟨fun i hi0 hin => hi.ok.ordered i hin hi0, hi.elems_eq, hi.ok.size_le, fun op => (hi.ok.run op).2.2.2⟩
  · have hok := hr.inv.ok
    refine ⟨hok.push_eq_noMem_iff item, fun hfull => ?_⟩
    have hge : r.heap.capacity ≤ r.heap.size := by have := (hok.push_eq_noMem_iff item).1 hfull; omega
    rw [minHeapPush_of_full item hge]
  · have hok := hr.inv.ok
    refine ⟨minHeapPeek_eq_none, fun x hx => hok.peek hx, ?_, fun x hx => hok.pop_min hx⟩
    exact minHeapRemove_eq_none_iff.trans (by omega)
  · have hok := hr.inv.ok
    refine ⟨minHeapRemove_eq_none_iff, fun hid => ?_⟩
    obtain ⟨heap', hrm, -, hp, -⟩ := hok.remove hid
    rw [hrm]
    exact ⟨rfl, hp⟩

end Zephyr.Sys
