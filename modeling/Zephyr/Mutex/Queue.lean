import Zephyr.Mutex.Step

namespace Zephyr.Mutex

open Zephyr.Lib MutexSys

def Before (s : MutexSys) (a b : Nat) : Prop :=
  s.prio a < s.prio b ∨ (s.prio a = s.prio b ∧ s.enq a < s.enq b)

@[simp] theorem before_setMutex (s : MutexSys) (m : Nat) (mx : KMutex) :
    Before (s.setMutex m mx) = Before s := rfl

@[simp] theorem before_setState (s : MutexSys) (t : Nat) (st : TState) :
    Before (s.setState t st) = Before s := rfl

@[simp] theorem before_setHeld (s : MutexSys) (t m n : Nat) :
    Before (s.setHeld t m n) = Before s := rfl

theorem Before.prio_le {s : MutexSys} {a b : Nat} (h : Before s a b) : s.prio a ≤ s.prio b := by
  rcases h with h | ⟨h, -⟩
  · exact h.le
  · exact h.le

theorem Before.ne {s : MutexSys} {a b : Nat} (h : Before s a b) : a ≠ b := by
  rintro rfl
  rcases h with h | ⟨-, h⟩ <;> exact lt_irrefl _ h

theorem pairwise_before_congr {s s' : MutexSys} {t : Nat} {l : List Nat}
    (hl : l.Pairwise (Before s)) (ht : t ∉ l)
    (hp : ∀ u, u ≠ t → s'.prio u = s.prio u) (he : ∀ u, u ≠ t → s'.enq u = s.enq u) :
    l.Pairwise (Before s') := by
  refine hl.imp_of_mem fun {a b} ha hb h => ?_
  have hat : a ≠ t := fun e => ht (e ▸ ha)
  have hbt : b ≠ t := fun e => ht (e ▸ hb)
  unfold Before
  rwa [hp a hat, hp b hbt, he a hat, he b hbt]

-- The wait queues: exactly the pended threads, in priority order and, within
-- one priority, in the order of their latest entry.
structure QueueInv (s : MutexSys) : Prop where
  mem_waitQ : ∀ m t, t ∈ (s.mutexes m).waitQ ↔ ∃ b, s.state t = .pended m b
  sorted : ∀ m, (s.mutexes m).waitQ.Pairwise (Before s)
  enq_lt : ∀ t m b, s.state t = .pended m b → s.enq t < s.clock

-- The same with thread `t` taken out of every wait queue.
structure QueueOk (s : MutexSys) (t : Nat) : Prop where
  mem_waitQ : ∀ m u, u ≠ t → (u ∈ (s.mutexes m).waitQ ↔ ∃ b, s.state u = .pended m b)
  not_mem : ∀ m, t ∉ (s.mutexes m).waitQ
  sorted : ∀ m, (s.mutexes m).waitQ.Pairwise (Before s)
  enq_lt : ∀ u m b, u ≠ t → s.state u = .pended m b → s.enq u < s.clock

theorem QueueInv.nodup {s : MutexSys} (h : QueueInv s) (m : Nat) : (s.mutexes m).waitQ.Nodup :=
  (h.sorted m).imp Before.ne

theorem QueueInv.not_mem {s : MutexSys} (h : QueueInv s) {t : Nat}
    (ht : ∀ m b, s.state t ≠ .pended m b) (m : Nat) : t ∉ (s.mutexes m).waitQ := by
  intro hm
  obtain ⟨b, hb⟩ := (h.mem_waitQ m t).1 hm
  exact ht m b hb

theorem QueueInv.release {s : MutexSys} (h : QueueInv s) {t : Nat}
    (ht : ∀ m b, s.state t ≠ .pended m b) : QueueOk s t :=
  ⟨fun m u _ => h.mem_waitQ m u, h.not_mem ht, h.sorted, fun u m b _ => h.enq_lt u m b⟩

theorem QueueInv.erase {s : MutexSys} (h : QueueInv s) {t m : Nat} {b : Bool}
    (ht : s.state t = .pended m b) (mx : KMutex) (hmx : mx.waitQ = (s.mutexes m).waitQ.erase t) :
    QueueOk (s.setMutex m mx) t := by
  refine ⟨fun k u hu => ?_, fun k => ?_, fun k => ?_, fun u k b' _ => h.enq_lt u k b'⟩
  · by_cases hk : k = m
    · subst hk
      simp only [setMutex_mutexes, if_true, hmx, List.mem_erase_of_ne hu, setMutex_state]
      exact h.mem_waitQ k u
    · simpa [hk] using h.mem_waitQ k u
  · by_cases hk : k = m
    · subst hk
      simpa [hmx] using (h.nodup k).not_mem_erase
    · simp only [setMutex_mutexes, hk, if_false]
      intro hm
      obtain ⟨b', hb'⟩ := (h.mem_waitQ k t).1 hm
      rw [ht] at hb'
      exact hk (TState.pended.inj hb').1.symm
  · by_cases hk : k = m
    · subst hk
      simpa [hmx] using (h.sorted k).sublist List.erase_sublist
    · simpa [hk] using h.sorted k

theorem QueueOk.setPrio {s : MutexSys} {t : Nat} (h : QueueOk s t) (p : Int) :
    QueueOk (s.setPrio t p) t := by
  refine ⟨fun m u hu => by simpa using h.mem_waitQ m u hu, fun m => by simpa using h.not_mem m,
    fun m => ?_, fun u m b hu => by simpa using h.enq_lt u m b hu⟩
  refine pairwise_before_congr (h.sorted m) (h.not_mem m) (fun u hu => ?_) (fun u _ => rfl)
  simp [hu]

theorem QueueOk.setState {s : MutexSys} {t : Nat} (h : QueueOk s t) (st : TState) :
    QueueOk (s.setState t st) t := by
  refine ⟨fun m u hu => ?_, fun m => by simpa using h.not_mem m, fun m => h.sorted m,
    fun u m b hu => ?_⟩
  · simpa [hu] using h.mem_waitQ m u hu
  · simpa [hu] using h.enq_lt u m b hu

theorem QueueOk.close {s : MutexSys} {t : Nat} (h : QueueOk s t)
    (ht : ∀ m b, s.state t ≠ .pended m b) : QueueInv s := by
  refine ⟨fun m u => ?_, h.sorted, fun u m b hu => ?_⟩
  · by_cases hut : u = t
    · subst hut
      simp only [h.not_mem m, false_iff, not_exists]
      exact ht m
    · exact h.mem_waitQ m u hut
  · by_cases hut : u = t
    · exact absurd (hut ▸ hu) (ht m b)
    · exact h.enq_lt u m b hut hu

theorem QueueOk.insert {s : MutexSys} {t m : Nat} {b : Bool} (h : QueueOk s t)
    (ht : s.state t = .pended m b) : QueueInv (waitqInsert s m t) := by
  have hp : ∀ u, (waitqInsert s m t).prio u = s.prio u := fun _ => rfl
  have he : ∀ u, u ≠ t → (waitqInsert s m t).enq u = s.enq u := fun u hu => by simp [hu]
  have het : (waitqInsert s m t).enq t = s.clock := by simp
  refine ⟨fun k u => ?_, fun k => ?_, fun u k b' hu => ?_⟩
  · by_cases hut : u = t
    · subst hut
      by_cases hk : k = m
      · subst hk
        simp [mem_waitqAdd, ht]
      · simp [hk, h.not_mem k, ht, Ne.symm hk]
    · by_cases hk : k = m
      · subst hk
        simpa [mem_waitqAdd, hut] using h.mem_waitQ k u hut
      · simpa [hk] using h.mem_waitQ k u hut
  · have hq : ∀ k, (s.mutexes k).waitQ.Pairwise (Before (waitqInsert s m t)) := fun k =>
      pairwise_before_congr (h.sorted k) (h.not_mem k) (fun u _ => hp u) he
    by_cases hk : k = m
    · subst hk
      rw [waitqInsert_mutexes, if_pos rfl]
      refine pairwise_waitqAdd _ t _ (hq k) (fun _ _ => Before.prio_le) (fun x hx hle => ?_)
        (fun x _ hlt => Or.inl hlt)
      have hxt : x ≠ t := fun e => h.not_mem k (e ▸ hx)
      obtain ⟨b', hb'⟩ := (h.mem_waitQ k x hxt).1 hx
      rcases hle.lt_or_eq with hlt | heq
      · exact Or.inl hlt
      · refine Or.inr ⟨heq, ?_⟩
        rw [he x hxt, het]
        exact h.enq_lt x k b' hxt hb'
    · rw [waitqInsert_mutexes, if_neg hk]
      exact hq k
  · by_cases hut : u = t
    · subst hut
      simp
    · have hu' : s.state u = .pended k b' := by simpa using hu
      rw [he u hut, waitqInsert_clock]
      exact Nat.lt_succ_of_lt (h.enq_lt u k b' hut hu')

theorem QueueInv.setMutex_of_waitQ {s : MutexSys} (h : QueueInv s) {m : Nat} {mx : KMutex}
    (hmx : mx.waitQ = (s.mutexes m).waitQ) : QueueInv (s.setMutex m mx) := by
  refine ⟨fun k u => ?_, fun k => ?_, fun u k b hu => h.enq_lt u k b hu⟩
  · by_cases hk : k = m
    · subst hk
      simpa [hmx] using h.mem_waitQ k u
    · simpa [hk] using h.mem_waitQ k u
  · by_cases hk : k = m
    · subst hk
      simpa [hmx] using h.sorted k
    · simpa [hk] using h.sorted k

theorem QueueInv.setHeld {s : MutexSys} (h : QueueInv s) (t m n : Nat) :
    QueueInv (s.setHeld t m n) :=
  ⟨fun k u => by simpa using h.mem_waitQ k u, fun k => by simpa using h.sorted k,
    fun u k b hu => by simpa using h.enq_lt u k b hu⟩

theorem QueueInv.prioSet {s : MutexSys} (h : QueueInv s) (t : Nat) (p : Int) :
    QueueInv (zThreadPrioSet s t p) := by
  cases hs : s.state t with
  | pended m b =>
    simp only [zThreadPrioSet, hs]
    exact ((h.erase hs _ rfl).setPrio p).insert (by simpa using hs)
  | ready =>
    simp only [zThreadPrioSet, hs]
    exact ((h.release (by simp [hs])).setPrio p).close (by simp [hs])
  | woken m rc =>
    simp only [zThreadPrioSet, hs]
    exact ((h.release (by simp [hs])).setPrio p).close (by simp [hs])

theorem adjustOwnerPrio_cases (s : MutexSys) (m : Nat) (p : Int) :
    adjustOwnerPrio s m p = s ∨
      ∃ o, (s.mutexes m).owner = some o ∧ adjustOwnerPrio s m p = zThreadPrioSet s o p := by
  unfold adjustOwnerPrio
  split
  · next o ho =>
    split
    · exact Or.inr ⟨o, ho, rfl⟩
    · exact Or.inl rfl
  · exact Or.inl rfl

theorem lockBoost_cases (ceiling : Int) (s : MutexSys) (t m : Nat) :
    lockBoost ceiling s t m = s ∨ ∃ p, lockBoost ceiling s t m = adjustOwnerPrio s m p := by
  unfold lockBoost
  split
  · dsimp only
    split
    · exact Or.inr ⟨_, rfl⟩
    · exact Or.inl rfl
  · exact Or.inl rfl

theorem lockTimeoutRestore_cases (ceiling : Int) (s : MutexSys) (m : Nat) :
    lockTimeoutRestore ceiling s m = s ∨
      ∃ p, lockTimeoutRestore ceiling s m = adjustOwnerPrio s m p := by
  unfold lockTimeoutRestore
  dsimp only
  split
  · exact Or.inr ⟨_, rfl⟩
  · exact Or.inl rfl

theorem QueueInv.adjust {s : MutexSys} (h : QueueInv s) (m : Nat) (p : Int) :
    QueueInv (adjustOwnerPrio s m p) := by
  rcases adjustOwnerPrio_cases s m p with e | ⟨o, -, e⟩ <;> rw [e]
  · exact h
  · exact h.prioSet o p

theorem QueueInv.pend {s : MutexSys} (h : QueueInv s) {t : Nat} (m : Nat) (b : Bool)
    (ht : ∀ m b, s.state t ≠ .pended m b) : QueueInv (pendCurr s t m b) :=
  ((h.release ht).setState _).insert
    (show (s.setState t (.pended m b)).state t = .pended m b by simp)

theorem QueueInv.timeout {s : MutexSys} (h : QueueInv s) (t : Nat) :
    QueueInv (zThreadTimeout s t) := by
  unfold zThreadTimeout
  split
  · next m hs => exact ((h.erase hs _ rfl).setState _).close (by simp)
  · exact h

end Zephyr.Mutex
