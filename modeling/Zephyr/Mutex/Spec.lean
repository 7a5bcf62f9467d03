import Zephyr.Mutex.Inv

namespace Zephyr.Mutex

open Zephyr.Lib Zephyr.Timeout MutexSys

theorem kMutexLock_owner_of_ok (ceiling : Int) (s : MutexSys) (t m : Nat) (tmo : KTimeout)
    (h : (kMutexLock ceiling s t m tmo).2 = some 0) :
    ((kMutexLock ceiling s t m tmo).1.mutexes m).owner = some t := by
  by_cases hc : (s.mutexes m).lockCount = 0 ∨ (s.mutexes m).owner = some t
  · simp [kMutexLock, hc]
  · by_cases hz : tmo = .rel 0
    · simp [kMutexLock, hc, hz, EBUSY] at h
    · simp [kMutexLock, hc, hz] at h

theorem kMutexLock_of_busy (ceiling : Int) (s : MutexSys) (t m : Nat) (tmo : KTimeout)
    (h : (kMutexLock ceiling s t m tmo).2 = some (-EBUSY)) :
    (kMutexLock ceiling s t m tmo).1 = s ∧ (s.mutexes m).owner ≠ some t := by
  by_cases hc : (s.mutexes m).lockCount = 0 ∨ (s.mutexes m).owner = some t
  · simp [kMutexLock, hc, EBUSY] at h
  · by_cases hz : tmo = .rel 0
    · exact ⟨by simp [kMutexLock, hc, hz], fun e => hc (Or.inr e)⟩
    · simp [kMutexLock, hc, hz] at h

theorem lockResume_of_woken (ceiling : Int) (s : MutexSys) {t m : Nat} {rc : Int}
    (ht : s.state t = .woken m rc) :
    lockResume ceiling s t = if rc = 0 then (s.setState t .ready, some 0)
      else (lockTimeoutRestore ceiling (s.setState t .ready) m, some (-EAGAIN)) := by
  simp [lockResume, ht]

theorem kMutexUnlock_of_not_owner (s : MutexSys) {t m : Nat} (ho : (s.mutexes m).owner ≠ some t) :
    kMutexUnlock s t m = (s, if (s.mutexes m).owner = none then -EINVAL else -EPERM) := by
  unfold kMutexUnlock
  split
  · next hn => simp [hn]
  · next o hn =>
    have hot : o ≠ t := fun e => ho (by rw [hn, e])
    simp [hot, hn]

theorem kMutexUnlock_of_last (s : MutexSys) {t m : Nat} (ho : (s.mutexes m).owner = some t)
    (hc : (s.mutexes m).lockCount = 1) :
    kMutexUnlock s t m = (unlockHandOff (adjustOwnerPrio s m (s.mutexes m).ownerOrigPrio) m, 0) := by
  simp [kMutexUnlock, ho, hc]

-- The owner runs, so its priority change leaves every wait queue alone.
theorem adjustOwnerPrio_of_not_pended (s : MutexSys) {t m : Nat} (p : Int)
    (ho : (s.mutexes m).owner = some t) (ht : ∀ k b, s.state t ≠ .pended k b) :
    (adjustOwnerPrio s m p).mutexes = s.mutexes ∧ (adjustOwnerPrio s m p).state = s.state := by
  rcases adjustOwnerPrio_cases s m p with e | ⟨o, ho', e⟩ <;> rw [e]
  · exact ⟨rfl, rfl⟩
  · rw [ho] at ho'
    cases ho'
    cases hs : s.state t with
    | pended k b => exact absurd hs (ht k b)
    | ready => simp only [zThreadPrioSet, hs]; exact ⟨rfl, rfl⟩
    | woken k rc => simp only [zThreadPrioSet, hs]; exact ⟨rfl, rfl⟩

-- k_mutex_lock and k_mutex_unlock as seen from any reachable state. The
-- hand-off goes to the head of wait_q: the highest priority, and among equal
-- priorities the thread whose latest entry into wait_q (its pend, or a
-- priority change while pended) is the earliest.
structure MutexSpec (ceiling : Int) (s : MutexSys) : Prop where
  owner_none_iff : ∀ m, (s.mutexes m).owner = none ↔ (s.mutexes m).lockCount = 0
  owner_not_pended : ∀ m t b, (s.mutexes m).owner = some t → s.state t ≠ .pended m b
  lock_ok_owner : ∀ t m tmo, s.state t = .ready → (kMutexLock ceiling s t m tmo).2 = some 0 →
    ((kMutexLock ceiling s t m tmo).1.mutexes m).owner = some t
  resume_ok_owner : ∀ t m, s.state t = .woken m 0 →
    (lockResume ceiling s t).2 = some 0 ∧ ((lockResume ceiling s t).1.mutexes m).owner = some t
  count_eq_held : ∀ t m, (s.mutexes m).owner = some t →
    (s.mutexes m).lockCount = s.held t m + if s.state t = .woken m 0 then 1 else 0
  unlock_not_owner : ∀ t m, (s.mutexes m).owner ≠ some t →
    kMutexUnlock s t m = (s, if (s.mutexes m).owner = none then -EINVAL else -EPERM)
  unlock_release : ∀ t m, s.state t = .ready → (s.mutexes m).owner = some t →
    (s.mutexes m).lockCount = 1 → (s.mutexes m).waitQ = [] →
    (kMutexUnlock s t m).2 = 0 ∧ ((kMutexUnlock s t m).1.mutexes m).owner = none ∧
      ((kMutexUnlock s t m).1.mutexes m).lockCount = 0
  unlock_handoff : ∀ t m n rest, s.state t = .ready → (s.mutexes m).owner = some t →
    (s.mutexes m).lockCount = 1 → (s.mutexes m).waitQ = n :: rest →
    (kMutexUnlock s t m).2 = 0 ∧ ((kMutexUnlock s t m).1.mutexes m).owner = some n ∧
      ((kMutexUnlock s t m).1.mutexes m).lockCount = 1 ∧
      ((kMutexUnlock s t m).1.mutexes m).waitQ = rest ∧
      (lockResume ceiling (kMutexUnlock s t m).1 n).2 = some 0 ∧
      ∀ x ∈ rest, s.prio n < s.prio x ∨ (s.prio n = s.prio x ∧ s.enq n < s.enq x)
  busy_not_owner : ∀ t m tmo, s.state t = .ready →
    (kMutexLock ceiling s t m tmo).2 = some (-EBUSY) →
    (kMutexLock ceiling s t m tmo).1 = s ∧ (s.mutexes m).owner ≠ some t ∧
      ∀ k, t ∉ (s.mutexes k).waitQ
  timeout_not_owner : ∀ t m rc, s.state t = .woken m rc → rc ≠ 0 →
    (lockResume ceiling s t).2 = some (-EAGAIN) ∧
      ((lockResume ceiling s t).1.mutexes m).owner ≠ some t ∧
      ∀ k, t ∉ ((lockResume ceiling s t).1.mutexes k).waitQ

theorem MutexInv.not_mem_of_ready {s : MutexSys} (h : MutexInv s) {t : Nat}
    (ht : s.state t = .ready) (k : Nat) : t ∉ (s.mutexes k).waitQ :=
  h.queue.not_mem (fun _ _ => by rw [ht]; simp) k

theorem mutex_lock_unlock_spec (ceiling : Int) (s : MutexSys) (hr : MutexReach ceiling s) :
    MutexSpec ceiling s := by
  have h := hr.inv
  refine ⟨h.locks.owner_none_iff, h.locks.owner_not_pended,
    fun t m tmo _ hok => kMutexLock_owner_of_ok ceiling s t m tmo hok, ?_, h.locks.held_owner,
    fun t m ho => kMutexUnlock_of_not_owner s ho, ?_, ?_, ?_, ?_⟩
  · intro t m ht
    rw [lockResume_of_woken ceiling s ht, if_pos rfl]
    exact ⟨rfl, h.locks.woken_owner t m ht⟩
  · intro t m ht ho hc hq
    obtain ⟨hm, -⟩ := adjustOwnerPrio_of_not_pended s (s.mutexes m).ownerOrigPrio ho
      (fun _ _ => by rw [ht]; simp)
    rw [kMutexUnlock_of_last s ho hc]
    simp [unlockHandOff, hm, hq]
  · intro t m n rest ht ho hc hq
    obtain ⟨hm, -⟩ := adjustOwnerPrio_of_not_pended s (s.mutexes m).ownerOrigPrio ho
      (fun _ _ => by rw [ht]; simp)
    have hfirst := (List.pairwise_cons.1 (hq ▸ h.queue.sorted m)).1
    rw [kMutexUnlock_of_last s ho hc]
    simp only [unlockHandOff, hm, hq]
    refine ⟨trivial, by simp, by simp [hc], by simp, by simp [lockResume], hfirst⟩
  · intro t m tmo ht hb
    obtain ⟨e, ho⟩ := kMutexLock_of_busy ceiling s t m tmo hb
    exact ⟨e, ho, h.not_mem_of_ready ht⟩
  · intro t m rc ht hrc
    have hl := lockEq_restore ceiling (s.setState t .ready) m
    have h' : MutexInv ((MutexOp.resume t).apply ceiling s) := h.step ⟨_, rfl, rfl⟩
    rw [lockResume_of_woken ceiling s ht, if_neg hrc]
    refine ⟨rfl, ?_, ?_⟩
    · rw [hl.owner]
      simpa using h.locks.woken_fail t m rc ht hrc
    · have e : (MutexOp.resume t).apply ceiling s = lockTimeoutRestore ceiling (s.setState t .ready) m := by
        simp [MutexOp.apply, lockResume, ht, hrc, EAGAIN]
      rw [e] at h'
      exact h'.not_mem_of_ready (by rw [hl.state]; simp)

-- Priorities 7, 5, 5 and 3 for threads 0 (the owner of mutex 0), 1 (T),
-- 2 (V) and 3 (U). T holds mutex 1 and waits for mutex 0 before V does; U's
-- timed wait on mutex 1 boosts T, and U's timeout restores T, which
-- re-enters mutex 0's wait_q behind V.
def prioFlipPrio : Nat → Int := fun t => if t = 0 then 7 else if t = 3 then 3 else 5

def prioFlipOps : List MutexOp :=
  [.lock 0 0 .forever, .lock 1 1 .forever, .lock 1 0 .forever, .lock 2 0 .forever,
    .lock 3 1 (.rel 10), .timeout 3, .resume 3]

def prioFlipState : MutexSys := MutexOp.run (-128) (mutexSysInit prioFlipPrio) prioFlipOps

theorem prioFlip_reach : MutexReach (-128) prioFlipState :=
  MutexReach.run (.init ⟨prioFlipPrio, rfl⟩) prioFlipOps (by decide)

theorem mutex_lock_unlock_spec_prioFlip :
    MutexReach (-128) prioFlipState ∧ MutexSpec (-128) prioFlipState :=
  ⟨prioFlip_reach, mutex_lock_unlock_spec (-128) prioFlipState prioFlip_reach⟩

theorem mutex_handoff_skips_longest_waiter :
    MutexReach (-128) prioFlipState ∧
    (∀ k ∈ [3, 4, 5, 6, 7],
      (MutexOp.run (-128) (mutexSysInit prioFlipPrio) (prioFlipOps.take k)).state 1 = .pended 0 false) ∧
    (MutexOp.run (-128) (mutexSysInit prioFlipPrio) (prioFlipOps.take 3)).state 2 = .ready ∧
    prioFlipState.state 2 = .pended 0 false ∧
    prioFlipState.prio 1 = prioFlipState.prio 2 ∧
    (prioFlipState.mutexes 0).owner = some 0 ∧ (prioFlipState.mutexes 0).lockCount = 1 ∧
    prioFlipState.state 0 = .ready ∧
    (kMutexUnlock prioFlipState 0 0).2 = 0 ∧
    ((kMutexUnlock prioFlipState 0 0).1.mutexes 0).owner = some 2 ∧
    (kMutexUnlock prioFlipState 0 0).1.state 1 = .pended 0 false :=
  ⟨prioFlip_reach, by decide⟩

/-! Priority inheritance against CONFIG_PRIORITY_CEILING -/

theorem newPrioForInheritance_eq (ceiling target limit : Int) :
    newPrioForInheritance ceiling target limit = max ceiling (min target limit) := by
  simp only [newPrioForInheritance, max_def, min_def]
  split_ifs <;> omega

@[simp] theorem zThreadPrioSet_prio (s : MutexSys) (t : Nat) (p : Int) : (zThreadPrioSet s t p).prio t = p := by
  unfold zThreadPrioSet
  split <;> simp

theorem adjustOwnerPrio_prio {s : MutexSys} {m o : Nat} (ho : (s.mutexes m).owner = some o) (p : Int) :
    (adjustOwnerPrio s m p).prio o = p := by
  unfold adjustOwnerPrio
  rw [ho]
  by_cases hp : s.prio o = p
  · simp [hp]
  · simp [hp]

-- The priority the owner should have: owner_orig_prio, raised to the highest
-- waiter's priority with the ceiling applied to it.
def inheritedPrio (ceiling orig : Int) (waiters : List Int) : Int :=
  match waiters.min? with
  | some p => min orig (max ceiling p)
  | none => orig

-- A waiter's timeout applies the ceiling after taking the higher of the head
-- waiter's priority and owner_orig_prio: an owner whose owner_orig_prio is
-- above the ceiling is set to the ceiling, below owner_orig_prio.
theorem lockTimeoutRestore_prio_of_lt_ceiling {ceiling : Int} {s : MutexSys} {m o w : Nat} {rest : List Nat}
    (ho : (s.mutexes m).owner = some o) (hq : (s.mutexes m).waitQ = w :: rest)
    (hlt : (s.mutexes m).ownerOrigPrio < ceiling) :
    (lockTimeoutRestore ceiling s m).prio o = ceiling := by
  have hnew : newPrioForInheritance ceiling (s.prio w) (s.mutexes m).ownerOrigPrio = ceiling := by
    rw [newPrioForInheritance_eq]
    omega
  simp only [lockTimeoutRestore, ho, hq, hnew]
  exact adjustOwnerPrio_prio ho ceiling

-- CONFIG_PRIORITY_CEILING 0. Thread 0 (priority -2) owns mutex 0; threads 1
-- (priority 5) and 2 (priority 3) wait on it with finite timeouts, and thread
-- 2's timeout moves thread 0 to the ceiling.
def ceilingDropPrio : Nat → Int := fun t => if t = 0 then -2 else if t = 1 then 5 else 3

def ceilingDropOps : List MutexOp :=
  [.lock 0 0 .forever, .lock 1 0 (.rel 10), .lock 2 0 (.rel 10), .timeout 2, .resume 2]

def ceilingDropState : MutexSys := MutexOp.run 0 (mutexSysInit ceilingDropPrio) ceilingDropOps

theorem ceilingDrop_reach : MutexReach 0 ceilingDropState :=
  MutexReach.run (.init ⟨ceilingDropPrio, rfl⟩) ceilingDropOps (by decide)

-- After the first lock, thread 0 holds mutex 0 and no thread holds anything else.
theorem ceilingDrop_held {n : Nat} (h1 : 1 ≤ n) (hn : n ≤ ceilingDropOps.length) :
    (MutexOp.run 0 (mutexSysInit ceilingDropPrio) (ceilingDropOps.take n)).held =
      fun t k => if t = 0 ∧ k = 0 then 1 else 0 := by
  simp only [ceilingDropOps, List.length_cons, List.length_nil] at hn
  interval_cases n <;> (funext t k; rfl)

theorem mutex_timeout_drops_owner_below_orig_prio :
    MutexReach 0 ceilingDropState ∧
    (∀ n, 1 ≤ n → n ≤ ceilingDropOps.length →
      (MutexOp.run 0 (mutexSysInit ceilingDropPrio) (ceilingDropOps.take n)).held =
        fun t k => if t = 0 ∧ k = 0 then 1 else 0) ∧
    (ceilingDropState.mutexes 0).owner = some 0 ∧ (ceilingDropState.mutexes 0).ownerOrigPrio = -2 ∧
    (ceilingDropState.mutexes 0).waitQ = [1] ∧ ceilingDropState.prio 1 = 5 ∧
    inheritedPrio 0 (-2) ((ceilingDropState.mutexes 0).waitQ.map ceilingDropState.prio) = -2 ∧
    ceilingDropState.prio 0 = 0 :=
  ⟨ceilingDrop_reach, fun _ h1 hn => ceilingDrop_held h1 hn, by decide⟩

end Zephyr.Mutex
