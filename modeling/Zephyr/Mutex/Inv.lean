import Zephyr.Mutex.Queue

namespace Zephyr.Mutex

open Zephyr.Lib MutexSys

structure LockEq (s s' : MutexSys) : Prop where
  state : s'.state = s.state
  held : s'.held = s.held
  owner : ∀ m, (s'.mutexes m).owner = (s.mutexes m).owner
  lockCount : ∀ m, (s'.mutexes m).lockCount = (s.mutexes m).lockCount

theorem LockEq.refl (s : MutexSys) : LockEq s s := ⟨rfl, rfl, fun _ => rfl, fun _ => rfl⟩

theorem lockEq_prioSet (s : MutexSys) (t : Nat) (p : Int) : LockEq s (zThreadPrioSet s t p) := by
  cases hs : s.state t with
  | pended m b =>
    simp only [zThreadPrioSet, hs]
    refine ⟨rfl, rfl, fun k => ?_, fun k => ?_⟩
    · by_cases hk : k = m <;> simp [hk]
    · by_cases hk : k = m <;> simp [hk]
  | ready =>
    simp only [zThreadPrioSet, hs]
    exact ⟨rfl, rfl, fun _ => rfl, fun _ => rfl⟩
  | woken m rc =>
    simp only [zThreadPrioSet, hs]
    exact ⟨rfl, rfl, fun _ => rfl, fun _ => rfl⟩

theorem lockEq_adjust (s : MutexSys) (m : Nat) (p : Int) : LockEq s (adjustOwnerPrio s m p) := by
  rcases adjustOwnerPrio_cases s m p with e | ⟨o, -, e⟩ <;> rw [e]
  · exact LockEq.refl s
  · exact lockEq_prioSet s o p

theorem lockEq_boost (ceiling : Int) (s : MutexSys) (t m : Nat) :
    LockEq s (lockBoost ceiling s t m) := by
  rcases lockBoost_cases ceiling s t m with e | ⟨p, e⟩ <;> rw [e]
  · exact LockEq.refl s
  · exact lockEq_adjust s m p

theorem lockEq_restore (ceiling : Int) (s : MutexSys) (m : Nat) :
    LockEq s (lockTimeoutRestore ceiling s m) := by
  rcases lockTimeoutRestore_cases ceiling s m with e | ⟨p, e⟩ <;> rw [e]
  · exact LockEq.refl s
  · exact lockEq_adjust s m p

-- Ownership: the owner and count agree, the owner is not waiting on its
-- own mutex, a hand-off is complete before its thread returns, and the count
-- is the owner's successful locks minus its successful unlocks.
structure LockInv (s : MutexSys) : Prop where
  owner_none_iff : ∀ m, (s.mutexes m).owner = none ↔ (s.mutexes m).lockCount = 0
  owner_not_pended : ∀ m t b, (s.mutexes m).owner = some t → s.state t ≠ .pended m b
  woken_owner : ∀ t m, s.state t = .woken m 0 → (s.mutexes m).owner = some t
  woken_fail : ∀ t m rc, s.state t = .woken m rc → rc ≠ 0 → (s.mutexes m).owner ≠ some t
  held_owner : ∀ t m, (s.mutexes m).owner = some t →
    (s.mutexes m).lockCount = s.held t m + if s.state t = .woken m 0 then 1 else 0
  held_free : ∀ t m, (s.mutexes m).owner ≠ some t → s.held t m = 0

theorem LockInv.of_lockEq {s s' : MutexSys} (h : LockInv s) (e : LockEq s s') : LockInv s' := by
  obtain ⟨hst, hh, ho, hc⟩ := e
  refine ⟨fun m => ?_, fun m t b => ?_, fun t m => ?_, fun t m rc => ?_, fun t m => ?_,
    fun t m => ?_⟩
  · rw [ho, hc]
    exact h.owner_none_iff m
  · rw [ho, hst]
    exact h.owner_not_pended m t b
  · rw [ho, hst]
    exact h.woken_owner t m
  · rw [ho, hst]
    exact h.woken_fail t m rc
  · rw [ho, hc, hst, hh]
    exact h.held_owner t m
  · rw [ho, hh]
    exact h.held_free t m

theorem lockEq_setMutex (s : MutexSys) {m : Nat} {mx : KMutex}
    (ho : mx.owner = (s.mutexes m).owner) (hc : mx.lockCount = (s.mutexes m).lockCount) :
    LockEq s (s.setMutex m mx) := by
  refine ⟨rfl, rfl, fun k => ?_, fun k => ?_⟩
  · by_cases hk : k = m
    · subst hk
      simpa using ho
    · simp [hk]
  · by_cases hk : k = m
    · subst hk
      simpa using hc
    · simp [hk]

theorem LockInv.lockFast {s : MutexSys} (h : LockInv s) {t m : Nat} (ht : s.state t = .ready)
    (hc : (s.mutexes m).lockCount = 0 ∨ (s.mutexes m).owner = some t) (o : Int) :
    LockInv ((s.setMutex m
      { s.mutexes m with
        ownerOrigPrio := o, lockCount := (s.mutexes m).lockCount + 1, owner := some t }).setHeld
      t m (s.held t m + 1)) := by
  have hfree : ∀ u, u ≠ t → (s.mutexes m).owner ≠ some u := by
    intro u hu ho
    rcases hc with hc | hc
    · rw [(h.owner_none_iff m).2 hc] at ho
      cases ho
    · rw [hc] at ho
      exact hu (Option.some.inj ho).symm
  have hheld : s.held t m = (s.mutexes m).lockCount := by
    rcases hc with hc | hc
    · rw [hc]
      exact h.held_free t m (by rw [(h.owner_none_iff m).2 hc]; simp)
    · rw [h.held_owner t m hc, ht]
      simp
  refine ⟨fun k => ?_, fun k u b hk => ?_, fun u k hu => ?_, fun u k rc hu hrc => ?_,
    fun u k hk => ?_, fun u k hk => ?_⟩
  · by_cases hkm : k = m
    · subst hkm
      simp
    · simpa [hkm] using h.owner_none_iff k
  · by_cases hkm : k = m
    · subst hkm
      obtain rfl : t = u := by simpa using hk
      simp [ht]
    · simp only [setHeld_mutexes, setMutex_mutexes, hkm, if_false] at hk
      simpa using h.owner_not_pended k u b hk
  · simp only [setHeld_state, setMutex_state] at hu
    by_cases hkm : k = m
    · subst hkm
      by_cases hut : u = t
      · subst hut
        rw [ht] at hu
        cases hu
      · exact absurd (h.woken_owner u k hu) (hfree u hut)
    · simpa [hkm] using h.woken_owner u k hu
  · simp only [setHeld_state, setMutex_state] at hu
    by_cases hkm : k = m
    · subst hkm
      simp only [setHeld_mutexes, setMutex_mutexes, if_true, ne_eq, Option.some.injEq]
      rintro rfl
      rw [ht] at hu
      cases hu
    · simpa [hkm] using h.woken_fail u k rc hu hrc
  · by_cases hkm : k = m
    · subst hkm
      obtain rfl : t = u := by simpa using hk
      simp [ht, hheld]
    · simp only [setHeld_mutexes, setMutex_mutexes, hkm, if_false] at hk
      simp only [setHeld_mutexes, setMutex_mutexes, hkm, if_false, setHeld_held, and_false,
        setHeld_state, setMutex_state]
      exact h.held_owner u k hk
  · by_cases hkm : k = m
    · subst hkm
      have hut : u ≠ t := fun e => hk (by simp [e])
      simpa [hut] using h.held_free u k (hfree u hut)
    · simp only [setHeld_mutexes, setMutex_mutexes, hkm, if_false] at hk
      simpa [hkm] using h.held_free u k hk

theorem LockInv.pend {s : MutexSys} (h : LockInv s) {t m : Nat} (b : Bool)
    (ht : s.state t = .ready) (ho : (s.mutexes m).owner ≠ some t) : LockInv (pendCurr s t m b) := by
  refine ⟨fun k => ?_, fun k u b' hk => ?_, fun u k hu => ?_, fun u k rc hu hrc => ?_,
    fun u k hk => ?_, fun u k hk => ?_⟩ <;>
    simp only [pendCurr, waitqInsert_owner, waitqInsert_lockCount, waitqInsert_state,
      waitqInsert_held, setState_mutexes, setState_state, setState_held] at *
  · exact h.owner_none_iff k
  · by_cases hut : u = t
    · subst hut
      simp only [if_true, ne_eq, TState.pended.injEq, not_and]
      rintro rfl
      exact absurd hk ho
    · simpa [hut] using h.owner_not_pended k u b' hk
  · by_cases hut : u = t
    · simp [hut] at hu
    · simp only [hut, if_false] at hu
      exact h.woken_owner u k hu
  · by_cases hut : u = t
    · simp [hut] at hu
    · simp only [hut, if_false] at hu
      exact h.woken_fail u k rc hu hrc
  · by_cases hut : u = t
    · subst hut
      simpa [ht] using h.held_owner u k hk
    · simpa [hut] using h.held_owner u k hk
  · exact h.held_free u k hk

theorem LockInv.wakeFail {s : MutexSys} (h : LockInv s) {t m : Nat} {b : Bool} {rc : Int}
    (ht : s.state t = .pended m b) (hrc : rc ≠ 0) : LockInv (s.setState t (.woken m rc)) := by
  refine ⟨fun k => ?_, fun k u b' hk => ?_, fun u k hu => ?_, fun u k rc' hu hrc' => ?_,
    fun u k hk => ?_, fun u k hk => ?_⟩ <;>
    simp only [setState_mutexes, setState_state, setState_held] at *
  · exact h.owner_none_iff k
  · by_cases hut : u = t
    · simp [hut]
    · simpa [hut] using h.owner_not_pended k u b' hk
  · by_cases hut : u = t
    · simp only [hut, if_true, TState.woken.injEq] at hu
      exact absurd hu.2 hrc
    · simp only [hut, if_false] at hu
      exact h.woken_owner u k hu
  · by_cases hut : u = t
    · simp only [hut, if_true, TState.woken.injEq] at hu
      rw [hut, ← hu.1]
      exact fun ho => h.owner_not_pended m t b ho ht
    · simp only [hut, if_false] at hu
      exact h.woken_fail u k rc' hu hrc'
  · by_cases hut : u = t
    · rw [hut] at hk ⊢
      rw [h.held_owner t k hk, ht]
      simp [hrc]
    · simpa [hut] using h.held_owner u k hk
  · exact h.held_free u k hk

theorem LockInv.resumeOk {s : MutexSys} (h : LockInv s) {t m : Nat}
    (ht : s.state t = .woken m 0) :
    LockInv ((s.setState t .ready).setHeld t m (s.held t m + 1)) := by
  refine ⟨fun k => ?_, fun k u b hk => ?_, fun u k hu => ?_, fun u k rc hu hrc => ?_,
    fun u k hk => ?_, fun u k hk => ?_⟩ <;>
    simp only [setHeld_mutexes, setHeld_state, setHeld_held, setState_mutexes, setState_state,
      setState_held] at *
  · exact h.owner_none_iff k
  · by_cases hut : u = t
    · simp [hut]
    · simpa [hut] using h.owner_not_pended k u b hk
  · by_cases hut : u = t
    · simp [hut] at hu
    · simp only [hut, if_false] at hu
      exact h.woken_owner u k hu
  · by_cases hut : u = t
    · simp [hut] at hu
    · simp only [hut, if_false] at hu
      exact h.woken_fail u k rc hu hrc
  · by_cases hut : u = t
    · rw [hut] at hk ⊢
      rw [h.held_owner t k hk, ht]
      by_cases hkm : k = m
      · simp [hkm]
      · simp [hkm, Ne.symm hkm]
    · simpa [hut] using h.held_owner u k hk
  · by_cases hum : u = t ∧ k = m
    · obtain ⟨rfl, rfl⟩ := hum
      exact absurd (h.woken_owner u k ht) hk
    · simpa [hum] using h.held_free u k hk

theorem LockInv.resumeFail {s : MutexSys} (h : LockInv s) {t m : Nat} {rc : Int}
    (ht : s.state t = .woken m rc) (hrc : rc ≠ 0) : LockInv (s.setState t .ready) := by
  refine ⟨fun k => ?_, fun k u b hk => ?_, fun u k hu => ?_, fun u k rc' hu hrc' => ?_,
    fun u k hk => ?_, fun u k hk => ?_⟩ <;>
    simp only [setState_mutexes, setState_state, setState_held] at *
  · exact h.owner_none_iff k
  · by_cases hut : u = t
    · simp [hut]
    · simpa [hut] using h.owner_not_pended k u b hk
  · by_cases hut : u = t
    · simp [hut] at hu
    · simp only [hut, if_false] at hu
      exact h.woken_owner u k hu
  · by_cases hut : u = t
    · simp [hut] at hu
    · simp only [hut, if_false] at hu
      exact h.woken_fail u k rc' hu hrc'
  · by_cases hut : u = t
    · rw [hut] at hk ⊢
      rw [h.held_owner t k hk, ht]
      simp [hrc]
    · simpa [hut] using h.held_owner u k hk
  · exact h.held_free u k hk

theorem LockInv.held_of_ready {s : MutexSys} (h : LockInv s) {t m : Nat}
    (ht : s.state t = .ready) (ho : (s.mutexes m).owner = some t) :
    s.held t m = (s.mutexes m).lockCount := by
  rw [h.held_owner t m ho, ht]
  simp

theorem LockInv.unlockDec {s : MutexSys} (h : LockInv s) {t m : Nat} (ht : s.state t = .ready)
    (ho : (s.mutexes m).owner = some t) (hc : 1 < (s.mutexes m).lockCount) :
    LockInv ((s.setMutex m { s.mutexes m with lockCount := (s.mutexes m).lockCount - 1 }).setHeld
      t m (s.held t m - 1)) := by
  have hheld := h.held_of_ready ht ho
  refine ⟨fun k => ?_, fun k u b hk => ?_, fun u k hu => ?_, fun u k rc hu hrc => ?_,
    fun u k hk => ?_, fun u k hk => ?_⟩ <;>
    simp only [setHeld_mutexes, setHeld_state, setHeld_held, setMutex_mutexes,
      setMutex_state, setMutex_held] at *
  · by_cases hkm : k = m
    · subst hkm
      simp only [if_true, ho, reduceCtorEq, false_iff]
      omega
    · simpa [hkm] using h.owner_none_iff k
  · by_cases hkm : k = m
    · subst hkm
      exact h.owner_not_pended k u b (by simpa using hk)
    · exact h.owner_not_pended k u b (by simpa [hkm] using hk)
  · by_cases hkm : k = m
    · subst hkm
      simpa using h.woken_owner u k hu
    · simpa [hkm] using h.woken_owner u k hu
  · by_cases hkm : k = m
    · subst hkm
      simpa using h.woken_fail u k rc hu hrc
    · simpa [hkm] using h.woken_fail u k rc hu hrc
  · by_cases hkm : k = m
    · subst hkm
      obtain rfl : t = u := by simpa [ho] using hk
      simp [ht]
      omega
    · simp only [hkm, if_false] at hk
      simp only [hkm, if_false, and_false]
      exact h.held_owner u k hk
  · by_cases hkm : k = m
    · subst hkm
      have hut : u ≠ t := fun e => hk (by simp [ho, e])
      simpa [hut] using h.held_free u k (by simpa using hk)
    · simp only [hkm, if_false] at hk
      simpa [hkm] using h.held_free u k hk

theorem LockInv.release {s : MutexSys} (h : LockInv s) {t m : Nat} (ht : s.state t = .ready)
    (ho : (s.mutexes m).owner = some t) (hc : (s.mutexes m).lockCount ≤ 1) :
    LockInv ((s.setMutex m { s.mutexes m with owner := none, lockCount := 0 }).setHeld
      t m (s.held t m - 1)) := by
  have hheld := h.held_of_ready ht ho
  have hpos : (s.mutexes m).lockCount ≠ 0 := fun e => by
    rw [← h.owner_none_iff m] at e
    rw [e] at ho
    cases ho
  refine ⟨fun k => ?_, fun k u b hk => ?_, fun u k hu => ?_, fun u k rc hu hrc => ?_,
    fun u k hk => ?_, fun u k hk => ?_⟩ <;>
    simp only [setHeld_mutexes, setHeld_state, setHeld_held, setMutex_mutexes,
      setMutex_state, setMutex_held] at *
  · by_cases hkm : k = m
    · simp [hkm]
    · simpa [hkm] using h.owner_none_iff k
  · by_cases hkm : k = m
    · simp [hkm] at hk
    · exact h.owner_not_pended k u b (by simpa [hkm] using hk)
  · by_cases hkm : k = m
    · subst hkm
      have hu' := h.woken_owner u k hu
      rw [ho] at hu'
      cases hu'
      rw [ht] at hu
      cases hu
    · simpa [hkm] using h.woken_owner u k hu
  · by_cases hkm : k = m
    · simp [hkm]
    · simpa [hkm] using h.woken_fail u k rc hu hrc
  · by_cases hkm : k = m
    · simp [hkm] at hk
    · simp only [hkm, if_false] at hk
      simp only [hkm, if_false, and_false]
      exact h.held_owner u k hk
  · by_cases hkm : k = m
    · subst hkm
      by_cases hut : u = t
      · simp [hut]
        omega
      · simpa [hut] using h.held_free u k (by simp [ho, Ne.symm hut])
    · simp only [hkm, if_false] at hk
      simpa [hkm] using h.held_free u k hk

theorem LockInv.handoff {s : MutexSys} (h : LockInv s) {t m n : Nat} {b : Bool} (rest : List Nat)
    (o : Int) (ht : s.state t = .ready) (ho : (s.mutexes m).owner = some t)
    (hc : (s.mutexes m).lockCount ≤ 1) (hn : s.state n = .pended m b) :
    LockInv (((s.setMutex m { s.mutexes m with waitQ := rest, owner := some n, ownerOrigPrio := o }
      ).setState n (.woken m 0)).setHeld t m (s.held t m - 1)) := by
  have hheld := h.held_of_ready ht ho
  have hnt : n ≠ t := fun e => by
    rw [e, ht] at hn
    cases hn
  have hone : (s.mutexes m).lockCount = 1 := by
    have : (s.mutexes m).lockCount ≠ 0 := fun e => by
      rw [← h.owner_none_iff m] at e
      rw [e] at ho
      cases ho
    omega
  have hnheld : s.held n m = 0 := h.held_free n m (by rw [ho]; exact fun e => hnt (Option.some.inj e).symm)
  refine ⟨fun k => ?_, fun k u b' hk => ?_, fun u k hu => ?_, fun u k rc hu hrc => ?_,
    fun u k hk => ?_, fun u k hk => ?_⟩ <;>
    simp only [setHeld_mutexes, setHeld_state, setHeld_held, setMutex_mutexes,
      setMutex_state, setMutex_held, setState_mutexes, setState_state, setState_held] at *
  · by_cases hkm : k = m
    · simp [hkm, hone]
    · simpa [hkm] using h.owner_none_iff k
  · by_cases hun : u = n
    · simp [hun]
    · by_cases hkm : k = m
      · simp only [hkm, if_true, Option.some.injEq] at hk
        exact absurd hk.symm hun
      · simpa [hun] using h.owner_not_pended k u b' (by simpa [hkm] using hk)
  · by_cases hun : u = n
    · simp only [hun, if_true, TState.woken.injEq] at hu
      rw [hun, ← hu.1]
      simp
    · simp only [hun, if_false] at hu
      by_cases hkm : k = m
      · subst hkm
        have hu' := h.woken_owner u k hu
        rw [ho] at hu'
        cases hu'
        rw [ht] at hu
        cases hu
      · simpa [hkm] using h.woken_owner u k hu
  · by_cases hun : u = n
    · simp only [hun, if_true, TState.woken.injEq] at hu
      exact absurd hu.2.symm hrc
    · simp only [hun, if_false] at hu
      by_cases hkm : k = m
      · simp [hkm, Ne.symm hun]
      · simpa [hkm] using h.woken_fail u k rc hu hrc
  · by_cases hkm : k = m
    · subst hkm
      obtain rfl : n = u := by simpa using hk
      simp [hnt, hnheld, hone]
    · simp only [hkm, if_false] at hk
      have e := h.held_owner u k hk
      by_cases hun : u = n
      · rw [hun] at hk e ⊢
        rw [hn] at e
        simp [hkm, Ne.symm hkm, e]
      · simpa [hun, hkm] using e
  · by_cases hkm : k = m
    · subst hkm
      by_cases hut : u = t
      · simp [hut]
        omega
      · simpa [hut] using h.held_free u k (by simp [ho, Ne.symm hut])
    · simp only [hkm, if_false] at hk
      simpa [hkm] using h.held_free u k hk

structure MutexInv (s : MutexSys) : Prop where
  queue : QueueInv s
  locks : LockInv s

theorem QueueInv.setState_ready {s : MutexSys} (h : QueueInv s) {t : Nat}
    (ht : ∀ m b, s.state t ≠ .pended m b) : QueueInv (s.setState t .ready) :=
  ((h.release ht).setState _).close (by simp)

theorem QueueInv.boost {s : MutexSys} (h : QueueInv s) (ceiling : Int) (t m : Nat) :
    QueueInv (lockBoost ceiling s t m) := by
  rcases lockBoost_cases ceiling s t m with e | ⟨p, e⟩ <;> rw [e]
  · exact h
  · exact h.adjust m p

theorem QueueInv.restore {s : MutexSys} (h : QueueInv s) (ceiling : Int) (m : Nat) :
    QueueInv (lockTimeoutRestore ceiling s m) := by
  rcases lockTimeoutRestore_cases ceiling s m with e | ⟨p, e⟩ <;> rw [e]
  · exact h
  · exact h.adjust m p

theorem unlockHandOff_held (s : MutexSys) (m : Nat) : (unlockHandOff s m).held = s.held := by
  unfold unlockHandOff
  split <;> rfl

theorem MutexInv.handOff {s : MutexSys} (h : MutexInv s) {t m : Nat} (ht : s.state t = .ready)
    (ho : (s.mutexes m).owner = some t) (hc : (s.mutexes m).lockCount ≤ 1) :
    MutexInv ((unlockHandOff s m).setHeld t m (s.held t m - 1)) := by
  unfold unlockHandOff
  split
  · refine ⟨(h.queue.setMutex_of_waitQ ?_).setHeld _ _ _, h.locks.release ht ho hc⟩
    rfl
  · next n rest hq =>
    have hn : n ∈ (s.mutexes m).waitQ := by simp [hq]
    obtain ⟨b, hb⟩ := (h.queue.mem_waitQ m n).1 hn
    have hrest : rest = (s.mutexes m).waitQ.erase n := by simp [hq]
    refine ⟨?_, h.locks.handoff rest _ ht ho hc hb⟩
    exact (((h.queue.erase hb _ hrest).setState _).close (by simp)).setHeld _ _ _

section Run

variable {ceiling : Int} {s : MutexSys}

theorem MutexInv.lock (h : MutexInv s) {t m : Nat} (tmo : Zephyr.Timeout.KTimeout)
    (ht : s.state t = .ready) : MutexInv ((MutexOp.lock t m tmo).apply ceiling s) := by
  by_cases hc : (s.mutexes m).lockCount = 0 ∨ (s.mutexes m).owner = some t
  · have e : (MutexOp.lock t m tmo).apply ceiling s =
        (s.setMutex m
          { s.mutexes m with
            ownerOrigPrio := if (s.mutexes m).lockCount = 0 then s.prio t
              else (s.mutexes m).ownerOrigPrio,
            lockCount := (s.mutexes m).lockCount + 1, owner := some t }).setHeld
          t m (s.held t m + 1) := by
      simp [MutexOp.apply, kMutexLock, hc]
    rw [e]
    refine ⟨(h.queue.setMutex_of_waitQ ?_).setHeld _ _ _, h.locks.lockFast ht hc _⟩
    rfl
  · by_cases hz : tmo = .rel 0
    · have e : (MutexOp.lock t m tmo).apply ceiling s = s := by
        simp [MutexOp.apply, kMutexLock, hc, hz, EBUSY]
      rw [e]
      exact h
    · have e : (MutexOp.lock t m tmo).apply ceiling s =
          pendCurr (lockBoost ceiling s t m) t m (decide (tmo ≠ .forever)) := by
        simp [MutexOp.apply, kMutexLock, hc, hz]
      rw [e]
      have hb := lockEq_boost ceiling s t m
      have ht' : (lockBoost ceiling s t m).state t = .ready := by rw [hb.state, ht]
      have ho : ((lockBoost ceiling s t m).mutexes m).owner ≠ some t := by
        rw [hb.owner]
        exact fun e => hc (Or.inr e)
      refine ⟨(h.queue.boost ceiling t m).pend m _ ?_, (h.locks.of_lockEq hb).pend _ ht' ho⟩
      intro _ _
      rw [ht']
      simp

theorem MutexInv.unlock (h : MutexInv s) {t m : Nat} (ht : s.state t = .ready) :
    MutexInv ((MutexOp.unlock t m).apply ceiling s) := by
  cases ho : (s.mutexes m).owner with
  | none =>
    have e : (MutexOp.unlock t m).apply ceiling s = s := by
      simp [MutexOp.apply, kMutexUnlock, ho, EINVAL]
    rw [e]
    exact h
  | some o =>
    by_cases hot : o = t
    · subst hot
      by_cases hc : 1 < (s.mutexes m).lockCount
      · have e : (MutexOp.unlock o m).apply ceiling s =
            (s.setMutex m { s.mutexes m with lockCount := (s.mutexes m).lockCount - 1 }).setHeld
              o m (s.held o m - 1) := by
          simp [MutexOp.apply, kMutexUnlock, ho, hc]
        rw [e]
        refine ⟨(h.queue.setMutex_of_waitQ ?_).setHeld _ _ _, h.locks.unlockDec ht ho hc⟩
        rfl
      · have hl := lockEq_adjust s m (s.mutexes m).ownerOrigPrio
        have e : (MutexOp.unlock o m).apply ceiling s =
            (unlockHandOff (adjustOwnerPrio s m (s.mutexes m).ownerOrigPrio) m).setHeld
              o m ((adjustOwnerPrio s m (s.mutexes m).ownerOrigPrio).held o m - 1) := by
          simp [MutexOp.apply, kMutexUnlock, ho, hc, unlockHandOff_held]
        rw [e]
        have h1 : MutexInv (adjustOwnerPrio s m (s.mutexes m).ownerOrigPrio) :=
          ⟨h.queue.adjust _ _, h.locks.of_lockEq hl⟩
        exact h1.handOff (by rw [hl.state, ht]) (by rw [hl.owner, ho])
          (by rw [hl.lockCount]; omega)
    · have e : (MutexOp.unlock t m).apply ceiling s = s := by
        simp [MutexOp.apply, kMutexUnlock, ho, hot, EPERM]
      rw [e]
      exact h

theorem MutexInv.timeout (h : MutexInv s) (t : Nat) :
    MutexInv ((MutexOp.timeout t).apply ceiling s) := by
  refine ⟨h.queue.timeout t, ?_⟩
  simp only [MutexOp.apply]
  unfold zThreadTimeout
  split
  · next m hs =>
    refine (h.locks.of_lockEq (lockEq_setMutex s ?_ ?_)).wakeFail (by simpa using hs) (by decide)
    · rfl
    · rfl
  · exact h.locks

theorem MutexInv.resume (h : MutexInv s) (t : Nat) :
    MutexInv ((MutexOp.resume t).apply ceiling s) := by
  cases hs : s.state t with
  | ready => simpa [MutexOp.apply, hs] using h
  | pended m b => simpa [MutexOp.apply, hs] using h
  | woken m rc =>
    have hq : QueueInv (s.setState t .ready) := h.queue.setState_ready (by simp [hs])
    by_cases hrc : rc = 0
    · subst hrc
      have e : (MutexOp.resume t).apply ceiling s = (s.setState t .ready).setHeld t m (s.held t m + 1) := by
        simp [MutexOp.apply, lockResume, hs]
      rw [e]
      exact ⟨hq.setHeld _ _ _, h.locks.resumeOk hs⟩
    · have e : (MutexOp.resume t).apply ceiling s = lockTimeoutRestore ceiling (s.setState t .ready) m := by
        simp [MutexOp.apply, lockResume, hs, hrc, EAGAIN]
      rw [e]
      exact ⟨hq.restore ceiling m, (h.locks.resumeFail hs hrc).of_lockEq (lockEq_restore _ _ _)⟩

theorem MutexInv.step {s' : MutexSys} (h : MutexInv s) (hs : MutexStep ceiling s s') :
    MutexInv s' := by
  obtain ⟨op, hop, rfl⟩ := hs
  cases op with
  | lock t m tmo => exact h.lock tmo (by simpa [MutexOp.allowed] using hop)
  | unlock t m => exact h.unlock (by simpa [MutexOp.allowed] using hop)
  | timeout t => exact h.timeout t
  | resume t => exact h.resume t

theorem mutexInv_init (prio : Nat → Int) : MutexInv (mutexSysInit prio) := by
  refine ⟨⟨fun m t => ?_, fun m => ?_, fun t m b ht => ?_⟩, ⟨fun m => ?_, fun m t b ho => ?_,
    fun t m ht => ?_, fun t m rc ht => ?_, fun t m ho => ?_, fun t m _ => rfl⟩⟩ <;>
    simp_all [mutexSysInit]

theorem MutexReach.inv (hr : MutexReach ceiling s) : MutexInv s :=
  StateMachine.Reachable.inv _ (fun _ ⟨prio, e⟩ => e ▸ mutexInv_init prio)
    (fun _ _ h hs => h.step hs) hr

end Run

end Zephyr.Mutex
