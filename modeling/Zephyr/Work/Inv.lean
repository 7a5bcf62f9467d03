import Zephyr.Work.Step

namespace Zephyr.Work

open WorkSys

section Inv

variable (fl dl : Nat → Bool)

-- `fl` marks the flusher items, `dl` the delayable ones.
structure WorkInv (s : WorkSys) : Prop where
  queued_iff : ∀ w, fl w = false →
    ((s.works w).flags.queued = true ↔ ∃ q, w ∈ (s.queues q).pending)
  mem_home : ∀ w q, fl w = false → w ∈ (s.queues q).pending → (s.works w).queue = some q
  count_one : ∀ w q, fl w = false → w ∈ (s.queues q).pending → (s.queues q).pending.count w = 1
  running_thread : ∀ w, fl w = false → (s.works w).flags.running = true →
    ∃ q, (s.queues q).thread = .running w
  thread_running : ∀ q w, fl w = false → (s.queues q).thread = .running w →
    (s.works w).flags.running = true ∧ (s.works w).queue = some q
  canceling_running : ∀ w, fl w = false → (s.works w).flags.canceling = true →
    (s.works w).flags.running = true ∧ (s.works w).flags.queued = false
  undelayed : ∀ w, fl w = false → dl w = false → (s.works w).flags.delayed = false
  unflushing : ∀ w, fl w = false → (s.works w).flags.flushing = false
  stopped : ∀ q, (s.queues q).flags.started = false →
    (s.queues q).pending = [] ∧ ∀ w, (s.queues q).thread ≠ .running w

-- The part of the state the invariant reads.
structure CoreEq (s s' : WorkSys) : Prop where
  queued : ∀ w, (s'.works w).flags.queued = (s.works w).flags.queued
  running : ∀ w, (s'.works w).flags.running = (s.works w).flags.running
  flushing : ∀ w, (s'.works w).flags.flushing = (s.works w).flags.flushing
  queue : ∀ w, (s'.works w).queue = (s.works w).queue
  delayed : ∀ w, dl w = false → (s'.works w).flags.delayed = (s.works w).flags.delayed
  pending : ∀ q, (s'.queues q).pending = (s.queues q).pending
  thread : ∀ q, (s'.queues q).thread = (s.queues q).thread
  started : ∀ q, (s'.queues q).flags.started = (s.queues q).flags.started

variable {fl dl}

theorem CoreEq.trans {s₁ s₂ s₃ : WorkSys} (h₁ : CoreEq dl s₁ s₂) (h₂ : CoreEq dl s₂ s₃) :
    CoreEq dl s₁ s₃ where
  queued w := (h₂.queued w).trans (h₁.queued w)
  running w := (h₂.running w).trans (h₁.running w)
  flushing w := (h₂.flushing w).trans (h₁.flushing w)
  queue w := (h₂.queue w).trans (h₁.queue w)
  delayed w hw := (h₂.delayed w hw).trans (h₁.delayed w hw)
  pending q := (h₂.pending q).trans (h₁.pending q)
  thread q := (h₂.thread q).trans (h₁.thread q)
  started q := (h₂.started q).trans (h₁.started q)

theorem coreEq_of_eq {s s' : WorkSys} (hw : s'.works = s.works) (hq : s'.queues = s.queues) :
    CoreEq dl s s' := by
  constructor <;> intros <;> simp [hw, hq]

theorem coreEq_setWork (s : WorkSys) (w : Nat) (k : KWork)
    (hq : k.flags.queued = (s.works w).flags.queued) (hr : k.flags.running = (s.works w).flags.running)
    (hf : k.flags.flushing = (s.works w).flags.flushing) (hqq : k.queue = (s.works w).queue)
    (hd : dl w = false → k.flags.delayed = (s.works w).flags.delayed) :
    CoreEq dl s (s.setWork w k) := by
  constructor <;> intro v <;> by_cases hvw : v = w <;> simp_all

theorem coreEq_setQueue (s : WorkSys) (q : Nat) (k : WorkQ)
    (hp : k.pending = (s.queues q).pending) (ht : k.thread = (s.queues q).thread)
    (hs : k.flags.started = (s.queues q).flags.started) :
    CoreEq dl s (s.setQueue q k) := by
  constructor <;> intro v <;> by_cases hvq : v = q <;> simp_all

theorem WorkInv.of_coreEq' {s s' : WorkSys} (h : WorkInv fl dl s) (he : CoreEq dl s s')
    (hc : ∀ w, fl w = false → (s'.works w).flags.canceling = true →
      (s'.works w).flags.running = true ∧ (s'.works w).flags.queued = false) :
    WorkInv fl dl s' where
  queued_iff w hw := by simp only [he.queued, he.pending]; exact h.queued_iff w hw
  mem_home w q hw := by simp only [he.queue, he.pending]; exact h.mem_home w q hw
  count_one w q hw := by simp only [he.pending]; exact h.count_one w q hw
  running_thread w hw := by simp only [he.running, he.thread]; exact h.running_thread w hw
  thread_running q w hw := by simp only [he.running, he.queue, he.thread]; exact h.thread_running q w hw
  canceling_running := hc
  undelayed w hw hd := by rw [he.delayed w hd]; exact h.undelayed w hw hd
  unflushing w hw := by rw [he.flushing]; exact h.unflushing w hw
  stopped q := by simp only [he.started, he.pending, he.thread]; exact h.stopped q

theorem WorkInv.of_coreEq {s s' : WorkSys} (h : WorkInv fl dl s) (he : CoreEq dl s s')
    (hc : ∀ w, (s'.works w).flags.canceling = (s.works w).flags.canceling) : WorkInv fl dl s' :=
  h.of_coreEq' he fun w hw hcw => by
    rw [hc] at hcw
    rw [he.running, he.queued]
    exact h.canceling_running w hw hcw

-- A successful queue_submit_locked followed by the flag update of
-- submit_to_queue_locked.
theorem WorkInv.enqueue {s : WorkSys} {w q₀ : Nat} (h : WorkInv fl dl s) (hw : fl w = false)
    (hq : (s.works w).flags.queued = false) (hc : (s.works w).flags.canceling = false)
    (hr : (s.works w).flags.running = true → (s.works w).queue = some q₀)
    (hs : (s.queues q₀).flags.started = true) :
    WorkInv fl dl ((s.setQueue q₀ { s.queues q₀ with pending := (s.queues q₀).pending ++ [w] }).setWork
      w { s.works w with flags := { (s.works w).flags with queued := true }, queue := some q₀ }) := by
  set s' := (s.setQueue q₀ { s.queues q₀ with pending := (s.queues q₀).pending ++ [w] }).setWork
      w { s.works w with flags := { (s.works w).flags with queued := true }, queue := some q₀ }
  have hW : ∀ v, s'.works v = if v = w then
      { s.works w with flags := { (s.works w).flags with queued := true }, queue := some q₀ }
      else s.works v := fun v => by simp [s']
  have hP : ∀ q, (s'.queues q).pending =
      if q = q₀ then (s.queues q₀).pending ++ [w] else (s.queues q).pending := fun q => by
    simp only [s', setWork_queues, setQueue_queues]; split <;> rfl
  have hT : ∀ q, (s'.queues q).thread = (s.queues q).thread := fun q => by
    simp only [s', setWork_queues, setQueue_queues]; split <;> simp_all
  have hS : ∀ q, (s'.queues q).flags.started = (s.queues q).flags.started := fun q => by
    simp only [s', setWork_queues, setQueue_queues]; split <;> simp_all
  have hnm : ∀ q, w ∉ (s.queues q).pending := fun q hm => by
    have := (h.queued_iff w hw).2 ⟨q, hm⟩
    simp_all
  -- membership of another item is untouched
  have hmem : ∀ v q, v ≠ w → (v ∈ (s'.queues q).pending ↔ v ∈ (s.queues q).pending) := by
    intro v q hvw
    rw [hP]
    split <;> simp_all
  constructor
  · intro v hv
    by_cases hvw : v = w
    · subst hvw
      simp only [hW, if_true, true_iff]
      exact ⟨q₀, by simp [hP]⟩
    · simp only [hW, hvw, if_false, hmem v _ hvw]
      exact h.queued_iff v hv
  · intro v q hv hm
    by_cases hvw : v = w
    · subst hvw
      rw [hP] at hm
      split at hm
      · simp_all
      · exact absurd hm (hnm q)
    · rw [hmem v q hvw] at hm
      simp only [hW, hvw, if_false]
      exact h.mem_home v q hv hm
  · intro v q hv hm
    rw [hP] at hm ⊢
    split
    · rename_i hq₀
      subst hq₀
      by_cases hvw : v = w
      · subst hvw
        simp [List.count_eq_zero_of_not_mem (hnm _)]
      · simp only [List.mem_append, List.mem_singleton, hvw, or_false, if_true] at hm
        have h0 : List.count v [w] = 0 := List.count_eq_zero_of_not_mem (by simp [hvw])
        simp [List.count_append, h0, h.count_one v _ hv hm]
    · simp only [if_neg ‹¬q = q₀›] at hm
      exact h.count_one v q hv hm
  · intro v hv hrun
    have hrun' : (s.works v).flags.running = true := by
      by_cases hvw : v = w <;> simp_all
    obtain ⟨q, hq'⟩ := h.running_thread v hv hrun'
    exact ⟨q, by rw [hT]; exact hq'⟩
  · intro q v hv ht
    rw [hT] at ht
    obtain ⟨h1, h2⟩ := h.thread_running q v hv ht
    by_cases hvw : v = w
    · subst hvw
      simp only [hW, if_true]
      exact ⟨h1, by rw [← h2, hr h1]⟩
    · simp [hW, hvw, h1, h2]
  · intro v hv hcan
    by_cases hvw : v = w
    · subst hvw; simp_all
    · simp only [hW, hvw, if_false] at hcan ⊢
      exact h.canceling_running v hv hcan
  · intro v hv hd
    by_cases hvw : v = w
    · subst hvw; simp [hW, h.undelayed _ hv hd]
    · simp [hW, hvw, h.undelayed _ hv hd]
  · intro v hv
    by_cases hvw : v = w
    · subst hvw; simp [hW, h.unflushing _ hv]
    · simp [hW, hvw, h.unflushing _ hv]
  · intro q hst
    rw [hS] at hst
    rw [hP, hT]
    split
    · simp_all
    · exact h.stopped q hst

theorem queueSubmitLocked_cases (s : WorkSys) (c : Caller) (q : Option Nat) (w : Nat) :
    (∃ rc, rc < 0 ∧ queueSubmitLocked s c q w = (s, rc)) ∨
      ∃ q₀, q = some q₀ ∧ (s.queues q₀).flags.started = true ∧ queueSubmitLocked s c q w =
        (s.setQueue q₀ { s.queues q₀ with pending := (s.queues q₀).pending ++ [w] }, 1) := by
  unfold queueSubmitLocked
  rcases q with _ | q₀
  · exact .inl ⟨-22, by decide, rfl⟩
  · simp only
    split
    · exact .inl ⟨-19, by decide, rfl⟩
    · split
      · exact .inl ⟨-16, by decide, rfl⟩
      · split
        · exact .inl ⟨-16, by decide, rfl⟩
        · exact .inr ⟨q₀, rfl, by simp_all, rfl⟩

theorem WorkInv.submit {s : WorkSys} {w : Nat} (h : WorkInv fl dl s) (hw : fl w = false)
    (c : Caller) (q : Option Nat) : WorkInv fl dl (submitToQueueLocked s c w q).1 := by
  simp only [submitToQueueLocked]
  split
  · exact h
  · rename_i hc
    split
    · rename_i hq
      -- a running item goes back to the queue it is running on
      set q' := if (s.works w).flags.running = true then (s.works w).queue
        else q.orElse fun _ => (s.works w).queue with hq'
      rcases queueSubmitLocked_cases s c q' w with ⟨rc, hrc, he⟩ | ⟨q₀, hq₀, hst, he⟩
      · simp [he, hrc, h]
      · have hr : (s.works w).flags.running = true → (s.works w).queue = some q₀ := fun hr => by
          rw [← hq₀, hq', if_pos hr]
        rw [hq₀] at he
        simp only [hq₀, he, show ¬((1 : Int) < 0) by decide, if_false, setQueue_works]
        exact h.enqueue hw (by simpa using hq) (by simpa using hc) hr hst
    · exact h

theorem WorkInv.dequeue {s : WorkSys} {w q₀ : Nat} (h : WorkInv fl dl s) (hw : fl w = false)
    (hm₀ : w ∈ (s.queues q₀).pending) :
    WorkInv fl dl ((s.setWork w { s.works w with flags := { (s.works w).flags with queued := false } }).setQueue
      q₀ { s.queues q₀ with pending := (s.queues q₀).pending.erase w }) := by
  have hq : (s.works w).flags.queued = true := (h.queued_iff w hw).2 ⟨q₀, hm₀⟩
  have hqq := h.mem_home w q₀ hw hm₀
  set s' := (s.setWork w { s.works w with flags := { (s.works w).flags with queued := false } }).setQueue
    q₀ { s.queues q₀ with pending := (s.queues q₀).pending.erase w }
  have hW : ∀ v, s'.works v = if v = w then
      { s.works w with flags := { (s.works w).flags with queued := false } } else s.works v :=
    fun v => by simp [s']
  have hP : ∀ q, (s'.queues q).pending =
      if q = q₀ then (s.queues q₀).pending.erase w else (s.queues q).pending := fun q => by
    simp only [s', setQueue_queues, setWork_queues]; split <;> simp_all
  have hT : ∀ q, (s'.queues q).thread = (s.queues q).thread := fun q => by
    simp only [s', setQueue_queues, setWork_queues]; split <;> simp_all
  have hS : ∀ q, (s'.queues q).flags.started = (s.queues q).flags.started := fun q => by
    simp only [s', setQueue_queues, setWork_queues]; split <;> simp_all
  -- the item's single node is gone, every other node stays
  have hmem : ∀ v q, v ∈ (s'.queues q).pending ↔ v ∈ (s.queues q).pending ∧ v ≠ w := by
    intro v q
    rw [hP]
    by_cases hvw : v = w
    · subst hvw
      split
      · rename_i hq'
        subst hq'
        have h0 : List.count v ((s.queues q).pending.erase v) = 0 := by
          rw [List.count_erase_self, h.count_one v q hw hm₀]
        simp [List.count_eq_zero.1 h0]
      · rename_i hq'
        simp only [ne_eq, not_true_eq_false, and_false, iff_false]
        exact fun hm => hq' (Option.some.inj ((h.mem_home v q hw hm).symm.trans hqq))
    · split
      · rename_i hq'
        subst hq'
        simp [List.mem_erase_of_ne hvw, hvw]
      · simp [hvw]
  have hcan : (s.works w).flags.canceling = false := by
    cases hc : (s.works w).flags.canceling
    · rfl
    · simp_all [(h.canceling_running w hw hc).2]
  constructor
  · intro v hv
    by_cases hvw : v = w
    · subst hvw; simp [hW, hmem]
    · simp only [hW, hvw, if_false, hmem, ne_eq, not_false_eq_true, and_true]
      exact h.queued_iff v hv
  · intro v q hv hm
    rw [hmem] at hm
    simp only [hW, hm.2, if_false]
    exact h.mem_home v q hv hm.1
  · intro v q hv hm
    rw [hmem] at hm
    rw [hP]
    split
    · rename_i hq'
      subst hq'
      rw [List.count_erase_of_ne hm.2]
      exact h.count_one v _ hv hm.1
    · exact h.count_one v q hv hm.1
  · intro v hv hrun
    have : (s.works v).flags.running = true := by by_cases hvw : v = w <;> simp_all
    obtain ⟨q, hq'⟩ := h.running_thread v hv this
    exact ⟨q, by rw [hT]; exact hq'⟩
  · intro q v hv ht
    rw [hT] at ht
    by_cases hvw : v = w
    · subst hvw; simpa [hW] using h.thread_running q v hv ht
    · simpa [hW, hvw] using h.thread_running q v hv ht
  · intro v hv hc
    by_cases hvw : v = w
    · subst hvw; simp_all
    · simp only [hW, hvw, if_false] at hc ⊢; exact h.canceling_running v hv hc
  · intro v hv hd
    by_cases hvw : v = w
    · subst hvw; simp [hW, h.undelayed _ hv hd]
    · simp [hW, hvw, h.undelayed _ hv hd]
  · intro v hv
    by_cases hvw : v = w
    · subst hvw; simp [hW, h.unflushing _ hv]
    · simp [hW, hvw, h.unflushing _ hv]
  · intro q hst
    rw [hS] at hst
    obtain ⟨h1, h2⟩ := h.stopped q hst
    rw [hP, hT]
    refine ⟨?_, h2⟩
    split <;> simp_all

-- queue_remove_locked on the queue the item records.
theorem WorkInv.queueRemove {s : WorkSys} {w : Nat} (h : WorkInv fl dl s) (hw : fl w = false) :
    WorkInv fl dl (queueRemoveLocked s (s.works w).queue w) := by
  by_cases hq : (s.works w).flags.queued = true
  · obtain ⟨q₀, hm₀⟩ := (h.queued_iff w hw).1 hq
    have e : queueRemoveLocked s (s.works w).queue w = queueRemoveLocked s (some q₀) w := by
      rw [h.mem_home w q₀ hw hm₀]
    rw [e]
    simp only [queueRemoveLocked, hq, if_true, setFlags_eq]
    exact h.dequeue hw hm₀
  · simpa [queueRemoveLocked, hq] using h

theorem WorkInv.setCanceling {s : WorkSys} {w : Nat} (h : WorkInv fl dl s)
    (hr : (s.works w).flags.running = true) (hq : (s.works w).flags.queued = false) :
    WorkInv fl dl (s.setFlags w fun f => { f with canceling := true }) := by
  refine h.of_coreEq' (coreEq_setWork s w _ rfl rfl rfl rfl fun _ => rfl) fun v hv hc => ?_
  by_cases hvw : v = w
  · subst hvw; simp [hr, hq]
  · simp only [setFlags_eq, setWork_works, hvw, if_false] at hc ⊢
    exact h.canceling_running v hv hc

-- cancel_async_locked on an item whose timer is already stopped.
theorem WorkInv.cancelAsync {s : WorkSys} {w : Nat} (h : WorkInv fl dl s) (hw : fl w = false)
    (hd : (s.works w).flags.delayed = false) : WorkInv fl dl (cancelAsyncLocked s w).1 := by
  set s₁ := if !(s.works w).flags.canceling then queueRemoveLocked s (s.works w).queue w else s
  have h₁ : WorkInv fl dl s₁ := by
    simp only [s₁]; split
    · exact h.queueRemove hw
    · exact h
  -- after the removal the item is not queued, and its timer is off
  have hq₁ : (s₁.works w).flags.queued = false := by
    simp only [s₁]
    split
    · rename_i hc
      simp only [queueRemoveLocked]
      split
      · simp only [setFlags_eq]; split <;> simp
      · simp_all
    · rename_i hc
      exact (h.canceling_running w hw (by simpa using hc)).2
  have hd₁ : (s₁.works w).flags.delayed = false := by
    simp only [s₁]
    split
    · simp only [queueRemoveLocked]
      split
      · simp only [setFlags_eq]; split <;> simp [hd]
      · exact hd
    · exact hd
  change WorkInv fl dl (if kWorkBusyGet s₁ w ≠ 0 then
    (s₁.setFlags w fun f => { f with canceling := true },
      kWorkBusyGet (s₁.setFlags w fun f => { f with canceling := true }) w) else (s₁, 0)).1
  split
  · rename_i hb
    -- a non-zero busy state here means the handler is running
    have hr : (s₁.works w).flags.running = true := by
      cases hr : (s₁.works w).flags.running
      · exfalso
        apply hb
        cases hc : (s₁.works w).flags.canceling
        · simp [kWorkBusyGet, WorkFlags.busy, hr, hc, hq₁, hd₁, h₁.unflushing w hw]
        · simp_all [(h₁.canceling_running w hw hc).1]
      · rfl
    exact h₁.setCanceling hr hq₁
  · exact h₁

-- queue_flusher_locked only adds the flusher, which the invariant does not track.
theorem WorkInv.queueFlusher {s : WorkSys} {q w f : Nat} (h : WorkInv fl dl s) (hf : fl f = true)
    (hst : (s.queues q).flags.started = true) : WorkInv fl dl (queueFlusherLocked s q w f) := by
  set s' := queueFlusherLocked s q w f
  have hne : ∀ v, fl v = false → v ≠ f := by rintro v hv rfl; simp_all
  have hW : ∀ v, fl v = false → s'.works v = s.works v := by
    intro v hv
    simp only [s', queueFlusherLocked]
    cases ((initFlusher s f).works w).flags.queued <;> simp [initFlusher, hne v hv]
  have hQ : ∀ q', q' ≠ q → s'.queues q' = s.queues q' := by
    intro q' hq'
    simp only [s', queueFlusherLocked]
    cases ((initFlusher s f).works w).flags.queued <;> simp [initFlusher, hq']
  have hq : (s'.queues q).pending = insertAfter w f (s.queues q).pending ∨
      (s'.queues q).pending = f :: (s.queues q).pending := by
    simp only [s', queueFlusherLocked]
    cases ((initFlusher s f).works w).flags.queued <;> simp [initFlusher]
  have hT : (s'.queues q).thread = (s.queues q).thread := by
    simp only [s', queueFlusherLocked]
    cases ((initFlusher s f).works w).flags.queued <;> simp [initFlusher]
  have hS : (s'.queues q).flags.started = (s.queues q).flags.started := by
    simp only [s', queueFlusherLocked]
    cases ((initFlusher s f).works w).flags.queued <;> simp [initFlusher]
  have hmem : ∀ v q', fl v = false → (v ∈ (s'.queues q').pending ↔ v ∈ (s.queues q').pending) := by
    intro v q' hv
    by_cases hq' : q' = q
    · subst hq'
      rcases hq with hq | hq <;> rw [hq]
      · exact mem_insertAfter_of_ne _ (hne v hv)
      · simp [hne v hv]
    · rw [hQ q' hq']
  have hcnt : ∀ v q', fl v = false →
      (s'.queues q').pending.count v = (s.queues q').pending.count v := by
    intro v q' hv
    by_cases hq' : q' = q
    · subst hq'
      rcases hq with hq | hq <;> rw [hq]
      · exact count_insertAfter_of_ne _ (hne v hv)
      · simp [Ne.symm (hne v hv)]
    · rw [hQ q' hq']
  have hth : ∀ q', (s'.queues q').thread = (s.queues q').thread := by
    intro q'; by_cases hq' : q' = q
    · subst hq'; exact hT
    · rw [hQ q' hq']
  constructor
  · intro v hv
    simp only [hW v hv, hmem v _ hv]
    exact h.queued_iff v hv
  · intro v q' hv hm
    rw [hW v hv]; exact h.mem_home v q' hv ((hmem v q' hv).1 hm)
  · intro v q' hv hm
    rw [hcnt v q' hv]; exact h.count_one v q' hv ((hmem v q' hv).1 hm)
  · intro v hv hr
    rw [hW v hv] at hr
    obtain ⟨q', hq'⟩ := h.running_thread v hv hr
    exact ⟨q', by rw [hth]; exact hq'⟩
  · intro q' v hv ht
    rw [hth] at ht; rw [hW v hv]; exact h.thread_running q' v hv ht
  · intro v hv hc
    rw [hW v hv] at hc ⊢; exact h.canceling_running v hv hc
  · intro v hv hd
    rw [hW v hv]; exact h.undelayed v hv hd
  · intro v hv
    rw [hW v hv]; exact h.unflushing v hv
  · intro q' hs'
    by_cases hq' : q' = q
    · subst hq'; rw [hS] at hs'; simp_all
    · rw [hQ q' hq'] at hs' ⊢; exact h.stopped q' hs'

theorem WorkInv.flush {s : WorkSys} {w f : Nat} (h : WorkInv fl dl s) (hw : fl w = false)
    (hf : fl f = true) : WorkInv fl dl (workFlushLocked s w f).1 := by
  simp only [workFlushLocked]
  split
  · rename_i hqr
    split
    · rename_i q hqq
      -- the item is queued or running on `q`, so `q` has been started
      refine h.queueFlusher hf ?_
      cases hs : (s.queues q).flags.started
      · exfalso
        obtain ⟨hp, ht⟩ := h.stopped q hs
        rcases Bool.or_eq_true_iff.1 hqr with hq | hr
        · obtain ⟨q', hm⟩ := (h.queued_iff w hw).1 hq
          have : q' = q := Option.some.inj ((h.mem_home w q' hw hm).symm.trans hqq)
          subst this
          simp [hp] at hm
        · obtain ⟨q', ht'⟩ := h.running_thread w hw hr
          have : q' = q := Option.some.inj ((h.thread_running q' w hw ht').2.symm.trans hqq)
          subst this
          exact ht w ht'
      · rfl
    · exact h
  · exact h

theorem WorkInv.start {s : WorkSys} {q : Nat} (h : WorkInv fl dl s) (hs : (s.queues q).flags.started = false)
    (t : Nat) (noYield : Bool) : WorkInv fl dl (kWorkQueueStart s q t noYield) := by
  obtain ⟨hp, ht⟩ := h.stopped q hs
  set s' := kWorkQueueStart s q t noYield
  have hW : s'.works = s.works := rfl
  have hP : ∀ q', (s'.queues q').pending = (s.queues q').pending := by
    intro q'; by_cases hq : q' = q
    · subst hq; simp [s', kWorkQueueStart, hp]
    · simp [s', kWorkQueueStart, hq]
  -- the restarted thread runs nothing, as the stopped one did
  have hR : ∀ q' v, (s'.queues q').thread = .running v ↔ (s.queues q').thread = .running v := by
    intro q' v; by_cases hq : q' = q
    · subst hq; simp [s', kWorkQueueStart, ht v]
    · simp [s', kWorkQueueStart, hq]
  have hS : ∀ q', q' ≠ q → (s'.queues q').flags.started = (s.queues q').flags.started := by
    intro q' hq; simp [s', kWorkQueueStart, hq]
  constructor
  · intro v hv; simp only [hW, hP]; exact h.queued_iff v hv
  · intro v q' hv; simp only [hW, hP]; exact h.mem_home v q' hv
  · intro v q' hv; simp only [hP]; exact h.count_one v q' hv
  · intro v hv hr
    obtain ⟨q', hq'⟩ := h.running_thread v hv hr
    exact ⟨q', (hR q' v).2 hq'⟩
  · intro q' v hv ht'; exact h.thread_running q' v hv ((hR q' v).1 ht')
  · intro v hv; exact h.canceling_running v hv
  · intro v hv; exact h.undelayed v hv
  · intro v hv; exact h.unflushing v hv
  · intro q' hs'
    by_cases hq : q' = q
    · subst hq; simp [s', kWorkQueueStart] at hs'
    · rw [hS q' hq] at hs'
      obtain ⟨h1, h2⟩ := h.stopped q' hs'
      exact ⟨by rw [hP]; exact h1, fun v e => h2 v ((hR q' v).1 e)⟩

theorem finalizeCancelLocked_works (s : WorkSys) (w : Nat) :
    (finalizeCancelLocked s w).works = (s.setFlags w fun f => { f with canceling := false }).works := by
  simp only [finalizeCancelLocked]; split <;> rfl

theorem finalizeCancelLocked_queues (s : WorkSys) (w : Nat) :
    (finalizeCancelLocked s w).queues = s.queues := by
  simp only [finalizeCancelLocked]; split <;> rfl

-- After the handler returns, the item is neither running nor flushing nor
-- canceling, and the queue's thread is idle.
theorem workQueueMainFinish_works (s : WorkSys) (q w v : Nat) :
    (workQueueMainFinish s q w).works v = if v = w then
      { s.works w with
        flags := { (s.works w).flags with running := false, flushing := false, canceling := false } }
      else s.works v := by
  simp only [workQueueMainFinish]
  cases hf : (s.works w).flags.flushing <;> cases hc : (s.works w).flags.canceling <;>
    by_cases hvw : v = w <;>
    simp [finalizeFlushLocked, finalizeCancelLocked_works, hf, hc, hvw]

theorem workQueueMainFinish_queues (s : WorkSys) (q w q' : Nat) :
    (workQueueMainFinish s q w).queues q' = if q' = q then
      { s.queues q with flags := { (s.queues q).flags with busy := false }, thread := .idle }
      else s.queues q' := by
  simp only [workQueueMainFinish]
  cases hf : (s.works w).flags.flushing <;> cases hc : (s.works w).flags.canceling <;>
    by_cases hq : q' = q <;>
    simp [finalizeFlushLocked, finalizeCancelLocked_queues, hf, hc, hq]

theorem WorkInv.finish {s : WorkSys} {q w : Nat} (h : WorkInv fl dl s)
    (ht : (s.queues q).thread = .running w) : WorkInv fl dl (workQueueMainFinish s q w) := by
  have hW := workQueueMainFinish_works s q w
  have hQ := workQueueMainFinish_queues s q w
  have hP : ∀ q', ((workQueueMainFinish s q w).queues q').pending = (s.queues q').pending := by
    intro q'; rw [hQ]; split <;> simp_all
  -- a thread on another queue runs another item
  have hother : ∀ q' v, fl v = false → q' ≠ q → (s.queues q').thread = .running v → v ≠ w := by
    rintro q' v hv hq' ht' rfl
    exact hq' (Option.some.inj ((h.thread_running q' v hv ht').2.symm.trans
      (h.thread_running q v hv ht).2))
  constructor
  · intro v hv
    rw [hW]; simp only [hP]
    split
    · rename_i hvw; subst hvw; exact h.queued_iff v hv
    · exact h.queued_iff v hv
  · intro v q' hv hm
    rw [hP] at hm; rw [hW]
    split
    · rename_i hvw; subst hvw; exact h.mem_home v q' hv hm
    · exact h.mem_home v q' hv hm
  · intro v q' hv hm
    rw [hP] at hm ⊢; exact h.count_one v q' hv hm
  · intro v hv hr
    rw [hW] at hr
    split at hr
    · simp at hr
    · rename_i hvw
      obtain ⟨q', hq'⟩ := h.running_thread v hv hr
      have hq'q : q' ≠ q := by rintro rfl; rw [ht] at hq'; exact hvw (QThread.running.inj hq').symm
      exact ⟨q', by rw [hQ, if_neg hq'q]; exact hq'⟩
  · intro q' v hv ht'
    rw [hQ] at ht'
    split at ht'
    · simp at ht'
    · rename_i hq'q
      have hvw := hother q' v hv hq'q ht'
      rw [hW, if_neg hvw]
      exact h.thread_running q' v hv ht'
  · intro v hv hc
    rw [hW] at hc ⊢
    split at hc
    · simp at hc
    · rename_i hvw; rw [if_neg hvw]; exact h.canceling_running v hv hc
  · intro v hv hd
    rw [hW]; split
    · rename_i hvw; subst hvw; exact h.undelayed v hv hd
    · exact h.undelayed v hv hd
  · intro v hv
    rw [hW]; split
    · rfl
    · exact h.unflushing v hv
  · intro q' hs'
    rw [hQ] at hs' ⊢
    split at hs'
    · rename_i hq'; subst hq'
      exact absurd ht ((h.stopped q' hs').2 w)
    · rename_i hq'; rw [if_neg hq']; exact h.stopped q' hs'

-- work_queue_main takes the head of the pending list and marks it running.
theorem WorkInv.pickHead {s : WorkSys} {q w : Nat} {rest : List Nat} (h : WorkInv fl dl s)
    (hi : (s.queues q).thread = .idle) (hp : (s.queues q).pending = w :: rest) :
    WorkInv fl dl ((s.setQueue q { s.queues q with
        pending := rest, flags := { (s.queues q).flags with busy := true }, thread := .running w }).setFlags
      w fun f => { f with running := true, queued := false }) := by
  set s' := (s.setQueue q { s.queues q with
      pending := rest, flags := { (s.queues q).flags with busy := true }, thread := .running w }).setFlags
    w fun f => { f with running := true, queued := false }
  have hW : ∀ v, s'.works v = if v = w then
      { s.works w with flags := { (s.works w).flags with running := true, queued := false } }
      else s.works v := fun v => by simp [s']
  have hP : ∀ q', (s'.queues q').pending = if q' = q then rest else (s.queues q').pending := by
    intro q'; by_cases hq : q' = q <;> simp [s', hq]
  have hT : ∀ q', (s'.queues q').thread = if q' = q then .running w else (s.queues q').thread := by
    intro q'; by_cases hq : q' = q <;> simp [s', hq]
  have hS : ∀ q', (s'.queues q').flags.started = (s.queues q').flags.started := by
    intro q'; by_cases hq : q' = q <;> simp [s', hq]
  have hst : (s.queues q).flags.started = true := by
    cases hs : (s.queues q).flags.started
    · simp [(h.stopped q hs).1] at hp
    · rfl
  -- facts about the picked item when it is an ordinary one
  have hwq : fl w = false → (s.works w).queue = some q := fun hw => h.mem_home w q hw (by simp [hp])
  have hwr : fl w = false → (s.works w).flags.running = false := by
    intro hw
    cases hr : (s.works w).flags.running
    · rfl
    · obtain ⟨q', hq'⟩ := h.running_thread w hw hr
      have : q' = q := Option.some.inj ((h.thread_running q' w hw hq').2.symm.trans (hwq hw))
      subst this; simp [hi] at hq'
  have hwrest : fl w = false → w ∉ rest := by
    intro hw hm
    have := h.count_one w q hw (by simp [hp])
    rw [hp, List.count_cons_self] at this
    have hpos := List.count_pos_iff.2 hm
    omega
  -- membership of any ordinary item after the pop
  have hmem : ∀ v q', fl v = false →
      (v ∈ (s'.queues q').pending ↔ v ∈ (s.queues q').pending ∧ v ≠ w) := by
    intro v q' hv
    rw [hP]
    by_cases hvw : v = w
    · subst hvw
      simp only [ne_eq, not_true_eq_false, and_false, iff_false]
      split
      · exact hwrest hv
      · rename_i hq
        exact fun hm => hq (Option.some.inj ((h.mem_home v q' hv hm).symm.trans (hwq hv)))
    · split
      · rename_i hq; subst hq; simp [hp, hvw]
      · simp [hvw]
  constructor
  · intro v hv
    by_cases hvw : v = w
    · subst hvw; simp [hW, hmem v _ hv]
    · simp only [hW, hvw, if_false, hmem v _ hv, ne_eq, not_false_eq_true, and_true]
      exact h.queued_iff v hv
  · intro v q' hv hm
    rw [hmem v q' hv] at hm
    rw [hW, if_neg hm.2]; exact h.mem_home v q' hv hm.1
  · intro v q' hv hm
    rw [hmem v q' hv] at hm
    rw [hP]; split
    · rename_i hq; subst hq
      have := h.count_one v q' hv hm.1
      rwa [hp, List.count_cons, if_neg (by simpa using Ne.symm hm.2)] at this
    · exact h.count_one v q' hv hm.1
  · intro v hv hr
    by_cases hvw : v = w
    · subst hvw; exact ⟨q, by simp [hT]⟩
    · rw [hW, if_neg hvw] at hr
      obtain ⟨q', hq'⟩ := h.running_thread v hv hr
      have hq'q : q' ≠ q := by rintro rfl; simp [hi] at hq'
      exact ⟨q', by rw [hT, if_neg hq'q]; exact hq'⟩
  · intro q' v hv ht
    rw [hT] at ht
    split at ht
    · rename_i hq; subst hq
      have hvw : v = w := (QThread.running.inj ht).symm
      subst hvw
      simp [hW, hwq hv]
    · rename_i hq
      have hvw : v ≠ w := by
        rintro rfl
        exact absurd (h.thread_running q' v hv ht).1 (by simp [hwr hv])
      rw [hW, if_neg hvw]; exact h.thread_running q' v hv ht
  · intro v hv hc
    by_cases hvw : v = w
    · subst hvw
      simp only [hW, if_true] at hc
      exact absurd (h.canceling_running v hv hc).1 (by simp [hwr hv])
    · rw [hW, if_neg hvw] at hc ⊢; exact h.canceling_running v hv hc
  · intro v hv hd
    rw [hW]; split
    · rename_i hvw; subst hvw; exact h.undelayed v hv hd
    · exact h.undelayed v hv hd
  · intro v hv
    rw [hW]; split
    · rename_i hvw; subst hvw; exact h.unflushing v hv
    · exact h.unflushing v hv
  · intro q' hs'
    rw [hS] at hs'
    by_cases hq : q' = q
    · subst hq; simp [hst] at hs'
    · rw [hP, hT, if_neg hq, if_neg hq]; exact h.stopped q' hs'

theorem WorkInv.pick {s : WorkSys} {q : Nat} (h : WorkInv fl dl s) (hi : (s.queues q).thread = .idle) :
    WorkInv fl dl (workQueueMainPick s q) := by
  simp only [workQueueMainPick]
  split
  · rename_i w rest hp
    exact h.pickHead hi hp
  · rename_i hp
    split
    · exact h.of_coreEq (coreEq_setQueue s q _ rfl rfl rfl) fun _ => rfl
    · split
      · -- the thread exits: the queue is empty and runs nothing
        set s' := s.setQueue q { s.queues q with flags := .cleared, thread := .exited }
        have hP : ∀ q', (s'.queues q').pending = (s.queues q').pending := by
          intro q'; by_cases hq : q' = q <;> simp [s', hq]
        have hR : ∀ q' v, (s'.queues q').thread = .running v ↔ (s.queues q').thread = .running v := by
          intro q' v; by_cases hq : q' = q
          · subst hq; simp [s', hi]
          · simp [s', hq]
        constructor
        · intro v hv; simp only [s', setQueue_works, hP]; exact h.queued_iff v hv
        · intro v q' hv; simp only [s', setQueue_works, hP]; exact h.mem_home v q' hv
        · intro v q' hv; simp only [hP]; exact h.count_one v q' hv
        · intro v hv hr
          obtain ⟨q', hq'⟩ := h.running_thread v hv hr
          exact ⟨q', (hR q' v).2 hq'⟩
        · intro q' v hv ht; exact h.thread_running q' v hv ((hR q' v).1 ht)
        · intro v hv; exact h.canceling_running v hv
        · intro v hv; exact h.undelayed v hv
        · intro v hv; exact h.unflushing v hv
        · intro q' hs'
          by_cases hq : q' = q
          · subst hq; simp [s', hp]
          · simp only [s', setQueue_queues, hq, if_false] at hs' ⊢; exact h.stopped q' hs'
      · exact h

theorem WorkInv.setQFlags {s : WorkSys} (h : WorkInv fl dl s) (q : Nat) (f : QueueFlags → QueueFlags)
    (hf : ∀ x, (f x).started = x.started) : WorkInv fl dl (s.setQFlags q f) :=
  h.of_coreEq (coreEq_setQueue s q _ rfl rfl (hf _)) fun _ => rfl

theorem WorkInv.unschedule {s : WorkSys} {w : Nat} (h : WorkInv fl dl s) (hd : dl w = true) :
    WorkInv fl dl (unscheduleLocked s w).1 := by
  simp only [unscheduleLocked]
  split
  · exact h.of_coreEq (coreEq_setWork s w _ rfl rfl rfl rfl (by simp [hd])) fun v => by
      by_cases hvw : v = w <;> simp [hvw]
  · exact h

theorem unscheduleLocked_delayed (s : WorkSys) (w : Nat) :
    ((unscheduleLocked s w).1.works w).flags.delayed = false := by
  simp only [unscheduleLocked]
  split
  · simp
  · simp_all

theorem WorkInv.scheduleLocked {s : WorkSys} {w : Nat} (h : WorkInv fl dl s) (hw : fl w = false)
    (hd : dl w = true) (c : Caller) (q : Option Nat) (delay : Timeout) :
    WorkInv fl dl (scheduleForQueueLocked s c q w delay).1 := by
  simp only [scheduleForQueueLocked]
  split
  · exact h.submit hw c q
  · exact h.of_coreEq (coreEq_setWork s w _ rfl rfl rfl rfl (by simp [hd])) fun v => by
      by_cases hvw : v = w <;> simp [hvw]

theorem WorkInv.cancelSync {s : WorkSys} {w : Nat} (h : WorkInv fl dl s) (c : Nat) :
    WorkInv fl dl (cancelSyncLocked s w c).1 := by
  simp only [cancelSyncLocked]
  split
  · exact h.of_coreEq (coreEq_of_eq rfl rfl) fun _ => rfl
  · exact h

theorem WorkInv.timeout {s : WorkSys} {w : Nat} (h : WorkInv fl dl s) (hw : fl w = false)
    (hd : dl w = true) : WorkInv fl dl (workTimeout s w) := by
  set s₁ := s.setWork w { s.works w with timeoutActive := false }
  have h₁ : WorkInv fl dl s₁ :=
    h.of_coreEq (coreEq_setWork s w _ rfl rfl rfl rfl fun _ => rfl) fun v => by
      by_cases hvw : v = w <;> simp [s₁, hvw]
  simp only [workTimeout]
  split
  · have h₂ : WorkInv fl dl (s₁.setFlags w fun f => { f with delayed := false }) :=
      h₁.of_coreEq (coreEq_setWork s₁ w _ rfl rfl rfl rfl (by simp [hd])) fun v => by
        by_cases hvw : v = w <;> simp [hvw]
    exact h₂.submit hw _ _
  · exact h₁

end Inv

section Run

variable {fl dl : Nat → Bool}

theorem workInv_start : WorkInv fl dl (workSysStart dl) := by
  have hp : (default : WorkQ).pending = [] := rfl
  have ht : (default : WorkQ).thread = .idle := rfl
  constructor <;> simp [workSysStart, WorkFlags.empty, hp, ht]

theorem kWorkSubmitToQueue_fst (s : WorkSys) (c : Caller) (q : Option Nat) (w : Nat) :
    (kWorkSubmitToQueue s c q w).1 = (submitToQueueLocked s c w q).1 := by
  rcases hs : submitToQueueLocked s c w q with ⟨s', q', r⟩
  simp [kWorkSubmitToQueue, hs]

-- Every call and every thread step keeps the invariant.
theorem WorkInv.step {s s' : WorkSys} (h : WorkInv fl dl s) (hs : WorkStep fl dl s s') :
    WorkInv fl dl s' := by
  obtain ⟨op, hop, rfl⟩ := hs
  cases op with
  | submit c q w =>
    rw [WorkOp.apply, kWorkSubmitToQueue_fst]; exact h.submit hop.1 c q
  | schedule c q w d =>
    simp only [WorkOp.apply, kWorkScheduleForQueue]
    split
    · exact h
    · exact h.scheduleLocked hop.1 hop.2 c _ d
  | reschedule c q w d =>
    exact (h.unschedule hop.2).scheduleLocked hop.1 hop.2 c _ d
  | cancel w => exact h.cancelAsync hop.1 (h.undelayed w hop.1 hop.2)
  | cancelSync w c =>
    simp only [WorkOp.apply, kWorkCancelSync]
    split
    · exact (h.cancelAsync hop.1 (h.undelayed w hop.1 hop.2)).cancelSync c
    · exact h
  | cancelDelayable w =>
    exact (h.unschedule hop.2).cancelAsync hop.1 (unscheduleLocked_delayed s w)
  | cancelDelayableSync w c =>
    simp only [WorkOp.apply, kWorkCancelDelayableSync]
    split
    · exact ((h.unschedule hop.2).cancelAsync hop.1 (unscheduleLocked_delayed s w)).cancelSync c
    · exact h
  | flush w f => exact h.flush hop.1 hop.2.2
  | flushDelayable c w f =>
    simp only [WorkOp.apply, kWorkFlushDelayable]
    split
    · exact h
    · have h₁ := h.unschedule (w := w) hop.2.1
      split
      · exact (h₁.submit hop.1 c _).flush hop.1 hop.2.2
      · exact h₁.flush hop.1 hop.2.2
  | timeout w => exact h.timeout hop.1 hop.2.1
  | queueStart q t n => exact h.start hop t n
  | queueDrain q p =>
    simp only [WorkOp.apply, kWorkQueueDrain]
    split
    · exact h.setQFlags q (fun f => { f with drain := true, plugged := f.plugged || p }) fun _ => rfl
    · exact h
  | queueUnplug q =>
    simp only [WorkOp.apply, kWorkQueueUnplug]
    split
    · exact h.setQFlags q (fun f => { f with plugged := false }) fun _ => rfl
    · exact h
  | queueStop q =>
    simp only [WorkOp.apply, kWorkQueueStop]
    split
    · exact h
    · split
      · exact h
      · exact h.setQFlags q (fun f => { f with stop := true }) fun _ => rfl
  | queueStopTimedOut q => exact h.setQFlags q (fun f => { f with stop := false }) fun _ => rfl
  | pick q => exact h.pick hop
  | finish q =>
    simp only [WorkOp.apply]
    split
    · rename_i w ht; exact h.finish ht
    · exact h

theorem WorkReach.inv {s : WorkSys} (h : WorkReach fl dl s) : WorkInv fl dl s :=
  StateMachine.Reachable.inv _ (fun _ hs => hs ▸ workInv_start) (fun _ _ hi hst => hi.step hst) h

-- A submission while the handler runs goes to the queue running it.
theorem WorkInv.submit_running {s : WorkSys} {w : Nat} (h : WorkInv fl dl s) (hw : fl w = false)
    (hr : (s.works w).flags.running = true) (hq : (s.works w).flags.queued = false)
    (hc : (s.works w).flags.canceling = false) (c : Caller) (q : Option Nat)
    (hnn : 0 ≤ (kWorkSubmitToQueue s c q w).2) :
    (kWorkSubmitToQueue s c q w).2 = 2 ∧
      ∃ q₀, (s.queues q₀).thread = .running w ∧ w ∈ ((kWorkSubmitToQueue s c q w).1.queues q₀).pending := by
  obtain ⟨q₀, ht⟩ := h.running_thread w hw hr
  have hqq := (h.thread_running q₀ w hw ht).2
  rcases queueSubmitLocked_cases s c (some q₀) w with ⟨rc, hrc, he⟩ | ⟨q₁, hq₁, -, he⟩
  · simp [kWorkSubmitToQueue, submitToQueueLocked, hc, hq, hr, hqq, he, hrc] at hnn
    omega
  · cases hq₁
    simp only [kWorkSubmitToQueue, submitToQueueLocked, hc, hq, hr, hqq, Bool.false_eq_true,
      Bool.not_false, if_true, if_false]
    rw [he]
    refine ⟨by simp, q₀, ht, by simp⟩

theorem submit_canceling (s : WorkSys) (w : Nat) (hc : (s.works w).flags.canceling = true)
    (c : Caller) (q : Option Nat) : kWorkSubmitToQueue s c q w = (s, -16) := by
  simp [kWorkSubmitToQueue, submitToQueueLocked, hc]

theorem work_queue_flags_track_lists (fl dl : Nat → Bool) (s : WorkSys) (hr : WorkReach fl dl s)
    (w : Nat) (hw : fl w = false) :
    ((s.works w).flags.queued = true ↔ ∃ q, w ∈ (s.queues q).pending) ∧
    (∀ q, w ∈ (s.queues q).pending →
      (s.works w).queue = some q ∧ (s.queues q).pending.count w = 1) ∧
    ((s.works w).flags.running = true ↔
      ∃ q, (s.queues q).thread = .running w ∧ (s.works w).queue = some q) ∧
    (∀ q q', (s.queues q).thread = .running w → (s.queues q').thread = .running w → q = q') ∧
    (∀ c q, (s.works w).flags.running = true → (s.works w).flags.queued = false →
      (s.works w).flags.canceling = false → 0 ≤ (kWorkSubmitToQueue s c q w).2 →
      (kWorkSubmitToQueue s c q w).2 = 2 ∧
        ∃ q₀, (s.queues q₀).thread = .running w ∧
          w ∈ ((kWorkSubmitToQueue s c q w).1.queues q₀).pending) ∧
    ((s.works w).flags.canceling = true →
      (s.works w).flags.running = true ∧ (s.works w).flags.queued = false) ∧
    (∀ c q, (s.works w).flags.canceling = true → kWorkSubmitToQueue s c q w = (s, -16)) := by
  have h := hr.inv
  refine ⟨h.queued_iff w hw, fun q hm => ⟨h.mem_home w q hw hm, h.count_one w q hw hm⟩, ⟨?_, ?_⟩,
    ?_, fun c q hrun hq hc => h.submit_running hw hrun hq hc c q, h.canceling_running w hw,
    fun c q hc => submit_canceling s w hc c q⟩
  · intro hrun
    obtain ⟨q, ht⟩ := h.running_thread w hw hrun
    exact ⟨q, ht, (h.thread_running q w hw ht).2⟩
  · rintro ⟨q, ht, -⟩
    exact (h.thread_running q w hw ht).1
  · intro q q' ht ht'
    exact Option.some.inj ((h.thread_running q w hw ht).2.symm.trans (h.thread_running q' w hw ht').2)

-- Queue 0 started with thread 100; item 1 submitted by thread 5 and picked up.
def workRunPicked : WorkSys :=
  workQueueMainPick
    (kWorkSubmitToQueue (kWorkQueueStart (workSysStart fun _ => false) 0 100 false) (.thread 5)
      (some 0) 1).1 0

-- Flusher objects are numbered from 1000 on.
theorem workReach_runPicked :
    WorkReach (fun w => decide (1000 ≤ w)) (fun _ => false) workRunPicked :=
  .step (.step (.step (.init rfl) ⟨.queueStart 0 100 false, rfl, rfl⟩)
    ⟨.submit (.thread 5) (some 0) 1, ⟨rfl, rfl⟩, rfl⟩) ⟨.pick 0, rfl, rfl⟩

theorem work_queue_flags_track_lists_picked :
    WorkReach (fun w => decide (1000 ≤ w)) (fun _ => false) workRunPicked ∧
    decide (1000 ≤ 1) = false ∧
    ((workRunPicked.works 1).flags.queued = true ↔ ∃ q, 1 ∈ (workRunPicked.queues q).pending) ∧
    (∀ q, 1 ∈ (workRunPicked.queues q).pending →
      (workRunPicked.works 1).queue = some q ∧ (workRunPicked.queues q).pending.count 1 = 1) ∧
    ((workRunPicked.works 1).flags.running = true ↔
      ∃ q, (workRunPicked.queues q).thread = .running 1 ∧ (workRunPicked.works 1).queue = some q) ∧
    (∀ q q', (workRunPicked.queues q).thread = .running 1 →
      (workRunPicked.queues q').thread = .running 1 → q = q') ∧
    (∀ c q, (workRunPicked.works 1).flags.running = true →
      (workRunPicked.works 1).flags.queued = false →
      (workRunPicked.works 1).flags.canceling = false →
      0 ≤ (kWorkSubmitToQueue workRunPicked c q 1).2 →
      (kWorkSubmitToQueue workRunPicked c q 1).2 = 2 ∧
        ∃ q₀, (workRunPicked.queues q₀).thread = .running 1 ∧
          1 ∈ ((kWorkSubmitToQueue workRunPicked c q 1).1.queues q₀).pending) ∧
    ((workRunPicked.works 1).flags.canceling = true →
      (workRunPicked.works 1).flags.running = true ∧ (workRunPicked.works 1).flags.queued = false) ∧
    (∀ c q, (workRunPicked.works 1).flags.canceling = true →
      kWorkSubmitToQueue workRunPicked c q 1 = (workRunPicked, -16)) :=
  ⟨workReach_runPicked, rfl,
    work_queue_flags_track_lists _ _ _ workReach_runPicked 1 rfl⟩

end Run

end Zephyr.Work
