import Zephyr.Work.Inv

namespace Zephyr.Work

open WorkSys

/-! What the item calls leave alone -/

-- A queue's flags, its thread and the thread's id belong to the queue calls
-- and to work_queue_main: the item calls only add to or take from pending lists.
structure QCtl (s s' : WorkSys) : Prop where
  flags : ∀ q, (s'.queues q).flags = (s.queues q).flags
  threadId : ∀ q, (s'.queues q).threadId = (s.queues q).threadId
  thread : ∀ q, (s'.queues q).thread = (s.queues q).thread

theorem QCtl.refl (s : WorkSys) : QCtl s s := ⟨fun _ => rfl, fun _ => rfl, fun _ => rfl⟩

theorem QCtl.trans {s₁ s₂ s₃ : WorkSys} (h₁ : QCtl s₁ s₂) (h₂ : QCtl s₂ s₃) : QCtl s₁ s₃ :=
  ⟨fun q => (h₂.flags q).trans (h₁.flags q), fun q => (h₂.threadId q).trans (h₁.threadId q),
    fun q => (h₂.thread q).trans (h₁.thread q)⟩

theorem qctl_of_queues {s s' : WorkSys} (h : s'.queues = s.queues) : QCtl s s' :=
  ⟨fun q => by rw [h], fun q => by rw [h], fun q => by rw [h]⟩

theorem qctl_setWork (s : WorkSys) (w : Nat) (k : KWork) : QCtl s (s.setWork w k) := qctl_of_queues rfl

theorem initFlusher_queues (s : WorkSys) (f : Nat) : (initFlusher s f).queues = s.queues := rfl

theorem qctl_setPending (s : WorkSys) (q : Nat) (l : List Nat) :
    QCtl s (s.setQueue q { s.queues q with pending := l }) := by
  constructor <;> intro v <;> by_cases hv : v = q <;> simp [hv]

theorem queueSubmitLocked_qctl (s : WorkSys) (c : Caller) (q : Option Nat) (w : Nat) :
    QCtl s (queueSubmitLocked s c q w).1 := by
  rcases queueSubmitLocked_cases s c q w with ⟨rc, -, he⟩ | ⟨q₀, -, -, he⟩ <;> rw [he]
  · exact .refl s
  · exact qctl_setPending s q₀ _

-- submit_to_queue_locked changes the queues only through queue_submit_locked.
theorem submitToQueueLocked_queues (s : WorkSys) (c : Caller) (w : Nat) (q : Option Nat) :
    (submitToQueueLocked s c w q).1.queues = s.queues ∨
      ∃ q', (submitToQueueLocked s c w q).1.queues = (queueSubmitLocked s c q' w).1.queues := by
  unfold submitToQueueLocked
  dsimp only
  split
  · exact .inl rfl
  · split
    · refine .inr ⟨if (s.works w).flags.running = true then (s.works w).queue
        else q.orElse fun _ => (s.works w).queue, ?_⟩
      generalize queueSubmitLocked s c _ w = r
      obtain ⟨s₁, rc⟩ := r
      dsimp only
      split <;> rfl
    · exact .inl rfl

theorem submitToQueueLocked_qctl (s : WorkSys) (c : Caller) (w : Nat) (q : Option Nat) :
    QCtl s (submitToQueueLocked s c w q).1 := by
  rcases submitToQueueLocked_queues s c w q with h | ⟨q', h⟩
  · exact qctl_of_queues h
  · exact (queueSubmitLocked_qctl s c q' w).trans (qctl_of_queues h)

theorem scheduleForQueueLocked_qctl (s : WorkSys) (c : Caller) (q : Option Nat) (w : Nat)
    (delay : Timeout) : QCtl s (scheduleForQueueLocked s c q w delay).1 := by
  unfold scheduleForQueueLocked
  dsimp only
  split
  · exact submitToQueueLocked_qctl s c w q
  · exact qctl_of_queues rfl

theorem unscheduleLocked_queues (s : WorkSys) (w : Nat) : (unscheduleLocked s w).1.queues = s.queues := by
  unfold unscheduleLocked
  dsimp only
  split <;> rfl

theorem workTimeout_qctl (s : WorkSys) (w : Nat) : QCtl s (workTimeout s w) := by
  unfold workTimeout
  dsimp only
  split
  · exact ((qctl_setWork _ _ _).trans (qctl_setWork _ _ _)).trans (submitToQueueLocked_qctl _ .isr w _)
  · exact qctl_of_queues rfl

theorem queueRemoveLocked_qctl (s : WorkSys) (q : Option Nat) (w : Nat) :
    QCtl s (queueRemoveLocked s q w) := by
  unfold queueRemoveLocked
  dsimp only
  split
  · rcases q with _ | q
    · exact qctl_setWork _ _ _
    · exact (qctl_setWork _ _ _).trans (qctl_setPending _ q _)
  · exact .refl s

theorem cancelAsyncLocked_qctl (s : WorkSys) (w : Nat) : QCtl s (cancelAsyncLocked s w).1 := by
  unfold cancelAsyncLocked
  dsimp only
  have h₁ : QCtl s (if (!(s.works w).flags.canceling) = true then queueRemoveLocked s (s.works w).queue w
      else s) := by
    split
    · exact queueRemoveLocked_qctl s _ w
    · exact .refl s
  generalize (if (!(s.works w).flags.canceling) = true then queueRemoveLocked s (s.works w).queue w
    else s) = s₁ at h₁ ⊢
  split
  · exact h₁.trans (qctl_setWork _ _ _)
  · exact h₁

theorem cancelSyncLocked_queues (s : WorkSys) (w c : Nat) : (cancelSyncLocked s w c).1.queues = s.queues := by
  unfold cancelSyncLocked
  split <;> rfl

theorem workFlushLocked_qctl (s : WorkSys) (w f : Nat) : QCtl s (workFlushLocked s w f).1 := by
  unfold workFlushLocked
  dsimp only
  split
  · split
    · -- queue_flusher_locked: a flusher joins the pending list after the item
      unfold queueFlusherLocked
      dsimp only
      split
      · exact (qctl_of_queues (initFlusher_queues s f)).trans (qctl_setPending _ _ _)
      · exact (qctl_of_queues (initFlusher_queues s f)).trans (qctl_setPending _ _ _)
    · exact .refl s
  · exact .refl s

theorem kWorkFlushDelayable_qctl (s : WorkSys) (c : Caller) (w f : Nat) :
    QCtl s (kWorkFlushDelayable s c w f).1 := by
  unfold kWorkFlushDelayable
  dsimp only
  split
  · exact .refl s
  · have h₁ := qctl_of_queues (unscheduleLocked_queues s w)
    split
    · exact (h₁.trans (submitToQueueLocked_qctl _ c w _)).trans (workFlushLocked_qctl _ w f)
    · exact h₁.trans (workFlushLocked_qctl _ w f)

-- The calls made on items, as opposed to the queue calls and the steps of
-- work_queue_main.
def WorkOp.onItem : WorkOp → Bool
  | .queueStart .. | .queueDrain .. | .queueUnplug _ | .queueStop _ | .queueStopTimedOut _ | .pick _
  | .finish _ => false
  | _ => true

theorem WorkOp.qctl_of_onItem (s : WorkSys) (op : WorkOp) (h : op.onItem = true) : QCtl s (op.apply s) := by
  cases op with
  | submit c q w => rw [WorkOp.apply, kWorkSubmitToQueue_fst]; exact submitToQueueLocked_qctl s c w q
  | schedule c q w d =>
    simp only [WorkOp.apply, kWorkScheduleForQueue]
    split
    · exact .refl s
    · exact scheduleForQueueLocked_qctl s c _ w d
  | reschedule c q w d =>
    exact (qctl_of_queues (unscheduleLocked_queues s w)).trans (scheduleForQueueLocked_qctl _ c _ w d)
  | cancel w => exact cancelAsyncLocked_qctl s w
  | cancelSync w c =>
    simp only [WorkOp.apply, kWorkCancelSync]
    split
    · exact (cancelAsyncLocked_qctl s w).trans (qctl_of_queues (cancelSyncLocked_queues _ w c))
    · exact .refl s
  | cancelDelayable w =>
    exact (qctl_of_queues (unscheduleLocked_queues s w)).trans (cancelAsyncLocked_qctl _ w)
  | cancelDelayableSync w c =>
    simp only [WorkOp.apply, kWorkCancelDelayableSync]
    split
    · exact ((qctl_of_queues (unscheduleLocked_queues s w)).trans (cancelAsyncLocked_qctl _ w)).trans
        (qctl_of_queues (cancelSyncLocked_queues _ w c))
    · exact .refl s
  | flush w f => exact workFlushLocked_qctl s w f
  | flushDelayable c w f => exact kWorkFlushDelayable_qctl s c w f
  | timeout w => exact workTimeout_qctl s w
  | queueStart | queueDrain | queueUnplug | queueStop | queueStopTimedOut | pick | finish =>
    simp [WorkOp.onItem] at h

/-! K_WORK_QUEUE_BUSY -/

-- The busy flag is set exactly while the queue's thread runs a handler.
def BusyInv (s : WorkSys) : Prop :=
  ∀ q, (s.queues q).flags.busy = true ↔ ∃ w, (s.queues q).thread = .running w

theorem BusyInv.of_qctl {s s' : WorkSys} (h : BusyInv s) (hc : QCtl s s') : BusyInv s' := fun q => by
  rw [hc.flags, hc.thread]
  exact h q

theorem BusyInv.setQFlags {s : WorkSys} (h : BusyInv s) (q : Nat) (f : QueueFlags → QueueFlags)
    (hf : ∀ x, (f x).busy = x.busy) : BusyInv (s.setQFlags q f) := fun q' => by
  by_cases hq : q' = q
  · subst hq
    simpa [hf] using h q'
  · simpa [hq] using h q'

theorem BusyInv.pick {s : WorkSys} (h : BusyInv s) (q : Nat) : BusyInv (workQueueMainPick s q) := by
  unfold workQueueMainPick
  dsimp only
  split
  · intro q'
    by_cases hq : q' = q
    · subst hq; simp
    · simpa [hq] using h q'
  · split
    · exact h.setQFlags q (fun f => { f with drain := false }) fun _ => rfl
    · split
      · intro q'
        by_cases hq : q' = q
        · subst hq; simp [QueueFlags.cleared]
        · simpa [hq] using h q'
      · exact h

theorem BusyInv.step {fl dl : Nat → Bool} {s s' : WorkSys} (h : BusyInv s) (hs : WorkStep fl dl s s') :
    BusyInv s' := by
  obtain ⟨op, -, rfl⟩ := hs
  cases hi : op.onItem
  · cases op with
    | queueStart q t n =>
      intro q'
      by_cases hq : q' = q
      · subst hq; simp [WorkOp.apply, kWorkQueueStart, QueueFlags.cleared]
      · simpa [WorkOp.apply, kWorkQueueStart, hq] using h q'
    | queueDrain q p =>
      simp only [WorkOp.apply, kWorkQueueDrain]
      split
      · exact h.setQFlags q (fun f => { f with drain := true, plugged := f.plugged || p }) fun _ => rfl
      · exact h
    | queueUnplug q =>
      simp only [WorkOp.apply, kWorkQueueUnplug]
      split
      · exact h.setQFlags q (fun f => { f with plugged := false }) fun _ => rfl
      · exact h
    | queueStop q =>
      simp only [WorkOp.apply, kWorkQueueStop]
      split
      · exact h
      · split
        · exact h
        · exact h.setQFlags q (fun f => { f with stop := true }) fun _ => rfl
    | queueStopTimedOut q => exact h.setQFlags q (fun f => { f with stop := false }) fun _ => rfl
    | pick q => exact h.pick q
    | finish q =>
      simp only [WorkOp.apply]
      split
      · intro q'
        rw [workQueueMainFinish_queues]
        by_cases hq : q' = q
        · subst hq; simp
        · simpa [hq] using h q'
      · exact h
    | submit | schedule | reschedule | cancel | cancelSync | cancelDelayable | cancelDelayableSync
    | flush | flushDelayable | timeout => simp [WorkOp.onItem] at hi
  · exact h.of_qctl (op.qctl_of_onItem s hi)

theorem workQueueMainPick_queues_of_ne (s : WorkSys) {q q' : Nat} (h : q' ≠ q) :
    (workQueueMainPick s q).queues q' = s.queues q' := by
  unfold workQueueMainPick
  dsimp only
  split
  · simp [h]
  · split
    · simp [h]
    · split <;> simp [h]

-- An empty queue whose thread is idle has no item queued on it or running on it.
theorem WorkInv.idle_queue {fl dl : Nat → Bool} {s : WorkSys} (h : WorkInv fl dl s) {q : Nat}
    (hp : (s.queues q).pending = []) (hi : (s.queues q).thread = .idle) {w : Nat} (hw : fl w = false)
    (hq : (s.works w).queue = some q) :
    (s.works w).flags.queued = false ∧ (s.works w).flags.running = false := by
  constructor
  · rw [Bool.eq_false_iff]
    intro hqd
    obtain ⟨q', hm⟩ := (h.queued_iff w hw).1 hqd
    obtain rfl : q' = q := Option.some.inj ((h.mem_home w q' hw hm).symm.trans hq)
    simp [hp] at hm
  · rw [Bool.eq_false_iff]
    intro hr
    obtain ⟨q', ht⟩ := h.running_thread w hw hr
    obtain rfl : q' = q := Option.some.inj ((h.thread_running q' w hw ht).2.symm.trans hq)
    rw [hi] at ht
    cases ht

-- The thread of a started queue runs only work_queue_main: it makes a call
-- only from a handler it is running.
def Caller.Live (s : WorkSys) : Caller → Prop
  | .thread t => ∀ q, (s.queues q).flags.started = true → (s.queues q).threadId = t →
      ∃ w, (s.queues q).thread = .running w
  | .isr => True

def WorkOp.Live (s : WorkSys) : WorkOp → Prop
  | .submit c _ _ | .schedule c _ _ _ | .reschedule c _ _ _ | .flushDelayable c _ _ => c.Live s
  | _ => True

theorem Caller.Live.of_queues {s s' : WorkSys} (h : s'.queues = s.queues) {c : Caller} (hc : c.Live s) :
    c.Live s' := by
  cases c with
  | thread t => intro q; rw [h]; exact hc q
  | isr => trivial

-- A plugged queue after its drain: started, plugged, nothing pending, its thread idle.
structure WorkQ.PluggedIdle (k : WorkQ) : Prop where
  started : k.flags.started = true
  plugged : k.flags.plugged = true
  pending : k.pending = []
  idle : k.thread = .idle

section Plugged

variable {q : Nat}

-- Nobody but the queue's own thread gets past queue_submit_locked, and that
-- thread is idle.
theorem queueSubmitLocked_of_pluggedIdle {s : WorkSys} (hP : (s.queues q).PluggedIdle) {c : Caller}
    (hc : c.Live s) (w : Nat) : queueSubmitLocked s c (some q) w = (s, -16) := by
  have hnc : c ≠ .thread (s.queues q).threadId := by
    rintro rfl
    obtain ⟨v, hv⟩ := hc q hP.started rfl
    rw [hP.idle] at hv
    cases hv
  cases hd : (s.queues q).flags.drain <;> simp [queueSubmitLocked, hP.started, hP.plugged, hd, hnc]

theorem queueSubmitLocked_keep {s : WorkSys} (hP : (s.queues q).PluggedIdle) {c : Caller} (hc : c.Live s)
    (q' : Option Nat) (w : Nat) : (queueSubmitLocked s c q' w).1.queues q = s.queues q := by
  rcases queueSubmitLocked_cases s c q' w with ⟨rc, -, he⟩ | ⟨q₀, rfl, -, he⟩
  · rw [he]
  · by_cases hq : q₀ = q
    · subst hq
      rw [queueSubmitLocked_of_pluggedIdle hP hc] at he
      simp at he
    · rw [he]
      simp [Ne.symm hq]

theorem submitToQueueLocked_keep {s : WorkSys} (hP : (s.queues q).PluggedIdle) {c : Caller} (hc : c.Live s)
    (w : Nat) (q' : Option Nat) : (submitToQueueLocked s c w q').1.queues q = s.queues q := by
  rcases submitToQueueLocked_queues s c w q' with h | ⟨q'', h⟩ <;> rw [h]
  exact queueSubmitLocked_keep hP hc q'' w

theorem scheduleForQueueLocked_keep {s : WorkSys} (hP : (s.queues q).PluggedIdle) {c : Caller}
    (hc : c.Live s) (q' : Option Nat) (w : Nat) (delay : Timeout) :
    (scheduleForQueueLocked s c q' w delay).1.queues q = s.queues q := by
  unfold scheduleForQueueLocked
  dsimp only
  split
  · exact submitToQueueLocked_keep hP hc w q'
  · rfl

theorem workTimeout_keep {s : WorkSys} (hP : (s.queues q).PluggedIdle) (w : Nat) :
    (workTimeout s w).queues q = s.queues q := by
  unfold workTimeout
  dsimp only
  split
  · generalize hX : (s.setWork w _).setFlags w _ = X
    have hq : X.queues = s.queues := by rw [← hX]; rfl
    rw [submitToQueueLocked_keep (by rw [hq]; exact hP) (show Caller.Live X .isr from trivial) w _, hq]
  · rfl

-- Taking an item off an empty pending list leaves it empty.
theorem queueRemoveLocked_keep {s : WorkSys} (hP : (s.queues q).PluggedIdle) (q' : Option Nat) (w : Nat) :
    (queueRemoveLocked s q' w).queues q = s.queues q := by
  unfold queueRemoveLocked
  dsimp only
  split
  · rcases q' with _ | q₀
    · rfl
    · by_cases hq : q₀ = q
      · subst hq
        have he : (s.queues q₀).pending.erase w = (s.queues q₀).pending := by rw [hP.pending]; rfl
        simp [he]
      · simp [Ne.symm hq]
  · rfl

theorem cancelAsyncLocked_keep {s : WorkSys} (hP : (s.queues q).PluggedIdle) (w : Nat) :
    (cancelAsyncLocked s w).1.queues q = s.queues q := by
  unfold cancelAsyncLocked
  dsimp only
  have h₁ : (if (!(s.works w).flags.canceling) = true then queueRemoveLocked s (s.works w).queue w
      else s).queues q = s.queues q := by
    split
    · exact queueRemoveLocked_keep hP _ w
    · rfl
  generalize (if (!(s.works w).flags.canceling) = true then queueRemoveLocked s (s.works w).queue w
    else s) = s₁ at h₁ ⊢
  split <;> exact h₁

-- A flush of an item that is neither queued nor running on the queue adds
-- no flusher to it.
theorem workFlushLocked_keep {s : WorkSys} {w : Nat} (f : Nat)
    (hw : (s.works w).queue = some q → (s.works w).flags.queued = false ∧ (s.works w).flags.running = false) :
    (workFlushLocked s w f).1.queues q = s.queues q := by
  unfold workFlushLocked
  dsimp only
  split
  · rename_i hb
    split
    · rename_i q₀ hq₀
      have hq : q₀ ≠ q := by
        rintro rfl
        obtain ⟨h1, h2⟩ := hw hq₀
        simp [h1, h2] at hb
      unfold queueFlusherLocked
      dsimp only
      split <;> simp [Ne.symm hq, initFlusher_queues]
    · rfl
  · rfl

theorem workFlushLocked_keep_of_inv {fl dl : Nat → Bool} {s : WorkSys} (hI : WorkInv fl dl s)
    (hP : (s.queues q).PluggedIdle) {w : Nat} (hw : fl w = false) (f : Nat) :
    (workFlushLocked s w f).1.queues q = s.queues q :=
  workFlushLocked_keep f fun hq => hI.idle_queue hP.pending hP.idle hw hq

theorem kWorkFlushDelayable_keep {fl dl : Nat → Bool} {s : WorkSys} (hI : WorkInv fl dl s)
    (hP : (s.queues q).PluggedIdle) {c : Caller} (hc : c.Live s) {w : Nat} (hw : fl w = false)
    (hd : dl w = true) (f : Nat) : (kWorkFlushDelayable s c w f).1.queues q = s.queues q := by
  unfold kWorkFlushDelayable
  dsimp only
  split
  · rfl
  · -- unschedule_locked and the submission leave the queue as it was
    have hu := unscheduleLocked_queues s w
    have hI₁ := hI.unschedule (w := w) hd
    have hP₁ : ((unscheduleLocked s w).1.queues q).PluggedIdle := by rw [hu]; exact hP
    split
    · have h₂ := submitToQueueLocked_keep hP₁ (hc.of_queues hu) w ((unscheduleLocked s w).1.works w).dqueue
      have hP₂ : ((submitToQueueLocked (unscheduleLocked s w).1 c w
          ((unscheduleLocked s w).1.works w).dqueue).1.queues q).PluggedIdle := by rw [h₂]; exact hP₁
      rw [workFlushLocked_keep_of_inv (hI₁.submit hw c _) hP₂ hw f, h₂, hu]
    · rw [workFlushLocked_keep_of_inv hI₁ hP₁ hw f, hu]

-- Every call on an item leaves the plugged queue as it was.
theorem WorkOp.keep_of_onItem {fl dl : Nat → Bool} {s : WorkSys} (hI : WorkInv fl dl s)
    (hP : (s.queues q).PluggedIdle) {op : WorkOp} (hop : op.Allowed fl dl s) (hl : op.Live s)
    (hi : op.onItem = true) : (op.apply s).queues q = s.queues q := by
  have hP₁ : ∀ w, ((unscheduleLocked s w).1.queues q).PluggedIdle := fun w => by
    rw [unscheduleLocked_queues]; exact hP
  cases op with
  | submit c q' w => rw [WorkOp.apply, kWorkSubmitToQueue_fst]; exact submitToQueueLocked_keep hP hl w q'
  | schedule c q' w d =>
    simp only [WorkOp.apply, kWorkScheduleForQueue]
    split
    · rfl
    · exact scheduleForQueueLocked_keep hP hl _ w d
  | reschedule c q' w d =>
    simp only [WorkOp.apply, kWorkRescheduleForQueue]
    rw [scheduleForQueueLocked_keep (hP₁ w) (hl.of_queues (unscheduleLocked_queues s w)) _ w d,
      unscheduleLocked_queues]
  | cancel w => exact cancelAsyncLocked_keep hP w
  | cancelSync w c =>
    simp only [WorkOp.apply, kWorkCancelSync]
    split
    · rw [cancelSyncLocked_queues, cancelAsyncLocked_keep hP w]
    · rfl
  | cancelDelayable w =>
    simp only [WorkOp.apply, kWorkCancelDelayable]
    rw [cancelAsyncLocked_keep (hP₁ w) w, unscheduleLocked_queues]
  | cancelDelayableSync w c =>
    simp only [WorkOp.apply, kWorkCancelDelayableSync]
    split
    · rw [cancelSyncLocked_queues, cancelAsyncLocked_keep (hP₁ w) w, unscheduleLocked_queues]
    · rfl
  | flush w f => exact workFlushLocked_keep_of_inv hI hP hop.1 f
  | flushDelayable c w f => exact kWorkFlushDelayable_keep hI hP hl hop.1 hop.2.1 f
  | timeout w => exact workTimeout_keep hP w
  | queueStart | queueDrain | queueUnplug | queueStop | queueStopTimedOut | pick | finish =>
    simp [WorkOp.onItem] at hi

theorem pluggedIdle_setQFlags {s : WorkSys} (hP : (s.queues q).PluggedIdle) (q' : Nat)
    (f : QueueFlags → QueueFlags) (hs : ∀ x, (f x).started = x.started)
    (hp : ∀ x, x.plugged = true → (f x).plugged = true) : ((s.setQFlags q' f).queues q).PluggedIdle := by
  by_cases hq : q = q'
  · subst hq
    simp only [setQFlags_eq, setQueue_queues, if_true]
    exact ⟨by rw [hs]; exact hP.started, hp _ hP.plugged, hP.pending, hP.idle⟩
  · simpa [hq] using hP

-- Until k_work_queue_unplug, every call and every step of the queue's thread
-- leaves the drained, plugged queue so, unless the queue's thread exits on
-- k_work_queue_stop.
theorem WorkQ.PluggedIdle.step {fl dl : Nat → Bool} {s : WorkSys} (hI : WorkInv fl dl s)
    (hP : (s.queues q).PluggedIdle) {op : WorkOp} (hop : op.Allowed fl dl s) (hl : op.Live s)
    (hu : op ≠ .queueUnplug q) :
    ((op.apply s).queues q).PluggedIdle ∨ ((op.apply s).queues q).flags.started = false := by
  cases hi : op.onItem
  · cases op with
    | queueStart q' t n =>
      have hq : q ≠ q' := by rintro rfl; simp [WorkOp.Allowed, hP.started] at hop
      exact .inl (by simpa [WorkOp.apply, kWorkQueueStart, hq] using hP)
    | queueDrain q' p =>
      simp only [WorkOp.apply, kWorkQueueDrain]
      split
      · exact .inl (pluggedIdle_setQFlags hP q' (fun f => { f with drain := true, plugged := f.plugged || p })
          (fun _ => rfl) fun x hx => by simp [hx])
      · exact .inl hP
    | queueUnplug q' =>
      have hq : q' ≠ q := fun e => hu (e ▸ rfl)
      simp only [WorkOp.apply, kWorkQueueUnplug]
      split
      · exact .inl (by simpa [Ne.symm hq] using hP)
      · exact .inl hP
    | queueStop q' =>
      simp only [WorkOp.apply, kWorkQueueStop]
      split
      · exact .inl hP
      · split
        · exact .inl hP
        · exact .inl (pluggedIdle_setQFlags hP q' (fun f => { f with stop := true }) (fun _ => rfl)
            fun _ hx => hx)
    | queueStopTimedOut q' =>
      exact .inl (pluggedIdle_setQFlags hP q' (fun f => { f with stop := false }) (fun _ => rfl) fun _ hx => hx)
    | pick q' =>
      by_cases hq : q = q'
      · subst hq
        -- the pending list is empty: the thread wakes the drainers, exits, or sleeps
        simp only [WorkOp.apply, workQueueMainPick, hP.pending]
        split
        · exact .inl (pluggedIdle_setQFlags hP q (fun f => { f with drain := false }) (fun _ => rfl)
            fun _ hx => hx)
        · split
          · right
            simp [QueueFlags.cleared]
          · exact .inl hP
      · exact .inl (by simpa [WorkOp.apply, workQueueMainPick_queues_of_ne s hq] using hP)
    | finish q' =>
      simp only [WorkOp.apply]
      split
      · rename_i w ht
        have hq : q ≠ q' := by rintro rfl; rw [hP.idle] at ht; cases ht
        rw [workQueueMainFinish_queues, if_neg hq]
        exact .inl hP
      · exact .inl hP
    | submit | schedule | reschedule | cancel | cancelSync | cancelDelayable | cancelDelayableSync
    | flush | flushDelayable | timeout => simp [WorkOp.onItem] at hi
  · left
    rw [WorkOp.keep_of_onItem hI hP hop hl hi]
    exact hP

end Plugged

/-! Drain and plug over every run -/

end Zephyr.Work
