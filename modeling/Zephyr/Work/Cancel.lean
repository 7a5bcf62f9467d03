import Zephyr.Work.Delayable

namespace Zephyr.Work

open WorkSys

theorem releaseFirstCanceller_of_absent (w : Nat) (l : List Canceller)
    (h : ∀ r ∈ l, r.work ≠ w) : releaseFirstCanceller w l = (none, l) := by
  induction l with
  | nil => rfl
  | cons r rs ih =>
    have hr : r.work ≠ w := h r (by simp)
    simp [releaseFirstCanceller, hr, ih (fun x hx => h x (by simp [hx]))]

theorem releaseFirstCanceller_split (w : Nat) (pre post : List Canceller) (r : Canceller)
    (hpre : ∀ x ∈ pre, x.work ≠ w) (hr : r.work = w) :
    releaseFirstCanceller w (pre ++ r :: post) = (some r.id, pre ++ post) := by
  induction pre with
  | nil => simp [releaseFirstCanceller, hr]
  | cons x xs ih =>
    have hx : x.work ≠ w := hpre x (by simp)
    simp [releaseFirstCanceller, hx, ih (fun y hy => hpre y (by simp [hy]))]

theorem finalizeCancelLocked_split (s : WorkSys) (w : Nat) (pre post : List Canceller)
    (r : Canceller) (hpre : ∀ x ∈ pre, x.work ≠ w) (hr : r.work = w)
    (hl : s.pendingCancels = pre ++ r :: post) :
    (finalizeCancelLocked s w).pendingCancels = pre ++ post ∧
    (finalizeCancelLocked s w).cancelSem = Function.update s.cancelSem r.id true ∧
    (finalizeCancelLocked s w).works w = { s.works w with
      flags := { (s.works w).flags with canceling := false } } := by
  have hrel : releaseFirstCanceller w s.pendingCancels = (some r.id, pre ++ post) := by
    rw [hl]
    exact releaseFirstCanceller_split w pre post r hpre hr
  simp [finalizeCancelLocked, setFlags, setWork, hrel]

-- Of two cancellers waiting on the same execution, the second is left
-- pending while the flag it waits on is cleared.
theorem finalizeCancelLocked_strands_second (s : WorkSys) (w : Nat) (pre mid post : List Canceller)
    (r₁ r₂ : Canceller) (hpre : ∀ x ∈ pre, x.work ≠ w) (h₁ : r₁.work = w) (h₂ : r₂.work = w)
    (hne : r₁.id ≠ r₂.id) (hl : s.pendingCancels = pre ++ r₁ :: (mid ++ r₂ :: post)) :
    r₂ ∈ (finalizeCancelLocked s w).pendingCancels ∧
    (finalizeCancelLocked s w).cancelSem r₂.id = s.cancelSem r₂.id ∧
    ((finalizeCancelLocked s w).works r₂.work).flags.canceling = false := by
  obtain ⟨hp, hsem, hw⟩ := finalizeCancelLocked_split s w pre (mid ++ r₂ :: post) r₁ hpre h₁ hl
  refine ⟨by simp [hp], ?_, by simp [hw, h₂]⟩
  rw [hsem, Function.update_apply, if_neg (Ne.symm hne)]

def workSysInit : WorkSys :=
  { works := fun _ => default, queues := fun _ => default, pendingCancels := [],
    cancelSem := fun _ => false, flushSem := fun _ => false }

def cancelRunPicked : WorkSys :=
  workQueueMainPick (kWorkSubmitToQueue (kWorkInit (kWorkQueueStart workSysInit 0 100 false) 1)
    (.thread 5) (some 0) 1).1 0

def cancelRunBlocked : WorkSys := (kWorkCancelSync (kWorkCancelSync cancelRunPicked 1 10).1 1 11).1

theorem cancel_sync_second_waiter_stranded :
    (cancelRunPicked.queues 0).thread = .running 1 ∧
    (kWorkCancelSync cancelRunPicked 1 10).2 = (true, true) ∧
    (kWorkCancelSync (kWorkCancelSync cancelRunPicked 1 10).1 1 11).2 = (true, true) ∧
    ((workQueueMainFinish cancelRunBlocked 0 1).queues 0).thread = .idle ∧
    (workQueueMainFinish cancelRunBlocked 0 1).cancelSem 10 = true ∧
    (workQueueMainFinish cancelRunBlocked 0 1).cancelSem 11 = false ∧
    (workQueueMainFinish cancelRunBlocked 0 1).pendingCancels = [⟨11, 1⟩] ∧
    ((workQueueMainFinish cancelRunBlocked 0 1).works 1).flags.canceling = false := by
  decide

end Zephyr.Work
