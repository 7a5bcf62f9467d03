import Zephyr.Work.Thread

namespace Zephyr.Work

open WorkSys

-- z_add_timeout is a no-op for K_FOREVER.
def scheduleForQueueLocked (s : WorkSys) (caller : Caller) (q : Option Nat) (w : Nat)
    (delay : Timeout) : WorkSys × Int :=
  if delay = .noWait then
    let (s, _, ret) := submitToQueueLocked s caller w q
    (s, ret)
  else
    let k := s.works w
    let k := { k with flags := { k.flags with delayed := true }, dqueue := q,
                      timeoutActive := decide (delay ≠ .forever) }
    (s.setWork w k, 1)

def unscheduleLocked (s : WorkSys) (w : Nat) : WorkSys × Bool :=
  let k := s.works w
  if k.flags.delayed then
    (s.setWork w { k with flags := { k.flags with delayed := false }, timeoutActive := false }, true)
  else (s, false)

-- work_timeout: the delayable's timeout fires (from the timer ISR).
def workTimeout (s : WorkSys) (w : Nat) : WorkSys :=
  let s := s.setWork w { s.works w with timeoutActive := false }
  if (s.works w).flags.delayed then
    let s := s.setFlags w fun fl => { fl with delayed := false }
    (submitToQueueLocked s .isr w (s.works w).dqueue).1
  else s

def kWorkScheduleForQueue (s : WorkSys) (caller : Caller) (q w : Nat) (delay : Timeout) :
    WorkSys × Int :=
  let fl := (s.works w).flags
  if fl.canceling || fl.queued || fl.delayed || fl.flushing then (s, 0)
  else scheduleForQueueLocked s caller (some q) w delay

def kWorkRescheduleForQueue (s : WorkSys) (caller : Caller) (q w : Nat) (delay : Timeout) :
    WorkSys × Int :=
  scheduleForQueueLocked (unscheduleLocked s w).1 caller (some q) w delay

def kWorkCancelDelayable (s : WorkSys) (w : Nat) : WorkSys × Nat :=
  cancelAsyncLocked (unscheduleLocked s w).1 w

def kWorkCancelDelayableSync (s : WorkSys) (w c : Nat) : WorkSys × Bool × Bool :=
  if kWorkBusyGet s w ≠ 0 then
    let s := (cancelAsyncLocked (unscheduleLocked s w).1 w).1
    let (s, needWait) := cancelSyncLocked s w c
    (s, true, needWait)
  else (s, false, false)

def kWorkFlushDelayable (s : WorkSys) (caller : Caller) (w f : Nat) : WorkSys × Bool :=
  if kWorkBusyGet s w = 0 then (s, false)
  else
    let (s, was) := unscheduleLocked s w
    let s := if was then (submitToQueueLocked s caller w (s.works w).dqueue).1 else s
    workFlushLocked s w f

end Zephyr.Work
