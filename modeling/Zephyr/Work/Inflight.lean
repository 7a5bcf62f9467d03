import Zephyr.Work.Step

namespace Zephyr.Work

open WorkSys

def eAgain : Int := 11

def eInval : Int := 22

-- Where the timeout of the delayable is in sys_clock_announce on the CPU that
-- announces: not in flight, dequeued with work_timeout still to run, or with
-- work_timeout returned and inflight_timeout not yet cleared.
inductive Dispatch where
  | idle
  | pending
  | ran
  deriving DecidableEq, Repr

-- One k_work_delayable `w` on SMP. `deadline` is its _timeout record (the
-- tick it expires at, none when inactive) and `retry` a
-- k_work_reschedule_for_queue spinning in unschedule_locked with work_lock
-- dropped. `armed` and `fired` are ghost state: the tick and delay of the
-- schedule that set K_WORK_DELAYED, and each submission by work_timeout with
-- its tick and the schedule it consumed.
structure DwState where
  sys : WorkSys
  deadline : Option Nat
  dispatch : Dispatch
  retry : Option (Nat × Timeout)
  now : Nat
  armed : Option (Nat × Nat)
  fired : List (Nat × Option (Nat × Nat))

section Inflight

variable (w : Nat)

-- schedule_for_queue_locked; z_add_timeout from a thread rounds up to whole ticks.
def scheduleLocked (st : DwState) (caller : Caller) (q : Nat) (delay : Timeout) : DwState :=
  let sys := (scheduleForQueueLocked st.sys caller (some q) w delay).1
  match delay with
  | .ticks n => { st with sys := sys, deadline := some (st.now + n + 1), armed := some (st.now, n) }
  | _ => { st with sys := sys }

-- z_try_abort_timeout from a CPU that is not announcing.
def zTryAbortTimeout (st : DwState) : DwState × Int :=
  match st.deadline with
  | some _ => ({ st with deadline := none }, 0)
  | none => if st.dispatch ≠ .idle then (st, -eAgain) else (st, -eInval)

-- One pass of unschedule_locked's loop, then the rest of
-- k_work_reschedule_for_queue once the loop ends.
def rescheduleAbort (st : DwState) (caller : Caller) (q : Nat) (delay : Timeout) : DwState :=
  let (st, rc) := zTryAbortTimeout st
  if rc = -eAgain then { st with retry := some (q, delay) }
  else scheduleLocked w { st with retry := none } caller q delay

-- k_work_reschedule_for_queue up to its first release of work_lock.
def kWorkRescheduleStart (st : DwState) (caller : Caller) (q : Nat) (delay : Timeout) : DwState :=
  let (sys, was) := unscheduleLocked st.sys w
  if was then rescheduleAbort w { st with sys := sys, armed := none } caller q delay
  else scheduleLocked w { st with sys := sys } caller q delay

-- k_work_schedule_for_queue
def kWorkScheduleDw (st : DwState) (caller : Caller) (q : Nat) (delay : Timeout) : DwState :=
  let fl := (st.sys.works w).flags
  if fl.canceling || fl.queued || fl.delayed || fl.flushing then st
  else scheduleLocked w st caller q delay

-- work_timeout: whoever clears K_WORK_DELAYED first owns the wake.
def workTimeoutDw (st : DwState) : DwState :=
  if (st.sys.works w).flags.delayed then
    let sys := st.sys.setFlags w fun fl => { fl with delayed := false }
    let sys := (submitToQueueLocked sys .isr w (sys.works w).dqueue).1
    { st with sys := sys, dispatch := .ran, armed := none, fired := st.fired ++ [(st.now, st.armed)] }
  else { st with dispatch := .ran }

inductive DwOp where
  | schedule (caller : Caller) (q : Nat) (delay : Timeout)
  | reschedule (caller : Caller) (q : Nat) (delay : Timeout)
  | retry (caller : Caller)
  | tick
  | expire
  | handler
  | handlerDone

def DwOp.apply (st : DwState) : DwOp → DwState
  | .schedule c q d => kWorkScheduleDw w st c q d
  | .reschedule c q d => kWorkRescheduleStart w st c q d
  | .retry c =>
    match st.retry with
    | some (q, d) => rescheduleAbort w st c q d
    | none => st
  | .tick => { st with now := st.now + 1 }
  | .expire =>
    match st.deadline with
    | some _ => { st with deadline := none, dispatch := .pending }
    | none => st
  | .handler => workTimeoutDw w st
  | .handlerDone => { st with dispatch := .idle }

-- The spinning caller retakes work_lock; no second reschedule starts while
-- one spins; the announce takes an expired timeout once its last handler is
-- done; work_timeout runs once per dispatch.
def DwOp.allowed (st : DwState) : DwOp → Bool
  | .schedule _ _ _ => true
  | .reschedule _ _ _ => st.retry.isNone
  | .retry _ => st.retry.isSome
  | .tick => true
  | .expire => match st.deadline with
    | some d => decide (d ≤ st.now) && st.dispatch == .idle
    | none => false
  | .handler => st.dispatch == .pending
  | .handlerDone => st.dispatch == .ran

def dwStart (sys : WorkSys) : DwState := ⟨sys, none, .idle, none, 0, none, []⟩

def DwStep (s s' : DwState) : Prop := ∃ op : DwOp, op.allowed s = true ∧ s' = op.apply w s

def DwReach (sys : WorkSys) : DwState → Prop :=
  StateMachine.Reachable (· = dwStart sys) (DwStep w)

def DwOp.run (st : DwState) : List DwOp → DwState
  | [] => st
  | op :: ops => DwOp.run (op.apply w st) ops

def DwOp.runAllowed (st : DwState) : List DwOp → Bool
  | [] => true
  | op :: ops => op.allowed st && DwOp.runAllowed (op.apply w st) ops

theorem DwReach.run {sys : WorkSys} {st : DwState} (hs : DwReach w sys st) :
    ∀ ops, DwOp.runAllowed w st ops = true → DwReach w sys (DwOp.run w st ops) := by
  intro ops
  induction ops generalizing st with
  | nil => intro _; exact hs
  | cons op ops ih =>
    intro h
    simp only [DwOp.runAllowed, Bool.and_eq_true] at h
    exact ih (.step hs ⟨op, h.1, rfl⟩) h.2

-- Item 0 schedules itself on queue 0 (thread 1) for 10 ticks. At tick 11 its
-- timeout is dequeued; before work_timeout runs, thread 2 calls
-- k_work_reschedule (100 ticks) and spins with work_lock dropped, and thread 3
-- calls k_work_schedule (100 ticks), which sets K_WORK_DELAYED again.
def staleSys : WorkSys := kWorkQueueStart (workSysStart fun v => decide (v = 0)) 0 1 false

def staleOps : List DwOp :=
  [.schedule (.thread 2) 0 (.ticks 10)] ++ List.replicate 11 .tick ++
    [.expire, .reschedule (.thread 2) 0 (.ticks 100), .schedule (.thread 3) 0 (.ticks 100), .handler]

def staleState : DwState := DwOp.run 0 (dwStart staleSys) staleOps

theorem delayable_stale_handler_submits_early :
    DwReach 0 staleSys staleState ∧ staleState.now = 11 ∧ staleState.fired = [(11, some (11, 100))] ∧
    (staleState.sys.queues 0).pending = [0] ∧ staleState.retry = some (0, .ticks 100) :=
  ⟨DwReach.run 0 (.init rfl) staleOps (by decide), by decide⟩

end Inflight

end Zephyr.Work
