import Zephyr.Work.Delayable
import Zephyr.Lib.Reach

namespace Zephyr.Work

open WorkSys

-- A call into the work-queue API, a delayable's timer firing, or a step of
-- a queue's thread through work_queue_main.
inductive WorkOp where
  | submit (caller : Caller) (q : Option Nat) (w : Nat)
  | schedule (caller : Caller) (q w : Nat) (delay : Timeout)
  | reschedule (caller : Caller) (q w : Nat) (delay : Timeout)
  | cancel (w : Nat)
  | cancelSync (w c : Nat)
  | cancelDelayable (w : Nat)
  | cancelDelayableSync (w c : Nat)
  | flush (w f : Nat)
  | flushDelayable (caller : Caller) (w f : Nat)
  | timeout (w : Nat)
  | queueStart (q threadId : Nat) (noYield : Bool)
  | queueDrain (q : Nat) (plug : Bool)
  | queueUnplug (q : Nat)
  | queueStop (q : Nat)
  | queueStopTimedOut (q : Nat)
  | pick (q : Nat)
  | finish (q : Nat)

def WorkOp.apply (s : WorkSys) : WorkOp → WorkSys
  | .submit c q w => (kWorkSubmitToQueue s c q w).1
  | .schedule c q w d => (kWorkScheduleForQueue s c q w d).1
  | .reschedule c q w d => (kWorkRescheduleForQueue s c q w d).1
  | .cancel w => (kWorkCancel s w).1
  | .cancelSync w c => (kWorkCancelSync s w c).1
  | .cancelDelayable w => (kWorkCancelDelayable s w).1
  | .cancelDelayableSync w c => (kWorkCancelDelayableSync s w c).1
  | .flush w f => (kWorkFlush s w f).1
  | .flushDelayable c w f => (kWorkFlushDelayable s c w f).1
  | .timeout w => workTimeout s w
  | .queueStart q t n => kWorkQueueStart s q t n
  | .queueDrain q p => (kWorkQueueDrain s q p).1
  | .queueUnplug q => (kWorkQueueUnplug s q).1
  | .queueStop q => (kWorkQueueStop s q).1
  | .queueStopTimedOut q => kWorkQueueStopTimedOut s q
  | .pick q => workQueueMainPick s q
  | .finish q =>
    match (s.queues q).thread with
    | .running w => workQueueMainFinish s q w
    | _ => s

-- `flusher` marks the z_work_flusher items and `delayable` the items inside a
-- k_work_delayable: each call is made on the kind of item its API takes.
def WorkOp.Allowed (flusher delayable : Nat → Bool) (s : WorkSys) : WorkOp → Prop
  | .submit _ _ w | .cancel w | .cancelSync w _ => flusher w = false ∧ delayable w = false
  | .flush w f => flusher w = false ∧ delayable w = false ∧ flusher f = true
  | .schedule _ _ w _ | .reschedule _ _ w _ | .cancelDelayable w | .cancelDelayableSync w _ =>
    flusher w = false ∧ delayable w = true
  | .flushDelayable _ w f => flusher w = false ∧ delayable w = true ∧ flusher f = true
  | .timeout w => flusher w = false ∧ delayable w = true ∧ (s.works w).timeoutActive = true
  | .queueStart q _ _ => (s.queues q).flags.started = false
  | .pick q => (s.queues q).thread = .idle
  | _ => True

-- Every work item initialised, no queue started.
def workSysStart (delayable : Nat → Bool) : WorkSys :=
  { works := fun w =>
      { flags := { WorkFlags.empty with delayable := delayable w }, queue := none, dqueue := none,
        timeoutActive := false },
    queues := fun _ => default, pendingCancels := [], cancelSem := fun _ => false,
    flushSem := fun _ => false }

def WorkStep (flusher delayable : Nat → Bool) (s s' : WorkSys) : Prop :=
  ∃ op : WorkOp, op.Allowed flusher delayable s ∧ s' = op.apply s

def WorkReach (flusher delayable : Nat → Bool) : WorkSys → Prop :=
  StateMachine.Reachable (· = workSysStart delayable) (WorkStep flusher delayable)

end Zephyr.Work
