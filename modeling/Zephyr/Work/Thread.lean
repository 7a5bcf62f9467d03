import Zephyr.Work.Queue

namespace Zephyr.Work

open WorkSys

def QueueFlags.cleared : QueueFlags := ⟨false, false, false, false, false, false⟩

def kWorkQueueStart (s : WorkSys) (q threadId : Nat) (noYield : Bool) : WorkSys :=
  s.setQueue q
    { flags := { QueueFlags.cleared with started := true, noYield := noYield }, pending := [],
      threadId := threadId, thread := .idle }

-- One pass of the loop of work_queue_main up to the handler call, or up to
-- the point where the thread sleeps or exits.
def workQueueMainPick (s : WorkSys) (q : Nat) : WorkSys :=
  let k := s.queues q
  match k.pending with
  | w :: rest =>
    let s := s.setQueue q
      { k with pending := rest, flags := { k.flags with busy := true }, thread := .running w }
    s.setFlags w fun fl => { fl with running := true, queued := false }
  | [] =>
    if k.flags.drain then s.setQFlags q fun f => { f with drain := false }
    else if k.flags.stop then s.setQueue q { k with flags := .cleared, thread := .exited }
    else s

-- The rest of the loop body after `handler(work)` returns.
def workQueueMainFinish (s : WorkSys) (q w : Nat) : WorkSys :=
  let s := s.setFlags w fun fl => { fl with running := false }
  let s := if (s.works w).flags.flushing then finalizeFlushLocked s w else s
  let s := if (s.works w).flags.canceling then finalizeCancelLocked s w else s
  let s := s.setQFlags q fun f => { f with busy := false }
  s.setQueue q { s.queues q with thread := .idle }

-- A `true` result means the caller blocks on the queue's drain wait queue.
def kWorkQueueDrain (s : WorkSys) (q : Nat) (plug : Bool) : WorkSys × Bool :=
  let k := s.queues q
  if k.flags.busy || k.flags.drain || plug || !k.pending.isEmpty then
    (s.setQFlags q fun f => { f with drain := true, plugged := f.plugged || plug }, true)
  else (s, false)

def kWorkQueueUnplug (s : WorkSys) (q : Nat) : WorkSys × Int :=
  if (s.queues q).flags.plugged then (s.setQFlags q fun f => { f with plugged := false }, 0)
  else (s, -114)

def kWorkQueueStop (s : WorkSys) (q : Nat) : WorkSys × Int :=
  let k := s.queues q
  if !k.flags.started then (s, -114)
  else if !k.flags.plugged then (s, -16)
  else (s.setQFlags q fun f => { f with stop := true }, 0)

-- k_thread_join in k_work_queue_stop timed out before the thread exited.
def kWorkQueueStopTimedOut (s : WorkSys) (q : Nat) : WorkSys :=
  s.setQFlags q fun f => { f with stop := false }

end Zephyr.Work
