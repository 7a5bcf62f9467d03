import Mathlib

namespace Zephyr.Work

structure WorkFlags where
  running : Bool
  canceling : Bool
  queued : Bool
  delayed : Bool
  flushing : Bool
  delayable : Bool
  deriving DecidableEq, Repr, Inhabited

-- flags_get (&work->flags) & K_WORK_MASK
def WorkFlags.busy (f : WorkFlags) : Nat :=
  (if f.running then 1 else 0) + (if f.canceling then 2 else 0) + (if f.queued then 4 else 0) +
    (if f.delayed then 8 else 0) + (if f.flushing then 16 else 0)

def WorkFlags.empty : WorkFlags := ⟨false, false, false, false, false, false⟩

structure KWork where
  flags : WorkFlags
  queue : Option Nat
  dqueue : Option Nat
  timeoutActive : Bool
  deriving DecidableEq, Repr, Inhabited

structure QueueFlags where
  started : Bool
  busy : Bool
  drain : Bool
  plugged : Bool
  stop : Bool
  noYield : Bool
  deriving DecidableEq, Repr, Inhabited

-- Where the queue's thread is in work_queue_main.
inductive QThread where
  | idle
  | running (w : Nat)
  | exited
  deriving DecidableEq, Repr, Inhabited

structure WorkQ where
  flags : QueueFlags
  pending : List Nat
  threadId : Nat
  thread : QThread
  deriving DecidableEq, Repr, Inhabited

structure Canceller where
  id : Nat
  work : Nat
  deriving DecidableEq, Repr

inductive Caller where
  | thread (t : Nat)
  | isr
  deriving DecidableEq, Repr

inductive Timeout where
  | noWait
  | ticks (n : Nat)
  | forever
  deriving DecidableEq, Repr

structure WorkSys where
  works : Nat → KWork
  queues : Nat → WorkQ
  pendingCancels : List Canceller
  cancelSem : Nat → Bool
  flushSem : Nat → Bool

namespace WorkSys

def setWork (s : WorkSys) (w : Nat) (k : KWork) : WorkSys :=
  { s with works := Function.update s.works w k }

def setFlags (s : WorkSys) (w : Nat) (f : WorkFlags → WorkFlags) : WorkSys :=
  s.setWork w { s.works w with flags := f (s.works w).flags }

def setQueue (s : WorkSys) (q : Nat) (k : WorkQ) : WorkSys :=
  { s with queues := Function.update s.queues q k }

def setQFlags (s : WorkSys) (q : Nat) (f : QueueFlags → QueueFlags) : WorkSys :=
  s.setQueue q { s.queues q with flags := f (s.queues q).flags }

@[simp] theorem setWork_works (s : WorkSys) (w v : Nat) (k : KWork) :
    (s.setWork w k).works v = if v = w then k else s.works v := by
  simp [setWork, Function.update_apply]

@[simp] theorem setWork_queues (s : WorkSys) (w : Nat) (k : KWork) :
    (s.setWork w k).queues = s.queues := rfl

@[simp] theorem setWork_pendingCancels (s : WorkSys) (w : Nat) (k : KWork) :
    (s.setWork w k).pendingCancels = s.pendingCancels := rfl

@[simp] theorem setQueue_queues (s : WorkSys) (q v : Nat) (k : WorkQ) :
    (s.setQueue q k).queues v = if v = q then k else s.queues v := by
  simp [setQueue, Function.update_apply]

@[simp] theorem setQueue_works (s : WorkSys) (q : Nat) (k : WorkQ) :
    (s.setQueue q k).works = s.works := rfl

@[simp] theorem setQueue_pendingCancels (s : WorkSys) (q : Nat) (k : WorkQ) :
    (s.setQueue q k).pendingCancels = s.pendingCancels := rfl

@[simp] theorem setFlags_eq (s : WorkSys) (w : Nat) (f : WorkFlags → WorkFlags) :
    s.setFlags w f = s.setWork w { s.works w with flags := f (s.works w).flags } := rfl

@[simp] theorem setQFlags_eq (s : WorkSys) (q : Nat) (f : QueueFlags → QueueFlags) :
    s.setQFlags q f = s.setQueue q { s.queues q with flags := f (s.queues q).flags } := rfl

end WorkSys

open WorkSys

def kWorkInit (s : WorkSys) (w : Nat) : WorkSys :=
  s.setWork w { flags := .empty, queue := none, dqueue := none, timeoutActive := false }

def kWorkInitDelayable (s : WorkSys) (w : Nat) : WorkSys :=
  s.setWork w
    { flags := { WorkFlags.empty with delayable := true }, queue := none, dqueue := none,
      timeoutActive := false }

def kWorkBusyGet (s : WorkSys) (w : Nat) : Nat := (s.works w).flags.busy

def initFlusher (s : WorkSys) (f : Nat) : WorkSys :=
  let s := { s with flushSem := Function.update s.flushSem f false }
  s.setWork f
    { flags := { WorkFlags.empty with flushing := true }, queue := none, dqueue := none,
      timeoutActive := false }

def initWorkCancel (s : WorkSys) (c w : Nat) : WorkSys :=
  { s with cancelSem := Function.update s.cancelSem c false,
           pendingCancels := s.pendingCancels ++ [⟨c, w⟩] }

def finalizeFlushLocked (s : WorkSys) (f : Nat) : WorkSys :=
  let s := s.setFlags f fun fl => { fl with flushing := false }
  { s with flushSem := Function.update s.flushSem f true }

-- Releases the first canceller record of `w` only (the loop breaks).
def releaseFirstCanceller (w : Nat) : List Canceller → Option Nat × List Canceller
  | [] => (none, [])
  | r :: rs =>
    if r.work = w then (some r.id, rs)
    else
      let (g, rs') := releaseFirstCanceller w rs
      (g, r :: rs')

def finalizeCancelLocked (s : WorkSys) (w : Nat) : WorkSys :=
  let s := s.setFlags w fun fl => { fl with canceling := false }
  match releaseFirstCanceller w s.pendingCancels with
  | (some c, rest) => { s with pendingCancels := rest, cancelSem := Function.update s.cancelSem c true }
  | (none, rest) => { s with pendingCancels := rest }

-- sys_slist_insert after the node of `w`
def insertAfter (w f : Nat) : List Nat → List Nat
  | [] => []
  | x :: xs => if x = w then x :: f :: xs else x :: insertAfter w f xs

theorem mem_insertAfter_of_ne {w f v : Nat} (l : List Nat) (hv : v ≠ f) :
    v ∈ insertAfter w f l ↔ v ∈ l := by
  induction l with
  | nil => rfl
  | cons x xs ih =>
    simp only [insertAfter]
    split <;> simp [ih, hv]

theorem count_insertAfter_of_ne {w f v : Nat} (l : List Nat) (hv : v ≠ f) :
    (insertAfter w f l).count v = l.count v := by
  induction l with
  | nil => rfl
  | cons x xs ih =>
    simp only [insertAfter]
    split <;> simp [List.count_cons, ih, Ne.symm hv]

theorem insertAfter_eq_nil {w f : Nat} {l : List Nat} : insertAfter w f l = [] ↔ l = [] := by
  cases l with
  | nil => simp [insertAfter]
  | cons x xs => simp only [insertAfter]; split <;> simp

def queueFlusherLocked (s : WorkSys) (q w f : Nat) : WorkSys :=
  let s := initFlusher s f
  let k := s.queues q
  if (s.works w).flags.queued then s.setQueue q { k with pending := insertAfter w f k.pending }
  else s.setQueue q { k with pending := f :: k.pending }

def queueRemoveLocked (s : WorkSys) (q : Option Nat) (w : Nat) : WorkSys :=
  if (s.works w).flags.queued then
    let s := s.setFlags w fun fl => { fl with queued := false }
    match q with
    | some q => s.setQueue q { s.queues q with pending := (s.queues q).pending.erase w }
    | none => s
  else s

def queueSubmitLocked (s : WorkSys) (caller : Caller) (q : Option Nat) (w : Nat) :
    WorkSys × Int :=
  match q with
  | none => (s, -22)
  | some q =>
    let k := s.queues q
    let chained := caller = .thread k.threadId
    if !k.flags.started then (s, -19)
    else if k.flags.drain && !chained then (s, -16)
    else if k.flags.plugged && !k.flags.drain then (s, -16)
    else (s.setQueue q { k with pending := k.pending ++ [w] }, 1)

-- Returns the new state, the queue the work went to, and the C return value.
def submitToQueueLocked (s : WorkSys) (caller : Caller) (w : Nat) (q : Option Nat) :
    WorkSys × Option Nat × Int :=
  let fl := (s.works w).flags
  if fl.canceling then (s, none, -16)
  else if !fl.queued then
    let q := if fl.running then (s.works w).queue else q.orElse fun _ => (s.works w).queue
    let ret : Int := if fl.running then 2 else 1
    let (s, rc) := queueSubmitLocked s caller q w
    if rc < 0 then (s, none, rc)
    else
      let s := s.setWork w { s.works w with flags := { fl with queued := true }, queue := q }
      (s, q, ret)
  else (s, none, 0)

def kWorkSubmitToQueue (s : WorkSys) (caller : Caller) (q : Option Nat) (w : Nat) :
    WorkSys × Int :=
  let (s, _, ret) := submitToQueueLocked s caller w q
  (s, ret)

def workFlushLocked (s : WorkSys) (w f : Nat) : WorkSys × Bool :=
  let fl := (s.works w).flags
  if fl.queued || fl.running then
    match (s.works w).queue with
    | some q => (queueFlusherLocked s q w f, true)
    | none => (s, true)
  else (s, false)

def kWorkFlush (s : WorkSys) (w f : Nat) : WorkSys × Bool := workFlushLocked s w f

def cancelAsyncLocked (s : WorkSys) (w : Nat) : WorkSys × Nat :=
  let s := if !(s.works w).flags.canceling then queueRemoveLocked s (s.works w).queue w else s
  if kWorkBusyGet s w ≠ 0 then
    let s := s.setFlags w fun fl => { fl with canceling := true }
    (s, kWorkBusyGet s w)
  else (s, 0)

def cancelSyncLocked (s : WorkSys) (w c : Nat) : WorkSys × Bool :=
  if (s.works w).flags.canceling then (initWorkCancel s c w, true) else (s, false)

def kWorkCancel (s : WorkSys) (w : Nat) : WorkSys × Nat := cancelAsyncLocked s w

-- The canceller `c` stands for the caller's k_work_sync; a `true` result
-- means the caller now blocks on the semaphore of `c`.
def kWorkCancelSync (s : WorkSys) (w c : Nat) : WorkSys × Bool × Bool :=
  if kWorkBusyGet s w ≠ 0 then
    let s := (cancelAsyncLocked s w).1
    let (s, needWait) := cancelSyncLocked s w c
    (s, true, needWait)
  else (s, false, false)

end Zephyr.Work
