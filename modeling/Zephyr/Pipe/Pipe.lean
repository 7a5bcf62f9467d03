import Zephyr.Lib.WaitQ

namespace Zephyr.Pipe

open Zephyr.Lib

inductive Timeout where
  | noWait
  | ticks (n : Nat)
  | forever
  deriving DecidableEq, Repr

-- A call blocked in wait_for, or woken with the value z_pend_curr returns.
inductive PState where
  | idle
  | pendWrite (data : List Nat) (written : Nat) (deadline : Option Nat)
  | pendRead (len : Nat) (got : List Nat) (deadline : Option Nat)
  | readyWrite (data : List Nat) (written : Nat) (deadline : Option Nat) (rc : Int)
  | readyRead (len : Nat) (got : List Nat) (deadline : Option Nat) (rc : Int)
  | returned (rc : Int) (got : List Nat)
  deriving DecidableEq, Repr, Inhabited

structure KPipe where
  size : Nat
  buf : List Nat
  isOpen : Bool
  resetting : Bool
  waiting : Nat
  dataQ : List Nat
  spaceQ : List Nat
  deriving DecidableEq, Repr

structure PipeSys where
  pipe : KPipe
  threads : Nat → PState
  prio : Nat → Int
  now : Nat
  coherence : Bool

namespace PipeSys

def setThread (s : PipeSys) (t : Nat) (st : PState) : PipeSys :=
  { s with threads := Function.update s.threads t st }

def setPipe (s : PipeSys) (p : KPipe) : PipeSys := { s with pipe := p }

end PipeSys

open PipeSys

def timepointCalc (now : Nat) : Timeout → Option Nat
  | .noWait => some now
  | .ticks n => some (now + n)
  | .forever => none

def timepointExpired (now : Nat) : Option Nat → Bool
  | none => false
  | some d => decide (d ≤ now)

def pipeFull (p : KPipe) : Bool := decide (p.size ≤ p.buf.length)

def pipeEmpty (p : KPipe) : Bool := p.buf.isEmpty

def ringBufPut (p : KPipe) (data : List Nat) : KPipe × Nat :=
  let n := min data.length (p.size - p.buf.length)
  ({ p with buf := p.buf ++ data.take n }, n)

def ringBufGet (p : KPipe) (len : Nat) : KPipe × List Nat :=
  ({ p with buf := p.buf.drop len }, p.buf.take len)

-- z_sched_wake_all: every thread of the queue becomes ready with value `rc`.
def wakeAll (s : PipeSys) (q : List Nat) (rc : Int) : PipeSys :=
  q.foldl (fun s t =>
    match s.threads t with
    | .pendWrite data w dl => s.setThread t (.readyWrite data w dl rc)
    | .pendRead len got dl => s.setThread t (.readyRead len got dl rc)
    | st => s.setThread t st) s

-- copy_to_pending_readers, one reader per step of the fuel.
def copyToPendingReaders (data : List Nat) : Nat → PipeSys → Nat → PipeSys × Nat
  | 0, s, written => (s, written)
  | fuel + 1, s, written =>
    match waitqBest s.pipe.dataQ with
    | none => (s, written)
    | some r =>
      match s.threads r with
      | .pendRead len got dl =>
        let copy := min (data.length - written) (len - got.length)
        let got := got ++ (data.drop written).take copy
        let written := written + copy
        if got.length < len then (s.setThread r (.pendRead len got dl), written)
        else
          let s := s.setPipe { s.pipe with dataQ := s.pipe.dataQ.erase r }
          let s := s.setThread r (.readyRead len got dl 0)
          if written < data.length then copyToPendingReaders data fuel s written
          else (s, written)
      | _ => (s, written)

-- Blocks `t` in wait_for on the queue chosen by `toSpace`, or fails with
-- -EAGAIN when the time limit is already reached.
def waitFor (s : PipeSys) (t : Nat) (toSpace : Bool) (dl : Option Nat) (st : PState) :
    Option PipeSys :=
  if timepointExpired s.now dl then none
  else
    let p := s.pipe
    let p := if toSpace then { p with spaceQ := waitqAdd s.prio t p.spaceQ, waiting := p.waiting + 1 }
      else { p with dataQ := waitqAdd s.prio t p.dataQ, waiting := p.waiting + 1 }
    some ((s.setPipe p).setThread t st)

-- The tail of the write loop: fill the ring buffer, then wait for space.
def writePut (s : PipeSys) (t : Nat) (data : List Nat) (written : Nat) (dl : Option Nat) :
    PipeSys :=
  let (p, n) := ringBufPut s.pipe (data.drop written)
  let s := s.setPipe p
  let written := written + n
  if written = data.length then s.setThread t (.returned written [])
  else
    match waitFor s t true dl (.pendWrite data written dl) with
    | some s => s
    | none => s.setThread t (.returned (if written ≠ 0 then written else -11) [])

-- One pass of the for (;;) loop of z_impl_k_pipe_write.
def writeIter (s : PipeSys) (t : Nat) (data : List Nat) (written : Nat) (dl : Option Nat) :
    PipeSys :=
  if !s.pipe.isOpen then s.setThread t (.returned (-32) [])
  else if pipeEmpty s.pipe && !s.coherence && s.pipe.waiting ≠ 0 then
    let (s, written) := copyToPendingReaders data s.pipe.dataQ.length s written
    if data.length ≤ written then s.setThread t (.returned written [])
    else writePut s t data written dl
  else
    let s := if pipeEmpty s.pipe && s.coherence then wakeAll s s.pipe.dataQ 0 else s
    writePut s t data written dl

def kPipeWrite (s : PipeSys) (t : Nat) (data : List Nat) (timeout : Timeout) : PipeSys :=
  if s.pipe.resetting then s.setThread t (.returned (-125) [])
  else writeIter s t data 0 (timepointCalc s.now timeout)

-- The end of wait_for after z_pend_curr returned `rc`.
def waitForReturn (s : PipeSys) (rc : Int) : PipeSys × Int :=
  let p := { s.pipe with waiting := s.pipe.waiting - 1 }
  if p.resetting then
    ({ s with pipe := if p.waiting = 0 then { p with resetting := false } else p }, -125)
  else ({ s with pipe := p }, rc)

def writeResume (s : PipeSys) (t : Nat) (data : List Nat) (written : Nat) (dl : Option Nat)
    (rc : Int) : PipeSys :=
  let (s, rc) := waitForReturn s rc
  if rc ≠ 0 then
    s.setThread t (.returned (if rc = -11 then (if written ≠ 0 then written else -11) else rc) [])
  else writeIter s t data written dl

-- One pass of the for (;;) loop of z_impl_k_pipe_read.
def readIter (s : PipeSys) (t : Nat) (len : Nat) (got : List Nat) (dl : Option Nat) : PipeSys :=
  let s := if pipeFull s.pipe then wakeAll s s.pipe.spaceQ 0 else s
  let (p, bytes) := ringBufGet s.pipe (len - got.length)
  let s := s.setPipe p
  let got := got ++ bytes
  if got.length = len then s.setThread t (.returned len got)
  else if !s.pipe.isOpen then
    s.setThread t (.returned (if got.length ≠ 0 then got.length else -32) got)
  else
    match waitFor s t false dl (.pendRead len got dl) with
    | some s => s
    | none => s.setThread t (.returned (if got.length ≠ 0 then got.length else -11) got)

def kPipeRead (s : PipeSys) (t : Nat) (len : Nat) (timeout : Timeout) : PipeSys :=
  if s.pipe.resetting then s.setThread t (.returned (-125) [])
  else readIter s t len [] (timepointCalc s.now timeout)

def readResume (s : PipeSys) (t : Nat) (len : Nat) (got : List Nat) (dl : Option Nat)
    (rc : Int) : PipeSys :=
  let (s, rc) := waitForReturn s rc
  if rc ≠ 0 then
    s.setThread t
      (.returned (if rc = -11 then (if got.length ≠ 0 then got.length else -11) else rc) got)
  else readIter s t len got dl

-- A woken thread runs again and finishes its wait_for.
def resume (s : PipeSys) (t : Nat) : PipeSys :=
  match s.threads t with
  | .readyWrite data w dl rc => writeResume s t data w dl rc
  | .readyRead len got dl rc => readResume s t len got dl rc
  | _ => s

def kPipeClose (s : PipeSys) : PipeSys :=
  let s := s.setPipe { s.pipe with isOpen := false, resetting := false }
  let s := wakeAll s s.pipe.dataQ 0
  let s := wakeAll s s.pipe.spaceQ 0
  s.setPipe { s.pipe with dataQ := [], spaceQ := [] }

def kPipeReset (s : PipeSys) : PipeSys :=
  let s := s.setPipe { s.pipe with buf := [] }
  if s.pipe.waiting ≠ 0 then
    let s := s.setPipe { s.pipe with resetting := true }
    let s := wakeAll s s.pipe.dataQ 0
    let s := wakeAll s s.pipe.spaceQ 0
    s.setPipe { s.pipe with dataQ := [], spaceQ := [] }
  else s

-- The thread's timeout fires while it is pended: z_pend_curr returns -EAGAIN.
def expire (s : PipeSys) (t : Nat) : PipeSys :=
  match s.threads t with
  | .pendWrite data w dl =>
    (s.setPipe { s.pipe with spaceQ := s.pipe.spaceQ.erase t }).setThread t (.readyWrite data w dl (-11))
  | .pendRead len got dl =>
    (s.setPipe { s.pipe with dataQ := s.pipe.dataQ.erase t }).setThread t (.readyRead len got dl (-11))
  | _ => s

end Zephyr.Pipe
