import Zephyr.Lib.WaitQ

namespace Zephyr.Msgq

open Zephyr.Lib

def ENOMSG : Int := 35

def EAGAIN : Int := 11

-- Which msgq call a thread is blocked in.
inductive MOp where
  | put
  | get
  deriving DecidableEq, Repr

-- A thread as the message queue sees it: `swapData` is the message a
-- pended sender offers, or the receive buffer a hand-off fills; `rc` is the
-- value its k_msgq call returned, once it has.
structure MThread (α : Type) where
  op : Option MOp
  swapData : α
  rc : Option Int
  deriving DecidableEq, Repr

-- Memory holds one message per slot address; a pointer names a slot by the
-- address of its first byte.
structure KMsgq (α : Type) where
  msgSize : Nat
  maxMsgs : Nat
  bufferStart : Nat
  bufferEnd : Nat
  readPtr : Nat
  writePtr : Nat
  usedMsgs : Nat
  buf : Nat → α
  waitQ : List Nat

structure MsgqSys (α : Type) where
  q : KMsgq α
  threads : Nat → MThread α
  prio : Nat → Int

variable {α : Type}

namespace MsgqSys

def setQ (s : MsgqSys α) (q : KMsgq α) : MsgqSys α := { s with q := q }

def setThread (s : MsgqSys α) (t : Nat) (th : MThread α) : MsgqSys α :=
  { s with threads := Function.update s.threads t th }

@[simp] theorem setQ_q (s : MsgqSys α) (q : KMsgq α) : (s.setQ q).q = q := rfl

@[simp] theorem setQ_threads (s : MsgqSys α) (q : KMsgq α) : (s.setQ q).threads = s.threads := rfl

@[simp] theorem setThread_q (s : MsgqSys α) (t : Nat) (th : MThread α) : (s.setThread t th).q = s.q := rfl

@[simp] theorem setThread_threads (s : MsgqSys α) (t : Nat) (th : MThread α) :
    (s.setThread t th).threads = Function.update s.threads t th := rfl

end MsgqSys

open MsgqSys

def kMsgqInit (buffer : Nat) (old : Nat → α) (msgSize maxMsgs : Nat) : KMsgq α :=
  { msgSize := msgSize, maxMsgs := maxMsgs, bufferStart := buffer,
    bufferEnd := buffer + maxMsgs * msgSize, readPtr := buffer, writePtr := buffer, usedMsgs := 0,
    buf := old, waitQ := [] }

-- z_unpend_first_thread_locked + arch_thread_return_value_set + ready
def wakeFirst (s : MsgqSys α) (f : MThread α → MThread α) : Option (Nat × MsgqSys α) :=
  match s.q.waitQ with
  | [] => none
  | t :: rest =>
    let s := s.setQ { s.q with waitQ := rest }
    some (t, s.setThread t (f (s.threads t)))

-- z_pend_curr on the queue's wait_q
def pendCurr (s : MsgqSys α) (t : Nat) (op : MOp) (data : α) : MsgqSys α :=
  let s := s.setThread t { op := some op, swapData := data, rc := none }
  s.setQ { s.q with waitQ := waitqAdd s.prio t s.q.waitQ }

def advance (q : KMsgq α) (p : Nat) : Nat :=
  if p + q.msgSize = q.bufferEnd then q.bufferStart else p + q.msgSize

-- put_msg_in_queue; `none` when the caller pended and returns later.
def putMsgInQueue (s : MsgqSys α) (t : Nat) (data : α) (wait putAtBack : Bool) :
    MsgqSys α × Option Int :=
  if s.q.usedMsgs < s.q.maxMsgs then
    match wakeFirst s fun th => { th with op := none, swapData := data, rc := some 0 } with
    | some (_, s) => (s, some 0)
    | none =>
      let q := s.q
      let q :=
        if putAtBack then
          { q with buf := Function.update q.buf q.writePtr data, writePtr := advance q q.writePtr }
        else
          let r := (if q.readPtr = q.bufferStart then q.bufferEnd else q.readPtr) - q.msgSize
          { q with readPtr := r, buf := Function.update q.buf r data }
      (s.setQ { q with usedMsgs := q.usedMsgs + 1 }, some 0)
  else if !wait then (s, some (-ENOMSG))
  else (pendCurr s t .put data, none)

def kMsgqPut (s : MsgqSys α) (t : Nat) (data : α) (wait : Bool) : MsgqSys α × Option Int :=
  putMsgInQueue s t data wait true

def kMsgqPutFront (s : MsgqSys α) (t : Nat) (data : α) : MsgqSys α × Option Int :=
  putMsgInQueue s t data false false

-- z_impl_k_msgq_get: the message taken, when the call returned at once.
def kMsgqGet (s : MsgqSys α) (t : Nat) (data : α) (wait : Bool) :
    MsgqSys α × Option Int × Option α :=
  if 0 < s.q.usedMsgs then
    let q := s.q
    let m := q.buf q.readPtr
    let s := s.setQ { q with readPtr := advance q q.readPtr, usedMsgs := q.usedMsgs - 1 }
    -- the first waiter's swap_data goes in at write_ptr, whatever it waits for
    let s := match wakeFirst s fun th => { th with op := none, rc := some 0 } with
      | some (w, s) =>
        let q := s.q
        s.setQ { q with buf := Function.update q.buf q.writePtr (s.threads w).swapData,
                        writePtr := advance q q.writePtr, usedMsgs := q.usedMsgs + 1 }
      | none => s
    (s, some 0, some m)
  else if !wait then (s, some (-ENOMSG), none)
  else (pendCurr s t .get data, none, none)

def kMsgqPeek (s : MsgqSys α) : Int × Option α :=
  if 0 < s.q.usedMsgs then (0, some (s.q.buf s.q.readPtr)) else (-ENOMSG, none)

-- bytes_to_end and byte_offset are uint32_t.
def kMsgqPeekAt (s : MsgqSys α) (idx : Nat) : Int × Option α :=
  let q := s.q
  if idx < q.usedMsgs then
    let bytesToEnd := (q.bufferEnd - q.readPtr) % 2 ^ 32
    let byteOffset := idx * q.msgSize % 2 ^ 32
    let (startAddr, byteOffset) :=
      if bytesToEnd ≤ byteOffset then (q.bufferStart, byteOffset - bytesToEnd)
      else (q.readPtr, byteOffset)
    (0, some (q.buf (startAddr + byteOffset)))
  else (-ENOMSG, none)

-- z_sched_wake with -ENOMSG until the wait queue is empty.
def wakeAll (s : MsgqSys α) : List Nat → MsgqSys α
  | [] => s
  | t :: rest => wakeAll (s.setThread t { s.threads t with op := none, rc := some (-ENOMSG) }) rest

def kMsgqPurge (s : MsgqSys α) : MsgqSys α :=
  let s := wakeAll s s.q.waitQ
  s.setQ { s.q with waitQ := [], usedMsgs := 0, readPtr := s.q.writePtr }

-- The timeout of a pended k_msgq call: z_pend_curr returns -EAGAIN.
def msgqTimeout (s : MsgqSys α) (t : Nat) : MsgqSys α :=
  if t ∈ s.q.waitQ then
    let s := s.setQ { s.q with waitQ := s.q.waitQ.erase t }
    s.setThread t { s.threads t with op := none, rc := some (-EAGAIN) }
  else s

end Zephyr.Msgq
