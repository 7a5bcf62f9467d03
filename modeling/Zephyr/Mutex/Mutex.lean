import Zephyr.Lib.WaitQ
import Zephyr.Timeout.Front

namespace Zephyr.Mutex

open Zephyr.Lib Zephyr.Timeout

def EPERM : Int := 1

def EAGAIN : Int := 11

def EBUSY : Int := 16

def EINVAL : Int := 22

structure KMutex where
  owner : Option Nat
  lockCount : Nat
  ownerOrigPrio : Int
  waitQ : List Nat
  deriving DecidableEq, Repr

inductive TState where
  | ready
  | pended (m : Nat) (timed : Bool)
  | woken (m : Nat) (rc : Int)
  deriving DecidableEq, Repr

-- `enq`, `clock` and `held` are ghost state: the tick of a thread's latest
-- entry into a wait queue, and per thread and mutex the successful
-- k_mutex_lock returns minus the successful k_mutex_unlock returns.
structure MutexSys where
  mutexes : Nat → KMutex
  prio : Nat → Int
  state : Nat → TState
  enq : Nat → Nat
  clock : Nat
  held : Nat → Nat → Nat

namespace MutexSys

def setMutex (s : MutexSys) (m : Nat) (mx : KMutex) : MutexSys :=
  { s with mutexes := Function.update s.mutexes m mx }

def setPrio (s : MutexSys) (t : Nat) (p : Int) : MutexSys :=
  { s with prio := Function.update s.prio t p }

def setState (s : MutexSys) (t : Nat) (st : TState) : MutexSys :=
  { s with state := Function.update s.state t st }

def setHeld (s : MutexSys) (t m n : Nat) : MutexSys :=
  { s with held := fun u k => if u = t ∧ k = m then n else s.held u k }

@[simp] theorem setMutex_mutexes (s : MutexSys) (m : Nat) (mx : KMutex) (k : Nat) :
    (s.setMutex m mx).mutexes k = if k = m then mx else s.mutexes k := by
  simp [setMutex, Function.update_apply]

@[simp] theorem setMutex_prio (s : MutexSys) (m : Nat) (mx : KMutex) :
    (s.setMutex m mx).prio = s.prio := rfl

@[simp] theorem setMutex_state (s : MutexSys) (m : Nat) (mx : KMutex) :
    (s.setMutex m mx).state = s.state := rfl

@[simp] theorem setMutex_enq (s : MutexSys) (m : Nat) (mx : KMutex) :
    (s.setMutex m mx).enq = s.enq := rfl

@[simp] theorem setMutex_clock (s : MutexSys) (m : Nat) (mx : KMutex) :
    (s.setMutex m mx).clock = s.clock := rfl

@[simp] theorem setMutex_held (s : MutexSys) (m : Nat) (mx : KMutex) :
    (s.setMutex m mx).held = s.held := rfl

@[simp] theorem setPrio_prio (s : MutexSys) (t : Nat) (p : Int) (u : Nat) :
    (s.setPrio t p).prio u = if u = t then p else s.prio u := by
  simp [setPrio, Function.update_apply]

@[simp] theorem setPrio_mutexes (s : MutexSys) (t : Nat) (p : Int) :
    (s.setPrio t p).mutexes = s.mutexes := rfl

@[simp] theorem setPrio_state (s : MutexSys) (t : Nat) (p : Int) :
    (s.setPrio t p).state = s.state := rfl

@[simp] theorem setPrio_enq (s : MutexSys) (t : Nat) (p : Int) :
    (s.setPrio t p).enq = s.enq := rfl

@[simp] theorem setPrio_clock (s : MutexSys) (t : Nat) (p : Int) :
    (s.setPrio t p).clock = s.clock := rfl

@[simp] theorem setPrio_held (s : MutexSys) (t : Nat) (p : Int) :
    (s.setPrio t p).held = s.held := rfl

@[simp] theorem setState_state (s : MutexSys) (t : Nat) (st : TState) (u : Nat) :
    (s.setState t st).state u = if u = t then st else s.state u := by
  simp [setState, Function.update_apply]

@[simp] theorem setState_mutexes (s : MutexSys) (t : Nat) (st : TState) :
    (s.setState t st).mutexes = s.mutexes := rfl

@[simp] theorem setState_prio (s : MutexSys) (t : Nat) (st : TState) :
    (s.setState t st).prio = s.prio := rfl

@[simp] theorem setState_enq (s : MutexSys) (t : Nat) (st : TState) :
    (s.setState t st).enq = s.enq := rfl

@[simp] theorem setState_clock (s : MutexSys) (t : Nat) (st : TState) :
    (s.setState t st).clock = s.clock := rfl

@[simp] theorem setState_held (s : MutexSys) (t : Nat) (st : TState) :
    (s.setState t st).held = s.held := rfl

@[simp] theorem setHeld_held (s : MutexSys) (t m n u k : Nat) :
    (s.setHeld t m n).held u k = if u = t ∧ k = m then n else s.held u k := rfl

@[simp] theorem setHeld_mutexes (s : MutexSys) (t m n : Nat) :
    (s.setHeld t m n).mutexes = s.mutexes := rfl

@[simp] theorem setHeld_state (s : MutexSys) (t m n : Nat) :
    (s.setHeld t m n).state = s.state := rfl

@[simp] theorem setHeld_prio (s : MutexSys) (t m n : Nat) : (s.setHeld t m n).prio = s.prio := rfl

@[simp] theorem setHeld_enq (s : MutexSys) (t m n : Nat) : (s.setHeld t m n).enq = s.enq := rfl

@[simp] theorem setHeld_clock (s : MutexSys) (t m n : Nat) :
    (s.setHeld t m n).clock = s.clock := rfl

end MutexSys

open MutexSys

def mutexSysInit (prio : Nat → Int) : MutexSys :=
  { mutexes := fun _ => ⟨none, 0, 0, []⟩, prio := prio, state := fun _ => .ready,
    enq := fun _ => 0, clock := 0, held := fun _ _ => 0 }

def newPrioForInheritance (ceiling target limit : Int) : Int :=
  let newPrio := if target < limit then target else limit
  if ceiling ≤ newPrio then newPrio else ceiling

-- _priq_wait_add on a mutex's wait_q, stamping the entry.
def waitqInsert (s : MutexSys) (m t : Nat) : MutexSys :=
  { s.setMutex m { s.mutexes m with waitQ := waitqAdd s.prio t (s.mutexes m).waitQ } with
    enq := Function.update s.enq t s.clock, clock := s.clock + 1 }

@[simp] theorem waitqInsert_mutexes (s : MutexSys) (m t k : Nat) :
    (waitqInsert s m t).mutexes k =
      if k = m then { s.mutexes m with waitQ := waitqAdd s.prio t (s.mutexes m).waitQ }
      else s.mutexes k := by
  simp [waitqInsert]

@[simp] theorem waitqInsert_prio (s : MutexSys) (m t : Nat) : (waitqInsert s m t).prio = s.prio := rfl

@[simp] theorem waitqInsert_state (s : MutexSys) (m t : Nat) :
    (waitqInsert s m t).state = s.state := rfl

@[simp] theorem waitqInsert_enq (s : MutexSys) (m t u : Nat) :
    (waitqInsert s m t).enq u = if u = t then s.clock else s.enq u := by
  simp [waitqInsert, Function.update_apply]

@[simp] theorem waitqInsert_clock (s : MutexSys) (m t : Nat) :
    (waitqInsert s m t).clock = s.clock + 1 := rfl

@[simp] theorem waitqInsert_owner (s : MutexSys) (m t k : Nat) :
    ((waitqInsert s m t).mutexes k).owner = (s.mutexes k).owner := by
  by_cases hk : k = m <;> simp [hk]

@[simp] theorem waitqInsert_lockCount (s : MutexSys) (m t k : Nat) :
    ((waitqInsert s m t).mutexes k).lockCount = (s.mutexes k).lockCount := by
  by_cases hk : k = m <;> simp [hk]

@[simp] theorem waitqInsert_held (s : MutexSys) (m t : Nat) : (waitqInsert s m t).held = s.held := rfl

-- A pended thread leaves its wait_q and re-enters it under the new priority.
def zThreadPrioSet (s : MutexSys) (t : Nat) (prio : Int) : MutexSys :=
  match s.state t with
  | .pended m _ =>
    let s := s.setMutex m { s.mutexes m with waitQ := (s.mutexes m).waitQ.erase t }
    waitqInsert (s.setPrio t prio) m t
  | _ => s.setPrio t prio

def adjustOwnerPrio (s : MutexSys) (m : Nat) (newPrio : Int) : MutexSys :=
  match (s.mutexes m).owner with
  | some o => if s.prio o ≠ newPrio then zThreadPrioSet s o newPrio else s
  | none => s

def pendCurr (s : MutexSys) (t m : Nat) (timed : Bool) : MutexSys :=
  waitqInsert (s.setState t (.pended m timed)) m t

-- The priority inheritance of z_impl_k_mutex_lock before it pends.
def lockBoost (ceiling : Int) (s : MutexSys) (t m : Nat) : MutexSys :=
  match (s.mutexes m).owner with
  | some o =>
    let newPrio := newPrioForInheritance ceiling (s.prio t) (s.prio o)
    if newPrio < s.prio o then adjustOwnerPrio s m newPrio else s
  | none => s

-- z_impl_k_mutex_lock up to z_pend_curr; `none` when the caller pended.
def kMutexLock (ceiling : Int) (s : MutexSys) (t m : Nat) (timeout : KTimeout) :
    MutexSys × Option Int :=
  let mx := s.mutexes m
  if mx.lockCount = 0 ∨ mx.owner = some t then
    let orig := if mx.lockCount = 0 then s.prio t else mx.ownerOrigPrio
    (s.setMutex m { mx with ownerOrigPrio := orig, lockCount := mx.lockCount + 1, owner := some t },
      some 0)
  else if timeout = .rel 0 then (s, some (-EBUSY))
  else (pendCurr (lockBoost ceiling s t m) t m (decide (timeout ≠ .forever)), none)

-- The priority restore of z_impl_k_mutex_lock after its wait timed out.
def lockTimeoutRestore (ceiling : Int) (s : MutexSys) (m : Nat) : MutexSys :=
  let mx := s.mutexes m
  match mx.owner with
  | some _ =>
    let newPrio := match mx.waitQ with
      | w :: _ => newPrioForInheritance ceiling (s.prio w) mx.ownerOrigPrio
      | [] => mx.ownerOrigPrio
    adjustOwnerPrio s m newPrio
  | none => s

-- The rest of z_impl_k_mutex_lock, once z_pend_curr returns in `t`.
def lockResume (ceiling : Int) (s : MutexSys) (t : Nat) : MutexSys × Option Int :=
  match s.state t with
  | .woken m rc =>
    let s := s.setState t .ready
    if rc = 0 then (s, some 0) else (lockTimeoutRestore ceiling s m, some (-EAGAIN))
  | _ => (s, none)

-- The LOCK_SCHED_SPINLOCK block of z_impl_k_mutex_unlock.
def unlockHandOff (s : MutexSys) (m : Nat) : MutexSys :=
  match (s.mutexes m).waitQ with
  | [] => s.setMutex m { s.mutexes m with owner := none, lockCount := 0 }
  | n :: rest =>
    let s := s.setMutex m
      { s.mutexes m with waitQ := rest, owner := some n, ownerOrigPrio := s.prio n }
    s.setState n (.woken m 0)

def kMutexUnlock (s : MutexSys) (t m : Nat) : MutexSys × Int :=
  match (s.mutexes m).owner with
  | none => (s, -EINVAL)
  | some o =>
    if o ≠ t then (s, -EPERM)
    else if 1 < (s.mutexes m).lockCount then
      (s.setMutex m { s.mutexes m with lockCount := (s.mutexes m).lockCount - 1 }, 0)
    else (unlockHandOff (adjustOwnerPrio s m (s.mutexes m).ownerOrigPrio) m, 0)

-- z_thread_timeout for a thread pended on a mutex with a finite timeout.
def zThreadTimeout (s : MutexSys) (t : Nat) : MutexSys :=
  match s.state t with
  | .pended m true =>
    let s := s.setMutex m { s.mutexes m with waitQ := (s.mutexes m).waitQ.erase t }
    s.setState t (.woken m (-EAGAIN))
  | _ => s

end Zephyr.Mutex
