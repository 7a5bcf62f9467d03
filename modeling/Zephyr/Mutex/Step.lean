import Zephyr.Mutex.Mutex
import Zephyr.Lib.Reach

namespace Zephyr.Mutex

open Zephyr.Timeout MutexSys

inductive MutexOp where
  | lock (t m : Nat) (timeout : KTimeout)
  | unlock (t m : Nat)
  | timeout (t : Nat)
  | resume (t : Nat)
  deriving DecidableEq, Repr

-- Each call is atomic under mutex_lock; `held` counts the calls that return 0.
def MutexOp.apply (ceiling : Int) (s : MutexSys) : MutexOp → MutexSys
  | .lock t m tmo =>
    let r := kMutexLock ceiling s t m tmo
    if r.2 = some 0 then r.1.setHeld t m (r.1.held t m + 1) else r.1
  | .unlock t m =>
    let r := kMutexUnlock s t m
    if r.2 = 0 then r.1.setHeld t m (r.1.held t m - 1) else r.1
  | .timeout t => zThreadTimeout s t
  | .resume t =>
    match s.state t with
    | .woken m _ =>
      let r := lockResume ceiling s t
      if r.2 = some 0 then r.1.setHeld t m (r.1.held t m + 1) else r.1
    | _ => s

-- Only a thread that is not blocked in k_mutex_lock makes a call.
def MutexOp.allowed (s : MutexSys) : MutexOp → Bool
  | .lock t _ _ | .unlock t _ => s.state t = .ready
  | .timeout _ | .resume _ => true

def MutexStep (ceiling : Int) (s s' : MutexSys) : Prop :=
  ∃ op : MutexOp, op.allowed s = true ∧ s' = op.apply ceiling s

def MutexReach (ceiling : Int) : MutexSys → Prop :=
  StateMachine.Reachable (fun s => ∃ prio, s = mutexSysInit prio) (MutexStep ceiling)

def MutexOp.run (ceiling : Int) (s : MutexSys) : List MutexOp → MutexSys
  | [] => s
  | op :: ops => MutexOp.run ceiling (op.apply ceiling s) ops

def MutexOp.runAllowed (ceiling : Int) (s : MutexSys) : List MutexOp → Bool
  | [] => true
  | op :: ops => op.allowed s && MutexOp.runAllowed ceiling (op.apply ceiling s) ops

theorem MutexReach.run {ceiling : Int} {s : MutexSys} (hs : MutexReach ceiling s) :
    ∀ ops, MutexOp.runAllowed ceiling s ops = true → MutexReach ceiling (MutexOp.run ceiling s ops) := by
  intro ops
  induction ops generalizing s with
  | nil => intro _; exact hs
  | cons op ops ih =>
    intro h
    simp only [MutexOp.runAllowed, Bool.and_eq_true] at h
    exact ih (.step hs ⟨op, h.1, rfl⟩) h.2

end Zephyr.Mutex
