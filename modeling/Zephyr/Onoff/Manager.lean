import Mathlib
import Zephyr.Lib.Reach

namespace Zephyr.Onoff

-- The values ONOFF_STATE_MASK exposes in onoff_manager::flags.
inductive OnoffState where
  | off
  | error
  | on
  | toOff
  | resetting
  | toOn
  deriving DecidableEq, Repr

def onoffFlagError : Nat := 1

-- ONOFF_STATE_*: ERROR is bit 0, ONOFF bit 1 and TRANSITION bit 2.
def OnoffState.bits : OnoffState → Nat
  | .off => 0
  | .error => 1
  | .on => 2
  | .toOff => 4
  | .resetting => 5
  | .toOn => 6

-- ONOFF_FLAG_TRANSITION is set: a start, stop or reset is under way.
def OnoffState.transition : OnoffState → Bool
  | .toOff | .resetting | .toOn => true
  | .off | .error | .on => false

inductive Evt where
  | nop
  | complete
  | recheck
  | start
  | stop
  | reset
  deriving DecidableEq, Repr

-- Which of transitions->start, stop and reset process_event calls.
inductive Transit where
  | start
  | stop
  | reset
  deriving DecidableEq, Repr

def serviceRefsMax : Nat := 0xFFFF

def eIo : Int := 5

def eAgain : Int := 11

def eInval : Int := 22

def eAlready : Int := 120

def eNotSup : Int := 134

-- struct onoff_manager with clients and monitors as lists of their nodes:
-- `hasReset` is transitions->reset != NULL, the flags word is split into its
-- state bits and the PROCESSING, COMPLETE and RECHECK bits, and refs is the
-- uint16_t count.
structure OnoffManager where
  clients : List Nat
  monitors : List Nat
  hasReset : Bool
  lastRes : Int
  state : OnoffState
  processing : Bool
  complete : Bool
  recheck : Bool
  refs : Nat
  deriving DecidableEq, Repr

-- The locals of process_event in an unlocked region: the monitors and
-- clients still to notify, the transition still to call, and the state and
-- result the notifications carry.
structure Window where
  monitors : List Nat
  clients : List Nat
  transit : Option Transit
  state : OnoffState
  res : Int
  deriving DecidableEq, Repr

-- The process_event invocation that is not nested: at the top of its
-- do/while body with the lock held and `evt` to handle, or unlocked.
inductive Loop where
  | locked (evt : Evt)
  | unlocked (w : Window)
  deriving DecidableEq, Repr

-- `inFlight`: a transition function has been called and has not yet called
-- its notify.
structure OnoffSys where
  mgr : OnoffManager
  loop : Option Loop
  inFlight : Bool
  deriving DecidableEq, Repr

-- What a step shows its caller: a return value, a client or monitor
-- callback with its state and result, or a transition function called.
inductive Note where
  | ret (rv : Int)
  | client (cli : Nat) (state : OnoffState) (res : Int)
  | monitor (mon : Nat) (state : OnoffState) (res : Int)
  | transit (t : Transit)
  deriving DecidableEq, Repr

def onoffManagerInit (hasReset : Bool) : OnoffSys :=
  ⟨⟨[], [], hasReset, 0, .off, false, false, false, 0⟩, none, false⟩

def setState (m : OnoffManager) (state : OnoffState) : OnoffManager := { m with state := state }

def processRecheck (m : OnoffManager) : Evt :=
  if m.state = .off ∧ m.clients ≠ [] then .start
  else if m.state = .on ∧ m.refs = 0 then .stop
  else if m.state = .error ∧ m.clients ≠ [] then .reset
  else .nop

-- mgr->refs += 1U for each client of the list, in 16 bits.
def addRefs (refs : Nat) (clients : List Nat) : Nat :=
  clients.foldl (fun r _ => (r + 1) % 2 ^ 16) refs

def markRecheck (m : OnoffManager) : OnoffManager :=
  if processRecheck m ≠ .nop then { m with recheck := true } else m

-- `clients` is process_event's local list, returned as the clients to notify.
def processComplete (m : OnoffManager) (clients : List Nat) (res : Int) : OnoffManager × List Nat :=
  if res < 0 then (setState { m with clients := [] } .error, m.clients)
  else if m.state = .toOn ∨ m.state = .resetting then
    let m' := { m with clients := [] }
    let m' := if m.state = .toOn then setState { m' with refs := addRefs m.refs m.clients } .on
      else setState m' .off
    (markRecheck m', m.clients)
  else if m.state = .toOff then (markRecheck (setState m .off), clients)
  else (m, clients)

-- The entry of process_event: a nested call records its event for the
-- running invocation, any other becomes the running invocation.
def processEvent (s : OnoffSys) (evt : Evt) : OnoffSys :=
  if s.mgr.processing then
    if evt = .complete then { s with mgr := { s.mgr with complete := true } }
    else { s with mgr := { s.mgr with recheck := true } }
  else { s with loop := some (.locked evt) }

-- The end of the do/while body: completion takes priority over recheck, and
-- with neither the loop exits and releases the lock.
def loopBottom (s : OnoffSys) : OnoffSys :=
  if s.mgr.complete then { s with mgr := { s.mgr with complete := false }, loop := some (.locked .complete) }
  else if s.mgr.recheck then { s with mgr := { s.mgr with recheck := false }, loop := some (.locked .recheck) }
  else { s with loop := none }

-- The event a pass handles.
def passEvt (m : OnoffManager) (evt : Evt) : Evt :=
  if evt = .recheck then processRecheck m else evt

-- The body of a pass: the manager after it, the clients to notify, the
-- transition to call and res.
def passBody (m : OnoffManager) : Evt → OnoffManager × List Nat × Option Transit × Int
  | .complete => let c := processComplete m [] m.lastRes; (c.1, c.2, none, m.lastRes)
  | .start => (setState m .toOn, [], some .start, 0)
  | .stop => (setState m .toOff, [], some .stop, 0)
  | .reset => (setState m .resetting, [], if m.hasReset then some .reset else none, 0)
  | _ => (m, [], none, 0)

-- Unlock when the state changed and there are monitors, when there are
-- clients to notify or when a transition is to be called.
def passEnd (s : OnoffSys) (state : OnoffState) (b : OnoffManager × List Nat × Option Transit × Int) : OnoffSys :=
  let m := b.1
  let doMonitors := decide (state ≠ m.state) && !m.monitors.isEmpty
  if doMonitors || !b.2.1.isEmpty || b.2.2.1.isSome then
    let w : Window := ⟨if doMonitors then m.monitors else [], b.2.1, b.2.2.1, m.state, b.2.2.2⟩
    { s with mgr := { m with processing := true }, loop := some (.unlocked w) }
  else loopBottom { s with mgr := m }

-- One pass of the do/while body from its top, where the local state is the
-- manager's and the local client list is empty.
def loopLocked (s : OnoffSys) (evt : Evt) : OnoffSys :=
  let evt := passEvt s.mgr evt
  if evt = .nop then { s with loop := none } else passEnd s s.mgr.state (passBody s.mgr evt)

-- The next action of the running invocation in its unlocked region: each
-- monitor, then each client, then the transition function, then the lock.
def loopUnlocked (s : OnoffSys) (w : Window) : OnoffSys × List Note :=
  match w.monitors, w.clients, w.transit with
  | mon :: mons, _, _ => ({ s with loop := some (.unlocked { w with monitors := mons }) }, [.monitor mon w.state w.res])
  | [], cli :: clis, _ => ({ s with loop := some (.unlocked { w with clients := clis }) }, [.client cli w.state w.res])
  | [], [], some t => ({ s with loop := some (.unlocked { w with transit := none }), inFlight := true }, [.transit t])
  | [], [], none => (loopBottom { s with mgr := { s.mgr with processing := false } }, [])

-- onoff_request for a client that passes validate_args.
def onoffRequest (s : OnoffSys) (cli : Nat) : OnoffSys × List Note :=
  let m := s.mgr
  let state := m.state
  if m.refs = serviceRefsMax then (s, [.ret (-eAgain)]) else
  match state with
  | .on => ({ s with mgr := { m with refs := (m.refs + 1) % 2 ^ 16 } }, [.client cli state 0, .ret state.bits])
  | .off | .toOff | .toOn =>
    let s' := { s with mgr := { m with clients := m.clients ++ [cli] } }
    (if state = .off then processEvent s' .recheck else s', [.ret state.bits])
  | .resetting => (s, [.ret (-eNotSup)])
  | .error => (s, [.ret (-eIo)])

def onoffRelease (s : OnoffSys) : OnoffSys × List Note :=
  let m := s.mgr
  if m.state ≠ .on then (s, [.ret (if m.state = .error then -eIo else -eNotSup)]) else
  let refs := (m.refs + (2 ^ 16 - 1)) % 2 ^ 16
  let s' := { s with mgr := { m with refs := refs } }
  (if refs = 0 then processEvent s' .recheck else s', [.ret m.state.bits])

def onoffReset (s : OnoffSys) (cli : Nat) : OnoffSys × List Note :=
  let m := s.mgr
  let state := m.state
  if !m.hasReset then (s, [.ret (-eNotSup)])
  else if state.bits &&& onoffFlagError = 0 then (s, [.ret (-eAlready)])
  else
    let s' := { s with mgr := { m with clients := m.clients ++ [cli] } }
    (if state ≠ .resetting then processEvent s' .recheck else s', [.ret state.bits])

def onoffCancel (s : OnoffSys) (cli : Nat) : OnoffSys × List Note :=
  let m := s.mgr
  if cli ∈ m.clients then ({ s with mgr := { m with clients := m.clients.erase cli } }, [.ret m.state.bits])
  else (s, [.ret (-eAlready)])

def onoffMonitorRegister (s : OnoffSys) (mon : Nat) : OnoffSys × List Note :=
  ({ s with mgr := { s.mgr with monitors := s.mgr.monitors ++ [mon] } }, [.ret 0])

def onoffMonitorUnregister (s : OnoffSys) (mon : Nat) : OnoffSys × List Note :=
  if mon ∈ s.mgr.monitors then ({ s with mgr := { s.mgr with monitors := s.mgr.monitors.erase mon } }, [.ret 0])
  else (s, [.ret (-eInval)])

-- transition_complete, the notify handed to the transition functions.
def transitionComplete (s : OnoffSys) (res : Int) : OnoffSys :=
  processEvent { s with mgr := { s.mgr with lastRes := res }, inFlight := false } .complete

-- The calls of the API, the notify of the transition in flight, and a step
-- of the running process_event.
inductive OnoffOp where
  | request (cli : Nat)
  | release
  | reset (cli : Nat)
  | cancel (cli : Nat)
  | monitorRegister (mon : Nat)
  | monitorUnregister (mon : Nat)
  | notify (res : Int)
  | advance
  deriving DecidableEq, Repr

def OnoffSys.lockHeld (s : OnoffSys) : Bool :=
  match s.loop with
  | some (.locked _) => true
  | _ => false

-- A call waits while process_event holds the spinlock, and a transition
-- calls its notify once, after its transition function was called.
def OnoffOp.enabled (s : OnoffSys) : OnoffOp → Bool
  | .advance => s.loop.isSome
  | .notify _ => s.inFlight && !s.lockHeld
  | _ => !s.lockHeld

def OnoffOp.exec (s : OnoffSys) : OnoffOp → OnoffSys × List Note
  | .request cli => onoffRequest s cli
  | .release => onoffRelease s
  | .reset cli => onoffReset s cli
  | .cancel cli => onoffCancel s cli
  | .monitorRegister mon => onoffMonitorRegister s mon
  | .monitorUnregister mon => onoffMonitorUnregister s mon
  | .notify res => (transitionComplete s res, [])
  | .advance =>
    match s.loop with
    | some (.locked evt) => (loopLocked s evt, [])
    | some (.unlocked w) => loopUnlocked s w
    | none => (s, [])

-- An operation that is not enabled has not happened yet.
def OnoffOp.run (s : OnoffSys) (op : OnoffOp) : OnoffSys × List Note :=
  if op.enabled s then op.exec s else (s, [])

def runOnoff (s : OnoffSys) : List OnoffOp → OnoffSys × List Note
  | [] => (s, [])
  | op :: ops =>
    let r := op.run s
    let rest := runOnoff r.1 ops
    (rest.1, r.2 ++ rest.2)

def OnoffStep (s s' : OnoffSys) : Prop := ∃ op : OnoffOp, s' = (op.run s).1

def OnoffReach (hasReset : Bool) : OnoffSys → Prop :=
  StateMachine.Reachable (· = onoffManagerInit hasReset) OnoffStep

theorem OnoffReach.run {hasReset : Bool} {s : OnoffSys} (hs : OnoffReach hasReset s) (ops : List OnoffOp) :
    OnoffReach hasReset (runOnoff s ops).1 := by
  induction ops generalizing s with
  | nil => exact hs
  | cons op ops ih => exact ih (.step hs ⟨op, rfl⟩)

end Zephyr.Onoff
