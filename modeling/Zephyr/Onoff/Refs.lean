import Zephyr.Onoff.Inv

namespace Zephyr.Onoff

theorem runOnoff_append (s : OnoffSys) (xs ys : List OnoffOp) :
    runOnoff s (xs ++ ys) =
      ((runOnoff (runOnoff s xs).1 ys).1, (runOnoff s xs).2 ++ (runOnoff (runOnoff s xs).1 ys).2) := by
  induction xs generalizing s with
  | nil => simp [runOnoff]
  | cons op xs ih => simp [runOnoff, ih]

-- While a start is in flight, each onoff_request queues its client.
theorem runOnoff_requests_toOn {s : OnoffSys} (hl : s.loop = none) (ht : s.mgr.state = .toOn)
    (hr : s.mgr.refs ≠ serviceRefsMax) (cs : List Nat) :
    runOnoff s (cs.map .request) =
      ({ s with mgr := { s.mgr with clients := s.mgr.clients ++ cs } }, cs.map fun _ => .ret 6) := by
  induction cs generalizing s with
  | nil => simp [runOnoff]
  | cons c cs ih =>
    have h1 : (OnoffOp.request c).run s =
        ({ s with mgr := { s.mgr with clients := s.mgr.clients ++ [c] } }, [.ret 6]) := by
      simp [OnoffOp.run, OnoffOp.enabled, OnoffSys.lockHeld, hl, OnoffOp.exec, onoffRequest, hr, ht,
        OnoffState.bits]
    simp only [List.map_cons, runOnoff, h1]
    rw [ih (s := { s with mgr := { s.mgr with clients := s.mgr.clients ++ [c] } }) hl ht hr]
    simp

-- notify_all: one client notified per step of the unlocked region.
theorem runOnoff_notify_clients {s : OnoffSys} {st : OnoffState} {res : Int} (cs : List Nat)
    (hl : s.loop = some (.unlocked ⟨[], cs, none, st, res⟩)) :
    runOnoff s (List.replicate cs.length .advance) =
      ({ s with loop := some (.unlocked ⟨[], [], none, st, res⟩) }, cs.map fun c => .client c st res) := by
  induction cs generalizing s with
  | nil =>
    obtain ⟨m, l, f⟩ := s
    simp only at hl
    subst hl
    simp [runOnoff]
  | cons c cs ih =>
    have h1 : OnoffOp.advance.run s =
        ({ s with loop := some (.unlocked ⟨[], cs, none, st, res⟩) }, [.client c st res]) := by
      simp [OnoffOp.run, OnoffOp.enabled, hl, OnoffOp.exec, loopUnlocked]
    simp only [List.length_cons, List.replicate_succ, runOnoff, h1]
    rw [ih (s := { s with loop := some (.unlocked ⟨[], cs, none, st, res⟩) }) rfl]
    simp

-- A start completes with n + 1 clients queued: process_complete adds them to
-- refs in 16 bits, enters ON and unlocks to notify them all of success.
theorem onoff_start_credits (n : Nat) :
    runOnoff (onoffManagerInit false)
        ([.request 0, .advance, .advance, .advance] ++ (List.range' 1 n).map .request ++ [.notify 0, .advance]) =
      (⟨⟨[], [], false, 0, .on, true, false, decide ((n + 1) % 2 ^ 16 = 0), (n + 1) % 2 ^ 16⟩,
          some (.unlocked ⟨[], List.range' 0 (n + 1), none, .on, 0⟩), false⟩,
        [.ret 0, .transit .start] ++ (List.range' 1 n).map fun _ => .ret 6) := by
  have h1 : runOnoff (onoffManagerInit false) [.request 0, .advance, .advance, .advance] =
      (⟨⟨[0], [], false, 0, .toOn, false, false, false, 0⟩, none, true⟩, [.ret 0, .transit .start]) := by
    decide
  rw [runOnoff_append, runOnoff_append, h1, runOnoff_requests_toOn rfl rfl (by decide)]
  -- the completion and the pass that handles it, on the queued list
  simp [runOnoff, OnoffOp.run, OnoffOp.enabled, OnoffSys.lockHeld, OnoffOp.exec, transitionComplete,
    processEvent, loopLocked, passEvt, passBody, processComplete, passEnd, markRecheck_eq, setState,
    processRecheck, addRefs_eq (Nat.two_pow_pos 16)]
  rfl

-- 65536 clients queue while the service starts. The start succeeds and every
-- client is notified of ON with result 0, but refs wraps to 0, so the manager
-- stops the service although no client released its reference.
theorem onoff_refs_wrap_stops_service :
    runOnoff (onoffManagerInit false)
        ([.request 0, .advance, .advance, .advance] ++ (List.range' 1 65535).map .request ++ [.notify 0, .advance] ++
          List.replicate 65536 .advance ++ [.advance, .advance, .advance, .advance]) =
      (⟨⟨[], [], false, 0, .toOff, false, false, false, 0⟩, none, true⟩,
        [.ret 0, .transit .start] ++ (List.range' 1 65535).map (fun _ => .ret 6) ++
          (List.range' 0 65536).map (fun c => .client c .on 0) ++ [.transit .stop]) := by
  have hc := onoff_start_credits 65535
  simp only [Nat.reduceAdd, Nat.reducePow, Nat.reduceMod, decide_true] at hc
  have hn := runOnoff_notify_clients (s := ⟨⟨[], [], false, 0, .on, true, false, true, 0⟩,
    some (.unlocked ⟨[], List.range' 0 65536, none, .on, 0⟩), false⟩) (List.range' 0 65536) rfl
  rw [List.length_range'] at hn
  rw [runOnoff_append, runOnoff_append, hc, hn]
  simp only [List.append_assoc, Prod.mk.injEq, List.append_cancel_left_eq]
  -- the relock, the recheck pass that stops, and the stop transition called
  decide

end Zephyr.Onoff
