import Zephyr.Onoff.Manager
import Mathlib.Tactic.SplitIfs

namespace Zephyr.Onoff

-- What process_recheck asks of a settled manager: no waiting client in OFF
-- or ERROR, and a reference in ON.
def Demand (m : OnoffManager) : Prop :=
  (m.state = .off → m.clients = []) ∧ (m.state = .on → m.refs ≠ 0) ∧ (m.state = .error → m.clients = [])

theorem processRecheck_eq_nop {m : OnoffManager} : processRecheck m = .nop ↔ Demand m := by
  obtain ⟨clients, _, _, _, state, _, _, _, refs⟩ := m
  cases state <;> simp [processRecheck, Demand]

theorem demand_of_transition {m : OnoffManager} (h : m.state.transition = true) : Demand m := by
  obtain ⟨_, _, _, _, state, _, _, _, _⟩ := m
  cases state <;> simp_all [Demand, OnoffState.transition]

theorem processRecheck_cases (m : OnoffManager) :
    (processRecheck m = .nop ∧ Demand m) ∨
    (processRecheck m = .start ∧ m.state = .off ∧ m.clients ≠ []) ∨
    (processRecheck m = .stop ∧ m.state = .on ∧ m.refs = 0) ∨
    (processRecheck m = .reset ∧ m.state = .error ∧ m.clients ≠ []) := by
  have hn : processRecheck m = .nop → processRecheck m = .nop ∧ Demand m :=
    fun h => ⟨h, processRecheck_eq_nop.1 h⟩
  unfold processRecheck at hn ⊢
  split_ifs at hn ⊢ with h1 h2 h3
  · exact .inr (.inl ⟨rfl, h1⟩)
  · exact .inr (.inr (.inl ⟨rfl, h2⟩))
  · exact .inr (.inr (.inr ⟨rfl, h3⟩))
  · exact .inl (hn rfl)

theorem addRefs_eq {refs : Nat} (h : refs < 2 ^ 16) (cs : List Nat) :
    addRefs refs cs = (refs + cs.length) % 2 ^ 16 := by
  induction cs generalizing refs with
  | nil =>
    rw [List.length_nil, Nat.add_zero, Nat.mod_eq_of_lt h]
    rfl
  | cons c cs ih =>
    have step : addRefs refs (c :: cs) = addRefs ((refs + 1) % 2 ^ 16) cs := rfl
    rw [step, ih (Nat.mod_lt _ (Nat.two_pow_pos 16)), List.length_cons]
    omega

-- The manager's own data between any two steps.
structure MgrOk (m : OnoffManager) : Prop where
  refs_lt : m.refs < 2 ^ 16
  refs_on : m.state ≠ .on → m.refs = 0
  reset_clients : m.state = .error ∨ m.state = .resetting → m.clients ≠ [] → m.hasReset = true

theorem MgrOk.congr {m m' : OnoffManager} (h : MgrOk m) (hc : m'.clients = m.clients)
    (hr : m'.hasReset = m.hasReset) (hs : m'.state = m.state) (hf : m'.refs = m.refs) : MgrOk m' :=
  ⟨hf ▸ h.refs_lt, fun h' => hf ▸ h.refs_on (hs ▸ h'), fun h' hc' => hr ▸ h.reset_clients (hs ▸ h') (hc ▸ hc')⟩

theorem markRecheck_eq (m : OnoffManager) :
    markRecheck m = { m with recheck := m.recheck || decide (processRecheck m ≠ .nop) } := by
  unfold markRecheck
  split_ifs with h <;> simp [h]

-- markRecheck leaves a settled manager that meets the demand or has RECHECK.
theorem markRecheck_settled {m : OnoffManager} (hs : m.state.transition = false) (hm : MgrOk m) :
    (markRecheck m).state.transition = false ∧ (markRecheck m).processing = m.processing ∧
      (markRecheck m).complete = m.complete ∧ (Demand (markRecheck m) ∨ (markRecheck m).recheck = true) ∧
      MgrOk (markRecheck m) := by
  unfold markRecheck
  split_ifs with h
  · exact ⟨hs, rfl, rfl, .inr rfl, hm.congr rfl rfl rfl rfl⟩
  · exact ⟨hs, rfl, rfl, .inl (processRecheck_eq_nop.1 (not_not.1 h)), hm⟩

-- process_complete settles a transition, and marks RECHECK when the settled
-- state does not meet the demand.
theorem processComplete_spec {m : OnoffManager} (ht : m.state.transition = true) (hm : MgrOk m)
    (cl : List Nat) (res : Int) :
    (processComplete m cl res).1.state.transition = false ∧
      (processComplete m cl res).1.processing = m.processing ∧
      (processComplete m cl res).1.complete = m.complete ∧
      (Demand (processComplete m cl res).1 ∨ (processComplete m cl res).1.recheck = true) ∧
      MgrOk (processComplete m cl res).1 := by
  have hon : m.state ≠ .on := fun h => by simp [h, OnoffState.transition] at ht
  have h0 : m.refs = 0 := hm.refs_on hon
  unfold processComplete
  split_ifs with hres hrun htoOn htoOff
  · exact ⟨rfl, rfl, rfl, .inl ⟨(nomatch ·), (nomatch ·), fun _ => rfl⟩, hm.refs_lt, fun _ => h0,
      fun _ h => absurd rfl h⟩
  · have hlt : addRefs m.refs m.clients < 2 ^ 16 := addRefs_eq hm.refs_lt _ ▸ Nat.mod_lt _ (Nat.two_pow_pos 16)
    exact markRecheck_settled rfl ⟨hlt, fun h => absurd rfl h, by simp [setState]⟩
  · exact markRecheck_settled rfl ⟨hm.refs_lt, fun _ => h0, by simp [setState]⟩
  · exact markRecheck_settled rfl ⟨hm.refs_lt, fun _ => h0, by simp [setState]⟩
  · obtain ⟨_, _, _, _, state, _, _, _, _⟩ := m
    cases state <;> simp_all [OnoffState.transition]

-- The flags are clear while no invocation runs, and at the top of the loop.
def FlagsClear (m : OnoffManager) : Prop :=
  m.processing = false ∧ m.complete = false ∧ m.recheck = false

-- Inside an unlocked region: before the transition function is called; or
-- after it, with its notify still pending or recorded by COMPLETE; or after a
-- completion settled the state.
def InWindow (m : OnoffManager) (inFlight : Bool) : Option Transit → Prop
  | some _ => m.state.transition = true ∧ inFlight = false ∧ m.complete = false ∧ m.recheck = false
  | none =>
    if m.state.transition then inFlight ≠ m.complete ∧ m.recheck = false
    else inFlight = false ∧ m.complete = false ∧ (Demand m ∨ m.recheck = true)

-- The assertion at each control point of the running process_event.
def AtLoop (s : OnoffSys) : Prop :=
  match s.loop with
  | none => FlagsClear s.mgr ∧ s.mgr.state.transition = s.inFlight ∧
      (s.mgr.state.transition = false → Demand s.mgr)
  | some (.locked .complete) => FlagsClear s.mgr ∧ s.mgr.state.transition = true ∧ s.inFlight = false
  | some (.locked .recheck) => FlagsClear s.mgr ∧ s.mgr.state.transition = false ∧ s.inFlight = false
  | some (.locked _) => False
  | some (.unlocked w) => s.mgr.processing = true ∧ InWindow s.mgr s.inFlight w.transit

structure OnoffInv (s : OnoffSys) : Prop where
  mgr : MgrOk s.mgr
  atLoop : AtLoop s

-- The fields of the manager AtLoop reads besides the demand.
def OnoffManager.ctl (m : OnoffManager) : OnoffState × Bool × Bool × Bool :=
  (m.state, m.processing, m.complete, m.recheck)

variable {s : OnoffSys} {m' : OnoffManager}

-- A call that only changes the manager's data.
theorem AtLoop.frame (h : AtLoop s) (hc : m'.ctl = s.mgr.ctl) (hd : Demand s.mgr → Demand m') :
    AtLoop { s with mgr := m' } := by
  obtain ⟨m, l, f⟩ := s
  simp only [OnoffManager.ctl, Prod.mk.injEq] at hc
  obtain ⟨hs, hp, hcm, hr⟩ := hc
  rcases l with _ | ⟨evt⟩ | ⟨⟨_, _, t, _, _⟩⟩
  · simp only [AtLoop, FlagsClear, hs, hp, hcm, hr] at h ⊢
    exact ⟨h.1, h.2.1, fun ht => hd (h.2.2 ht)⟩
  · cases evt <;> simp only [AtLoop, FlagsClear, hs, hp, hcm, hr] at h ⊢ <;> exact h
  · cases t with
    | some t => simpa only [AtLoop, InWindow, hs, hp, hcm, hr] using h
    | none =>
      simp only [AtLoop, InWindow, hs, hp, hcm, hr] at h ⊢
      refine ⟨h.1, ?_⟩
      by_cases hT : m.state.transition = true
      · simpa only [hT, if_true] using h.2
      · simp only [hT] at h ⊢
        exact ⟨h.2.1, h.2.2.1, h.2.2.2.imp_left hd⟩

-- A call that wants a recheck, made in a settled state with the lock free.
theorem AtLoop.recheck_event (h : AtLoop s) (hc : m'.ctl = s.mgr.ctl) (ht : s.mgr.state.transition = false)
    (hl : s.lockHeld = false) : AtLoop (processEvent { s with mgr := m' } .recheck) := by
  obtain ⟨m, l, f⟩ := s
  simp only [OnoffManager.ctl, Prod.mk.injEq] at hc
  obtain ⟨hs, hp, hcm, hr⟩ := hc
  simp only at ht
  rcases l with _ | ⟨evt⟩ | ⟨⟨_, _, t, _, _⟩⟩
  · simp only [AtLoop, FlagsClear] at h
    obtain ⟨⟨hp0, hc0, hr0⟩, hf, -⟩ := h
    rw [processEvent, if_neg (by simp [hp, hp0])]
    simp only [AtLoop, FlagsClear]
    exact ⟨⟨hp.trans hp0, hcm.trans hc0, hr.trans hr0⟩, hs ▸ ht, hf ▸ ht⟩
  · simp [OnoffSys.lockHeld] at hl
  · simp only [AtLoop] at h
    obtain ⟨hp1, hw⟩ := h
    rw [processEvent, if_pos (hp.trans hp1), if_neg (by decide)]
    refine ⟨hp.trans hp1, ?_⟩
    cases t with
    | some t => simp [InWindow, ht] at hw
    | none =>
      simp only [InWindow, ht, Bool.false_eq_true, if_false] at hw
      simp only [InWindow, hs, ht, Bool.false_eq_true, if_false]
      exact ⟨hw.1, hcm ▸ hw.2.1, .inr trivial⟩

-- transition_complete with the lock free.
theorem AtLoop.complete_event (h : AtLoop s) (hf : s.inFlight = true) (hl : s.lockHeld = false) (res : Int) :
    AtLoop (transitionComplete s res) := by
  obtain ⟨m, l, f⟩ := s
  simp only at hf
  subst hf
  rcases l with _ | ⟨evt⟩ | ⟨⟨_, _, t, _, _⟩⟩
  · simp only [AtLoop, FlagsClear] at h
    obtain ⟨⟨hp0, hc0, hr0⟩, ht, -⟩ := h
    rw [transitionComplete, processEvent, if_neg (by simp [hp0])]
    exact ⟨⟨hp0, hc0, hr0⟩, ht, rfl⟩
  · simp [OnoffSys.lockHeld] at hl
  · simp only [AtLoop] at h
    obtain ⟨hp1, hw⟩ := h
    rw [transitionComplete, processEvent, if_pos hp1, if_pos rfl]
    refine ⟨hp1, ?_⟩
    cases t with
    | some t => simp [InWindow] at hw
    | none =>
      simp only [InWindow] at hw ⊢
      split at hw
      · rw [if_pos ‹_›]
        exact ⟨by simp, hw.2⟩
      · simp at hw

-- The end of a pass, when no COMPLETE and RECHECK are both pending and each
-- pending one has the state its pass needs.
theorem AtLoop.bottom (hp : s.mgr.processing = false)
    (hc : s.mgr.complete = true → s.mgr.state.transition = true ∧ s.inFlight = false ∧ s.mgr.recheck = false)
    (hr : s.mgr.recheck = true → s.mgr.state.transition = false ∧ s.inFlight = false)
    (hn : s.mgr.complete = false → s.mgr.recheck = false →
      s.mgr.state.transition = s.inFlight ∧ (s.mgr.state.transition = false → Demand s.mgr)) :
    AtLoop (loopBottom s) := by
  unfold loopBottom
  split_ifs with h1 h2
  · obtain ⟨ht, hf, hr0⟩ := hc h1
    exact ⟨⟨hp, rfl, hr0⟩, ht, hf⟩
  · simp only [Bool.not_eq_true] at h1
    obtain ⟨ht, hf⟩ := hr h2
    exact ⟨⟨hp, h1, rfl⟩, ht, hf⟩
  · simp only [Bool.not_eq_true] at h1 h2
    exact ⟨⟨hp, h1, h2⟩, hn h1 h2⟩

theorem MgrOk.loopBottom_mgr (h : MgrOk s.mgr) : MgrOk (loopBottom s).mgr := by
  unfold loopBottom
  split_ifs <;> exact ⟨h.1, h.2, h.3⟩

theorem passEnd_cases (s : OnoffSys) (st : OnoffState) (b : OnoffManager × List Nat × Option Transit × Int) :
    (∃ w : Window, w.transit = b.2.2.1 ∧
      passEnd s st b = { s with mgr := { b.1 with processing := true }, loop := some (.unlocked w) }) ∨
    (b.2.2.1 = none ∧ passEnd s st b = loopBottom { s with mgr := b.1 }) := by
  dsimp only [passEnd]
  split
  · exact .inl ⟨_, rfl, rfl⟩
  · rename_i h
    refine .inr ⟨?_, rfl⟩
    cases hb : b.2.2.1 with
    | none => rfl
    | some t => simp [hb] at h

-- A pass that starts a transition unlocks to call its function.
theorem OnoffInv.passEnd_transit {b : OnoffManager × List Nat × Option Transit × Int} {t : Transit}
    (hb : b.2.2.1 = some t) (hm : MgrOk b.1) (ht : b.1.state.transition = true) (hfl : FlagsClear b.1)
    (hf : s.inFlight = false) (st : OnoffState) : OnoffInv (passEnd s st b) := by
  rcases passEnd_cases s st b with ⟨w, hw, he⟩ | ⟨hn, -⟩
  · rw [he]
    refine ⟨hm.congr rfl rfl rfl rfl, rfl, ?_⟩
    rw [hw, hb]
    exact ⟨ht, hf, hfl.2.1, hfl.2.2⟩
  · simp [hb] at hn

-- A pass that settles a completion unlocks to notify, or goes on to the
-- deferred events.
theorem OnoffInv.passEnd_settled {b : OnoffManager × List Nat × Option Transit × Int}
    (hb : b.2.2.1 = none) (hm : MgrOk b.1) (ht : b.1.state.transition = false)
    (hp : b.1.processing = false) (hc : b.1.complete = false) (hd : Demand b.1 ∨ b.1.recheck = true)
    (hf : s.inFlight = false) (st : OnoffState) : OnoffInv (passEnd s st b) := by
  rcases passEnd_cases s st b with ⟨w, hw, he⟩ | ⟨-, he⟩
  · rw [he]
    refine ⟨hm.congr rfl rfl rfl rfl, rfl, ?_⟩
    rw [hw, hb, InWindow, if_neg (by simp [ht])]
    exact ⟨hf, hc, hd⟩
  · rw [he]
    refine ⟨hm.loopBottom_mgr, AtLoop.bottom hp (fun h => absurd (hc ▸ h) Bool.false_ne_true)
      (fun _ => ⟨ht, hf⟩) fun _ hr => ⟨ht.trans hf.symm, fun _ => hd.resolve_right fun h => ?_⟩⟩
    exact Bool.false_ne_true (hr.symm.trans h)

theorem OnoffInv.locked (hi : OnoffInv s) {evt : Evt} (hl : s.loop = some (.locked evt)) :
    OnoffInv (loopLocked s evt) := by
  obtain ⟨m, l, f⟩ := s
  simp only at hl
  subst hl
  obtain ⟨hm, ha⟩ := hi
  dsimp only at hm
  cases evt
  case complete =>
    obtain ⟨⟨hp, hc, -⟩, ht, hf⟩ := ha
    obtain ⟨ht', hp', hc', hd, hm'⟩ := processComplete_spec ht hm [] m.lastRes
    simp only [loopLocked, passEvt, reduceCtorEq, if_false, passBody]
    exact .passEnd_settled rfl hm' ht' (hp' ▸ hp) (hc' ▸ hc) hd hf _
  case recheck =>
    obtain ⟨hfl, ht, hf⟩ := ha
    simp only [loopLocked, passEvt, if_true]
    rcases processRecheck_cases m with ⟨hn, hd⟩ | ⟨hs, hoff, -⟩ | ⟨hs, -, h0⟩ | ⟨hs, herr, hcl⟩
    · simp only [hn, if_true]
      exact ⟨hm, hfl, ht.trans hf.symm, fun _ => hd⟩
    · simp only [hs, reduceCtorEq, if_false, passBody]
      exact .passEnd_transit rfl ⟨hm.refs_lt, fun _ => hm.refs_on (by simp [hoff]), by simp [setState]⟩
        rfl hfl hf _
    · simp only [hs, reduceCtorEq, if_false, passBody]
      exact .passEnd_transit rfl ⟨hm.refs_lt, fun _ => h0, by simp [setState]⟩ rfl hfl hf _
    · have hr : m.hasReset = true := hm.reset_clients (.inl herr) hcl
      simp only [hs, reduceCtorEq, if_false, passBody, hr, if_true]
      exact .passEnd_transit rfl ⟨hm.refs_lt, fun _ => hm.refs_on (by simp [herr]), fun _ _ => hr⟩
        rfl hfl hf _
  all_goals exact absurd ha id

theorem MgrOk.processEvent_mgr {s : OnoffSys} (h : MgrOk s.mgr) (evt : Evt) : MgrOk (processEvent s evt).mgr := by
  unfold processEvent
  split_ifs <;> exact ⟨h.1, h.2, h.3⟩

theorem MgrOk.with_clients {m : OnoffManager} (h : MgrOk m) {cs : List Nat}
    (hr : m.state = .error ∨ m.state = .resetting → cs ≠ [] → m.hasReset = true) :
    MgrOk { m with clients := cs } :=
  ⟨h.1, h.2, hr⟩

theorem OnoffInv.unlocked (hi : OnoffInv s) {w : Window} (hl : s.loop = some (.unlocked w)) :
    OnoffInv (loopUnlocked s w).1 := by
  obtain ⟨m, l, f⟩ := s
  simp only at hl
  subst hl
  obtain ⟨hm, hp, hw⟩ := hi
  dsimp only at hm hp hw
  obtain ⟨mons, clis, t, st, res⟩ := w
  rcases mons with _ | ⟨mon, mons⟩
  · rcases clis with _ | ⟨cli, clis⟩
    · cases t with
      | some t =>
        -- the transition function is called
        obtain ⟨ht, -, hc, hr⟩ := hw
        refine ⟨hm, hp, ?_⟩
        change InWindow m true none
        rw [InWindow, if_pos ht]
        exact ⟨by simp [hc], hr⟩
      | none =>
        -- the lock is taken again
        refine ⟨MgrOk.loopBottom_mgr ⟨hm.1, hm.2, hm.3⟩, ?_⟩
        unfold InWindow at hw
        by_cases hT : m.state.transition = true
        · rw [if_pos hT] at hw
          obtain ⟨hfc, hr⟩ := hw
          refine AtLoop.bottom rfl (fun hc => ⟨hT, ?_, hr⟩) (fun h => absurd (hr.symm.trans h) Bool.false_ne_true)
            fun hc _ => ⟨?_, fun h => absurd (hT.symm.trans h) (by decide)⟩
          · have hc' : m.complete = true := hc
            simpa [hc'] using hfc
          · have hc' : m.complete = false := hc
            simpa [hc', hT] using hfc
        · rw [if_neg hT] at hw
          obtain ⟨hf, hc, hd⟩ := hw
          have hT' : m.state.transition = false := by simpa using hT
          refine AtLoop.bottom rfl (fun h => absurd (hc.symm.trans h) Bool.false_ne_true) (fun _ => ⟨hT', hf⟩)
            fun _ hr => ⟨hT'.trans hf.symm, fun _ => hd.resolve_right fun h => ?_⟩
          exact Bool.false_ne_true (hr.symm.trans h)
    · exact ⟨hm, hp, hw⟩
  · exact ⟨hm, hp, hw⟩

theorem onoffRequest_cases (s : OnoffSys) (cli : Nat) :
    (onoffRequest s cli).1 = s ∨
    (s.mgr.state = .on ∧ s.mgr.refs ≠ serviceRefsMax ∧
      (onoffRequest s cli).1 = { s with mgr := { s.mgr with refs := (s.mgr.refs + 1) % 2 ^ 16 } }) ∨
    (s.mgr.state = .off ∧
      (onoffRequest s cli).1 = processEvent { s with mgr := { s.mgr with clients := s.mgr.clients ++ [cli] } } .recheck) ∨
    (s.mgr.state.transition = true ∧ (s.mgr.state = .toOff ∨ s.mgr.state = .toOn) ∧
      (onoffRequest s cli).1 = { s with mgr := { s.mgr with clients := s.mgr.clients ++ [cli] } }) := by
  obtain ⟨⟨clients, monitors, hasReset, lastRes, state, p, c, r, refs⟩, l, f⟩ := s
  by_cases hmax : refs = serviceRefsMax
  · simp [onoffRequest, hmax]
  · cases state <;> simp [onoffRequest, hmax, OnoffState.transition]

theorem onoffRelease_cases (s : OnoffSys) :
    (onoffRelease s).1 = s ∨
    (s.mgr.state = .on ∧ (s.mgr.refs + (2 ^ 16 - 1)) % 2 ^ 16 ≠ 0 ∧
      (onoffRelease s).1 = { s with mgr := { s.mgr with refs := (s.mgr.refs + (2 ^ 16 - 1)) % 2 ^ 16 } }) ∨
    (s.mgr.state = .on ∧ (onoffRelease s).1 = processEvent { s with mgr := { s.mgr with refs := 0 } } .recheck) := by
  obtain ⟨⟨clients, monitors, hasReset, lastRes, state, p, c, r, refs⟩, l, f⟩ := s
  -- simp_all puts hz in the form simp gives the goal, whatever the numerals reduce to
  by_cases hz : (refs + (2 ^ 16 - 1)) % 2 ^ 16 = 0 <;> cases state <;> simp_all [onoffRelease]

theorem onoffReset_cases (s : OnoffSys) (cli : Nat) :
    (onoffReset s cli).1 = s ∨
    (s.mgr.hasReset = true ∧ s.mgr.state = .error ∧
      (onoffReset s cli).1 = processEvent { s with mgr := { s.mgr with clients := s.mgr.clients ++ [cli] } } .recheck) ∨
    (s.mgr.hasReset = true ∧ s.mgr.state = .resetting ∧
      (onoffReset s cli).1 = { s with mgr := { s.mgr with clients := s.mgr.clients ++ [cli] } }) := by
  obtain ⟨⟨clients, monitors, hasReset, lastRes, state, p, c, r, refs⟩, l, f⟩ := s
  cases hasReset <;> cases state <;> simp [onoffReset, OnoffState.bits, onoffFlagError]

theorem OnoffInv.request (hi : OnoffInv s) (hl : s.lockHeld = false) (cli : Nat) :
    OnoffInv (onoffRequest s cli).1 := by
  obtain ⟨hm, ha⟩ := hi
  rcases onoffRequest_cases s cli with he | ⟨hst, hmax, he⟩ | ⟨hst, he⟩ | ⟨ht, hst, he⟩ <;> rw [he]
  · exact ⟨hm, ha⟩
  · have hlt := hm.refs_lt
    have hne : (s.mgr.refs + 1) % 2 ^ 16 ≠ 0 := by unfold serviceRefsMax at hmax; omega
    refine ⟨⟨Nat.mod_lt _ (Nat.two_pow_pos 16), fun h => absurd hst h, hm.reset_clients⟩, ha.frame (by simp only [OnoffManager.ctl]) fun _ => ?_⟩
    exact ⟨fun h => by simp [hst] at h, fun _ => hne, fun h => by simp [hst] at h⟩
  · refine ⟨MgrOk.processEvent_mgr (s := { s with mgr := { s.mgr with clients := s.mgr.clients ++ [cli] } })
      (hm.with_clients fun h => by simp [hst] at h) _, ha.recheck_event (by simp only [OnoffManager.ctl]) ?_ hl⟩
    rw [hst]; rfl
  · refine ⟨hm.with_clients fun h => by rcases hst with hst | hst <;> simp [hst] at h, ha.frame (by simp only [OnoffManager.ctl]) fun _ => ?_⟩
    exact demand_of_transition ht

theorem OnoffInv.release (hi : OnoffInv s) (hl : s.lockHeld = false) : OnoffInv (onoffRelease s).1 := by
  obtain ⟨hm, ha⟩ := hi
  rcases onoffRelease_cases s with he | ⟨hst, hne, he⟩ | ⟨hst, he⟩ <;> rw [he]
  · exact ⟨hm, ha⟩
  · have hm' : MgrOk { s.mgr with refs := (s.mgr.refs + (2 ^ 16 - 1)) % 2 ^ 16 } :=
      ⟨Nat.mod_lt _ (Nat.two_pow_pos 16), fun h => absurd hst h, hm.reset_clients⟩
    have hd : Demand { s.mgr with refs := (s.mgr.refs + (2 ^ 16 - 1)) % 2 ^ 16 } :=
      ⟨fun h => by simp [hst] at h, fun _ => hne, fun h => by simp [hst] at h⟩
    exact ⟨hm', ha.frame (by simp only [OnoffManager.ctl]) fun _ => hd⟩
  · refine ⟨MgrOk.processEvent_mgr (s := { s with mgr := { s.mgr with refs := 0 } })
      ⟨Nat.two_pow_pos 16, fun h => absurd hst h, hm.reset_clients⟩ _,
      ha.recheck_event (by simp only [OnoffManager.ctl]) ?_ hl⟩
    rw [hst]; rfl

theorem OnoffInv.reset (hi : OnoffInv s) (hl : s.lockHeld = false) (cli : Nat) :
    OnoffInv (onoffReset s cli).1 := by
  obtain ⟨hm, ha⟩ := hi
  rcases onoffReset_cases s cli with he | ⟨hr, hst, he⟩ | ⟨hr, hst, he⟩ <;> rw [he]
  · exact ⟨hm, ha⟩
  · refine ⟨MgrOk.processEvent_mgr (s := { s with mgr := { s.mgr with clients := s.mgr.clients ++ [cli] } })
      (hm.with_clients fun _ _ => hr) _, ha.recheck_event (by simp only [OnoffManager.ctl]) ?_ hl⟩
    rw [hst]; rfl
  · refine ⟨hm.with_clients fun _ _ => hr, ha.frame (by simp only [OnoffManager.ctl]) fun _ => demand_of_transition ?_⟩
    rw [hst]; rfl

theorem OnoffInv.cancel (hi : OnoffInv s) (cli : Nat) : OnoffInv (onoffCancel s cli).1 := by
  obtain ⟨hm, ha⟩ := hi
  dsimp only [onoffCancel]
  split_ifs
  · have hne : s.mgr.clients.erase cli ≠ [] → s.mgr.clients ≠ [] := fun h h' => h (by simp [h'])
    refine ⟨hm.with_clients fun h h' => hm.reset_clients h (hne h'), ha.frame (by simp only [OnoffManager.ctl]) fun hd => ?_⟩
    obtain ⟨hoff, hon, herr⟩ := hd
    exact ⟨fun h => by simp [hoff h], hon, fun h => by simp [herr h]⟩
  · exact ⟨hm, ha⟩

theorem OnoffInv.monitorRegister (hi : OnoffInv s) (mon : Nat) : OnoffInv (onoffMonitorRegister s mon).1 :=
  ⟨⟨hi.mgr.1, hi.mgr.2, hi.mgr.3⟩, hi.atLoop.frame (by simp only [OnoffManager.ctl]) id⟩

theorem OnoffInv.monitorUnregister (hi : OnoffInv s) (mon : Nat) :
    OnoffInv (onoffMonitorUnregister s mon).1 := by
  unfold onoffMonitorUnregister
  split_ifs
  · exact ⟨⟨hi.mgr.1, hi.mgr.2, hi.mgr.3⟩, hi.atLoop.frame (by simp only [OnoffManager.ctl]) id⟩
  · exact hi

theorem OnoffInv.notify (hi : OnoffInv s) (hf : s.inFlight = true) (hl : s.lockHeld = false) (res : Int) :
    OnoffInv (transitionComplete s res) :=
  ⟨MgrOk.processEvent_mgr (s := { s with mgr := { s.mgr with lastRes := res }, inFlight := false })
    ⟨hi.mgr.1, hi.mgr.2, hi.mgr.3⟩ _, hi.atLoop.complete_event hf hl res⟩

theorem OnoffInv.exec (hi : OnoffInv s) {op : OnoffOp} (he : op.enabled s = true) : OnoffInv (op.exec s).1 := by
  cases op with
  | request cli => exact hi.request (by simpa [OnoffOp.enabled] using he) cli
  | release => exact hi.release (by simpa [OnoffOp.enabled] using he)
  | reset cli => exact hi.reset (by simpa [OnoffOp.enabled] using he) cli
  | cancel cli => exact hi.cancel cli
  | monitorRegister mon => exact hi.monitorRegister mon
  | monitorUnregister mon => exact hi.monitorUnregister mon
  | notify res =>
    simp only [OnoffOp.enabled, Bool.and_eq_true, Bool.not_eq_true'] at he
    exact hi.notify he.1 he.2 res
  | advance =>
    simp only [OnoffOp.exec]
    split
    · exact hi.locked ‹_›
    · exact hi.unlocked ‹_›
    · exact hi

theorem OnoffInv.run (hi : OnoffInv s) (op : OnoffOp) : OnoffInv (op.run s).1 := by
  unfold OnoffOp.run
  split
  · exact hi.exec ‹_›
  · exact hi

theorem onoffInv_init (hasReset : Bool) : OnoffInv (onoffManagerInit hasReset) :=
  ⟨⟨Nat.two_pow_pos 16, fun _ => rfl, fun h => by simp [onoffManagerInit] at h⟩,
    ⟨rfl, rfl, rfl⟩, rfl, fun _ => ⟨fun _ => rfl, (nomatch ·), fun _ => rfl⟩⟩

theorem OnoffReach.inv {hasReset : Bool} (h : OnoffReach hasReset s) : OnoffInv s :=
  StateMachine.Reachable.inv OnoffInv (fun s (h0 : s = _) => h0 ▸ onoffInv_init hasReset)
    (fun _ _ hi ⟨op, hs⟩ => hs ▸ hi.run op) h

-- refs is non-zero only in ON.
theorem OnoffReach.refs_eq_zero {hasReset : Bool} (h : OnoffReach hasReset s) (hs : s.mgr.state ≠ .on) :
    s.mgr.refs = 0 :=
  h.inv.mgr.refs_on hs

-- While a transition is in flight its state stands, its completion is not yet
-- recorded and no other transition function is about to be called.
theorem OnoffReach.one_transition {hasReset : Bool} (h : OnoffReach hasReset s) (hf : s.inFlight = true) :
    s.mgr.state.transition = true ∧ s.mgr.complete = false ∧ s.loop ≠ some (.locked .complete) ∧
      ∀ w, s.loop = some (.unlocked w) → w.transit = none := by
  have ha := h.inv.atLoop
  obtain ⟨m, l, f⟩ := s
  simp only at hf ⊢
  subst hf
  rcases l with _ | ⟨evt⟩ | ⟨⟨mons, clis, t, st, res⟩⟩
  · obtain ⟨⟨-, hc, -⟩, ht, -⟩ := ha
    exact ⟨ht, hc, nofun, nofun⟩
  · cases evt <;> simp [AtLoop] at ha
  · obtain ⟨-, hw⟩ := ha
    dsimp only at hw
    cases t with
    | some t => simp [InWindow] at hw
    | none =>
      rw [InWindow] at hw
      split at hw
      · exact ⟨‹_›, by simpa using hw.1.symm, nofun, fun _ hw' => by cases hw'; rfl⟩
      · simp at hw

-- With no process_event running and no transition in flight, the manager
-- is settled in a state that meets the demand: OFF with no waiting client,
-- ON with a reference, ERROR with no waiting reset.
theorem onoff_quiescent_meets_demand {hasReset : Bool} (h : OnoffReach hasReset s) (hq : s.loop = none)
    (hf : s.inFlight = false) :
    s.mgr.state.transition = false ∧ (s.mgr.state = .off → s.mgr.clients = []) ∧
      (s.mgr.state = .on → 0 < s.mgr.refs) ∧ (s.mgr.state = .error → s.mgr.clients = []) := by
  have ha := h.inv.atLoop
  obtain ⟨m, l, f⟩ := s
  simp only at hq hf ⊢
  subst hq hf
  obtain ⟨-, ht, hd⟩ := ha
  obtain ⟨hoff, hon, herr⟩ := hd ht
  exact ⟨ht, hoff, fun hs => Nat.pos_of_ne_zero (hon hs), herr⟩

-- A start whose one client is notified, after which process_event returns.
theorem onoff_quiescent_meets_demand_started :
    (runOnoff (onoffManagerInit false)
        [.request 0, .advance, .advance, .advance, .notify 0, .advance, .advance, .advance]).1.loop = none ∧
      (runOnoff (onoffManagerInit false)
        [.request 0, .advance, .advance, .advance, .notify 0, .advance, .advance, .advance]).1.inFlight = false ∧
      (runOnoff (onoffManagerInit false)
        [.request 0, .advance, .advance, .advance, .notify 0, .advance, .advance, .advance]).1.mgr.state = .on ∧
      0 < (runOnoff (onoffManagerInit false)
        [.request 0, .advance, .advance, .advance, .notify 0, .advance, .advance, .advance]).1.mgr.refs := by
  have h0 : OnoffReach false (onoffManagerInit false) := .init rfl
  have hq := onoff_quiescent_meets_demand
    (h0.run [.request 0, .advance, .advance, .advance, .notify 0, .advance, .advance, .advance]) (by decide) (by decide)
  exact ⟨by decide, by decide, by decide, hq.2.2.1 (by decide)⟩

end Zephyr.Onoff
