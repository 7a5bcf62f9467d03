import Zephyr.Event.Event
import Zephyr.Lib.Reach

namespace Zephyr.Event

open Zephyr.Timeout

-- The calls on one k_event: a wait by a thread (k_event_wait, _all, _safe and
-- _all_safe differ only in options), a post (k_event_post, _set, _set_masked
-- and _clear differ only in events and mask), the timeout of a pended waiter,
-- and the return of a waiter that z_pend_curr released.
inductive EvOp where
  | wait (t : Nat) (events options : UInt32) (tmo : KTimeout)
  | post (events eventsMask : UInt32)
  | timeout (t : Nat)
  | resume (t : Nat)
  deriving DecidableEq, Repr

-- The value k_event_wait_internal tests first: the stored one after K_EVENT_OPTION_RESET.
def entryEvents (s : EventSys) (options : UInt32) : UInt32 :=
  if options &&& kEventOptionReset ≠ 0 then 0 else s.events

-- Ghost: every pended waiter is checked against the value v of a post.
def seeValue (s : EventSys) (v : UInt32) : EventSys :=
  { s with seen := fun t => if t ∈ s.waitQ then s.seen t ++ [v] else s.seen t }

def logReturn (s : EventSys) (c : Completion) : EventSys := { s with log := s.log ++ [c] }

-- A thread whose z_pend_curr returned 0 gets thread->events; one whose
-- timeout unpended it gets -EAGAIN from z_pend_curr and returns rv = 0.
def EvOp.apply (s : EventSys) : EvOp → EventSys
  | .wait t events options tmo =>
    let r := kEventWaitInternal s t events options tmo
    match r.2 with
    | some rv => logReturn r.1 ⟨events, options, rv, [entryEvents s options]⟩
    | none =>
      { r.1 with
        want := Function.update r.1.want t events
        seen := Function.update r.1.seen t [entryEvents s options] }
  | .post events eventsMask =>
    let v := (s.events &&& ~~~eventsMask) ||| (events &&& eventsMask)
    (kEventPostInternal (seeValue s v) events eventsMask).1
  | .timeout t =>
    match s.state t with
    | .pended true => { s with state := Function.update s.state t .timedOut, waitQ := s.waitQ.erase t }
    | _ => s
  | .resume t =>
    match s.state t with
    | .woken =>
      logReturn { s with state := Function.update s.state t .ready } ⟨s.want t, s.tOptions t, s.tEvents t, s.seen t⟩
    | .timedOut =>
      logReturn { s with state := Function.update s.state t .ready } ⟨s.want t, s.tOptions t, 0, s.seen t⟩
    | _ => s

-- Only a thread that is not blocked calls k_event_wait.
def EvOp.allowed (s : EventSys) : EvOp → Bool
  | .wait t _ _ _ => s.state t = .ready
  | .post _ _ | .timeout _ | .resume _ => true

def EvStep (s s' : EventSys) : Prop := ∃ op : EvOp, op.allowed s = true ∧ s' = op.apply s

-- k_event_init: no events, no waiters.
def eventSysInit (prio : Nat → Int) : EventSys :=
  ⟨0, [], prio, fun _ => 0, fun _ => 0, fun _ => .ready, fun _ => 0, fun _ => [], []⟩

def EvReach : EventSys → Prop :=
  StateMachine.Reachable (fun s => ∃ prio, s = eventSysInit prio) EvStep

/-! The invariant -/

-- A waiter's condition failed at every value it was checked against.
def Unmet (s : EventSys) (t : Nat) : Prop :=
  ∀ v ∈ s.seen t, areWaitConditionsMet (s.want t) v (s.tOptions t &&& kEventWaitMask) = 0

-- A returned wait got a match at one of the values it was checked against,
-- or 0 with its condition failed at all of them.
def Completion.Sound (c : Completion) : Prop :=
  (c.ret ≠ 0 → ∃ v ∈ c.seen, c.ret = areWaitConditionsMet c.desired v (c.options &&& kEventWaitMask)) ∧
    (c.ret = 0 → ∀ v ∈ c.seen, areWaitConditionsMet c.desired v (c.options &&& kEventWaitMask) = 0)

structure EvInv (s : EventSys) : Prop where
  nodup : s.waitQ.Nodup
  mem_waitQ : ∀ t, t ∈ s.waitQ ↔ ∃ b, s.state t = .pended b
  pended : ∀ t b, s.state t = .pended b → s.tEvents t = s.want t ∧ Unmet s t
  woken : ∀ t, s.state t = .woken → s.tEvents t ≠ 0 ∧
    ∃ v ∈ s.seen t, s.tEvents t = areWaitConditionsMet (s.want t) v (s.tOptions t &&& kEventWaitMask)
  timedOut : ∀ t, s.state t = .timedOut → Unmet s t
  log : ∀ c ∈ s.log, c.Sound

theorem EvInv.logReturn {s : EventSys} (h : EvInv s) {c : Completion} (hc : c.Sound) :
    EvInv (logReturn s c) := by
  refine ⟨h.nodup, h.mem_waitQ, h.pended, h.woken, h.timedOut, fun c' hc' => ?_⟩
  rcases List.mem_append.1 hc' with hc' | hc'
  · exact h.log c' hc'
  · rw [List.mem_singleton.1 hc']
    exact hc

theorem EvInv.of_events {s : EventSys} (h : EvInv s) (e : UInt32) : EvInv { s with events := e } :=
  ⟨h.nodup, h.mem_waitQ, h.pended, h.woken, h.timedOut, h.log⟩

theorem not_mem_waitQ_of_ready {s : EventSys} (h : EvInv s) {t : Nat} (ht : s.state t = .ready) :
    t ∉ s.waitQ := by
  rw [h.mem_waitQ t, ht]
  simp

/-! The wait call -/

theorem reset_eq_entryEvents (s : EventSys) (options : UInt32) :
    (if options &&& kEventOptionReset ≠ 0 then { s with events := 0 } else s) =
      { s with events := entryEvents s options } := by
  unfold entryEvents
  split <;> rfl

-- A wait that returns at once returns a match at its entry value, or 0 with
-- its condition failed there, and changes at most the stored value.
theorem kEventWaitInternal_some {s : EventSys} {t : Nat} {events options : UInt32} {tmo : KTimeout}
    {rv : UInt32} (h : (kEventWaitInternal s t events options tmo).2 = some rv) :
    (kEventWaitInternal s t events options tmo).1 =
        { s with events := (kEventWaitInternal s t events options tmo).1.events } ∧
      Completion.Sound ⟨events, options, rv, [entryEvents s options]⟩ := by
  simp only [kEventWaitInternal, reset_eq_entryEvents] at h ⊢
  unfold Completion.Sound
  by_cases he : events = 0
  · simp only [he, if_true, Option.some.injEq] at h
    subst h
    simp [he, areWaitConditionsMet]
  · -- the entry test: a match returns it, no match returns 0 only under K_NO_WAIT
    by_cases hm : areWaitConditionsMet events (entryEvents s options) (options &&& kEventWaitMask) = 0
    · by_cases hn : tmo = .rel 0
      · simp only [he, hm, hn, if_false, if_true, ne_eq, not_true_eq_false, Option.some.injEq] at h
        subst h
        simp [he, hm, hn]
      · simp [he, hm, hn] at h
    · simp only [he, hm, if_false, if_true, ne_eq, not_false_eq_true, Option.some.injEq] at h
      subst h
      by_cases hc : options &&& kEventOptionClear = 0 <;> simp [he, hm, hc]

-- A wait that pends has a request its entry value does not satisfy, and
-- records it in the thread.
theorem kEventWaitInternal_none {s : EventSys} {t : Nat} {events options : UInt32} {tmo : KTimeout}
    (h : (kEventWaitInternal s t events options tmo).2 = none) :
    areWaitConditionsMet events (entryEvents s options) (options &&& kEventWaitMask) = 0 ∧
      (kEventWaitInternal s t events options tmo).1 =
        { s with
          events := entryEvents s options
          tEvents := Function.update s.tEvents t events
          tOptions := Function.update s.tOptions t options
          state := Function.update s.state t (.pended (decide (tmo ≠ .forever)))
          waitQ := Zephyr.Lib.waitqAdd s.prio t s.waitQ } := by
  simp only [kEventWaitInternal, reset_eq_entryEvents] at h ⊢
  by_cases he : events = 0
  · simp [he] at h
  · by_cases hm : areWaitConditionsMet events (entryEvents s options) (options &&& kEventWaitMask) = 0
    · by_cases hn : tmo = .rel 0
      · simp [he, hm, hn] at h
      · simp [he, hm, hn]
    · simp [he, hm] at h

theorem EvInv.pend {s : EventSys} (h : EvInv s) {t : Nat} (ht : s.state t = .ready)
    {events options v : UInt32} (b : Bool)
    (hm : areWaitConditionsMet events v (options &&& kEventWaitMask) = 0) :
    EvInv { s with
      tEvents := Function.update s.tEvents t events
      tOptions := Function.update s.tOptions t options
      state := Function.update s.state t (.pended b)
      waitQ := Zephyr.Lib.waitqAdd s.prio t s.waitQ
      want := Function.update s.want t events
      seen := Function.update s.seen t [v] } := by
  have hnot := not_mem_waitQ_of_ready h ht
  refine ⟨?_, fun u => ?_, fun u b' hu => ?_, fun u hu => ?_, fun u hu => ?_, h.log⟩
  · exact (Zephyr.Lib.perm_waitqAdd s.prio t s.waitQ).nodup_iff.2 (List.nodup_cons.2 ⟨hnot, h.nodup⟩)
  · rw [Zephyr.Lib.mem_waitqAdd]
    by_cases hut : u = t
    · simp [hut]
    · simpa [hut] using h.mem_waitQ u
  · by_cases hut : u = t
    · subst hut
      refine ⟨by simp, fun w hw => ?_⟩
      simp only [Function.update_self, List.mem_singleton] at hw ⊢
      rw [hw]
      exact hm
    · simp only [Function.update_of_ne hut] at hu ⊢
      simpa [Unmet, Function.update_of_ne hut] using h.pended u b' hu
  · by_cases hut : u = t
    · simp [hut] at hu
    · simp only [Function.update_of_ne hut] at hu ⊢
      exact h.woken u hu
  · by_cases hut : u = t
    · simp [hut] at hu
    · simp only [Function.update_of_ne hut] at hu ⊢
      simpa [Unmet, Function.update_of_ne hut] using h.timedOut u hu

theorem EvInv.wait {s : EventSys} (h : EvInv s) {t : Nat} (ht : s.state t = .ready)
    (events options : UInt32) (tmo : KTimeout) :
    EvInv ((EvOp.wait t events options tmo).apply s) := by
  simp only [EvOp.apply]
  split
  · next rv hr =>
    obtain ⟨e, hc⟩ := kEventWaitInternal_some hr
    rw [e]
    exact (h.of_events _).logReturn hc
  · next hr =>
    obtain ⟨hm, e⟩ := kEventWaitInternal_none hr
    rw [e]
    exact (h.of_events (entryEvents s options)).pend ht _ hm

/-! The post call -/

@[simp] theorem seeValue_waitQ (s : EventSys) (v : UInt32) : (seeValue s v).waitQ = s.waitQ := rfl

@[simp] theorem seeValue_state (s : EventSys) (v : UInt32) : (seeValue s v).state = s.state := rfl

@[simp] theorem seeValue_tEvents (s : EventSys) (v : UInt32) : (seeValue s v).tEvents = s.tEvents := rfl

@[simp] theorem seeValue_tOptions (s : EventSys) (v : UInt32) : (seeValue s v).tOptions = s.tOptions := rfl

@[simp] theorem seeValue_want (s : EventSys) (v : UInt32) : (seeValue s v).want = s.want := rfl

@[simp] theorem seeValue_log (s : EventSys) (v : UInt32) : (seeValue s v).log = s.log := rfl

@[simp] theorem matchOf_seeValue (E : UInt32) (s : EventSys) (v : UInt32) (t : Nat) :
    matchOf E (seeValue s v) t = matchOf E s t := rfl

theorem EvInv.post {s : EventSys} (h : EvInv s) (events eventsMask : UInt32) :
    EvInv ((EvOp.post events eventsMask).apply s) := by
  simp only [EvOp.apply]
  generalize hv : (s.events &&& ~~~eventsMask) ||| (events &&& eventsMask) = v
  -- the value the walk matches against is the one the ghost recorded
  have hE : ((seeValue s v).events &&& ~~~eventsMask) ||| (events &&& eventsMask) = v := hv
  obtain ⟨-, -, hq, hst, hte, hto, hw, hse, hl⟩ :=
    kEventPostInternal_spec (seeValue s v) events eventsMask h.nodup hE
  generalize (kEventPostInternal (seeValue s v) events eventsMask).1 = r at hq hst hte hto hw hse hl ⊢
  -- seeValue only adds to seen, so the walk reads s itself
  replace hq : r.waitQ = s.waitQ.filter (fun t => matchOf v s t = 0) := hq
  replace hst : ∀ u, r.state u = if u ∈ s.waitQ ∧ matchOf v s u ≠ 0 then .woken else s.state u := hst
  replace hte : ∀ u, r.tEvents u = if u ∈ s.waitQ ∧ matchOf v s u ≠ 0 then matchOf v s u else s.tEvents u :=
    hte
  replace hto : r.tOptions = s.tOptions := hto
  replace hw : r.want = s.want := hw
  replace hl : r.log = s.log := hl
  have hseen : ∀ u, u ∉ s.waitQ → (seeValue s v).seen u = s.seen u := fun u hu => by simp [seeValue, hu]
  refine ⟨?_, fun u => ?_, fun u b hu => ?_, fun u hu => ?_, fun u hu => ?_, ?_⟩
  · rw [hq]
    exact h.nodup.filter _
  · rw [hq, List.mem_filter, hst u]
    by_cases hu : u ∈ s.waitQ <;> by_cases hm : matchOf v s u = 0 <;>
      simp [hu, hm, (h.mem_waitQ u).symm]
  · rw [hst u] at hu
    have hn : ¬(u ∈ s.waitQ ∧ matchOf v s u ≠ 0) := fun hc => by simp [hc] at hu
    rw [if_neg hn] at hu
    change s.state u = .pended b at hu
    have hmem : u ∈ s.waitQ := (h.mem_waitQ u).2 ⟨b, hu⟩
    have hm : matchOf v s u = 0 := by simpa [hmem] using hn
    obtain ⟨hte0, hun⟩ := h.pended u b hu
    refine ⟨by rw [hte u, if_neg hn, hw]; exact hte0, fun w hw' => ?_⟩
    rw [hse] at hw'
    rw [hw, hto]
    simp only [seeValue, hmem, if_true, List.mem_append, List.mem_singleton] at hw'
    rcases hw' with hw' | rfl
    · exact hun w hw'
    · rw [← hte0]
      exact hm
  · rw [hst u] at hu
    rw [hte u, hw, hto, hse]
    by_cases hc : u ∈ s.waitQ ∧ matchOf v s u ≠ 0
    · rw [if_pos hc]
      -- a matched waiter was pended, so its thread->events is its request
      obtain ⟨b, hb⟩ := (h.mem_waitQ u).1 hc.1
      refine ⟨hc.2, v, by simp [seeValue, hc.1], ?_⟩
      rw [matchOf, (h.pended u b hb).1]
    · rw [if_neg hc] at hu ⊢
      obtain ⟨hne, w, hw', he⟩ := h.woken u hu
      have hu' : u ∉ s.waitQ := by rw [h.mem_waitQ u, show s.state u = .woken from hu]; simp
      exact ⟨hne, w, by rw [hseen u hu']; exact hw', he⟩
  · rw [hst u] at hu
    have hn : ¬(u ∈ s.waitQ ∧ matchOf v s u ≠ 0) := fun hc => by simp [hc] at hu
    rw [if_neg hn] at hu
    have hu' : u ∉ s.waitQ := by rw [h.mem_waitQ u, show s.state u = .timedOut from hu]; simp
    intro w hw'
    rw [hse, hseen u hu'] at hw'
    rw [hw, hto]
    exact h.timedOut u hu w hw'
  · rw [hl]
    exact h.log

/-! Timeout and return -/

theorem EvInv.timeout {s : EventSys} (h : EvInv s) (t : Nat) : EvInv ((EvOp.timeout t).apply s) := by
  simp only [EvOp.apply]
  split
  · next ht =>
    refine ⟨h.nodup.erase t, fun u => ?_, fun u b hu => ?_, fun u hu => ?_, fun u hu => ?_, h.log⟩
    · rw [h.nodup.mem_erase_iff]
      by_cases hut : u = t
      · simp [hut]
      · simpa [hut] using h.mem_waitQ u
    · by_cases hut : u = t
      · simp [hut] at hu
      · simp only [Function.update_of_ne hut] at hu
        exact h.pended u b hu
    · by_cases hut : u = t
      · simp [hut] at hu
      · simp only [Function.update_of_ne hut] at hu
        exact h.woken u hu
    · -- the timed out waiter was pended, so nothing it saw met its condition
      by_cases hut : u = t
      · rw [hut]
        exact (h.pended t true ht).2
      · simp only [Function.update_of_ne hut] at hu
        exact h.timedOut u hu
  · exact h

theorem EvInv.setReady {s : EventSys} (h : EvInv s) {t : Nat} (ht : ∀ b, s.state t ≠ .pended b) :
    EvInv { s with state := Function.update s.state t .ready } := by
  have hnot : t ∉ s.waitQ := fun hm => by
    obtain ⟨b, hb⟩ := (h.mem_waitQ t).1 hm
    exact ht b hb
  refine ⟨h.nodup, fun u => ?_, fun u b hu => ?_, fun u hu => ?_, fun u hu => ?_, h.log⟩
  · by_cases hut : u = t
    · subst hut
      simp [hnot]
    · simpa [hut] using h.mem_waitQ u
  · by_cases hut : u = t
    · simp [hut] at hu
    · simp only [Function.update_of_ne hut] at hu
      exact h.pended u b hu
  · by_cases hut : u = t
    · simp [hut] at hu
    · simp only [Function.update_of_ne hut] at hu
      exact h.woken u hu
  · by_cases hut : u = t
    · simp [hut] at hu
    · simp only [Function.update_of_ne hut] at hu
      exact h.timedOut u hu

theorem EvInv.resume {s : EventSys} (h : EvInv s) (t : Nat) : EvInv ((EvOp.resume t).apply s) := by
  simp only [EvOp.apply]
  split
  · next ht =>
    obtain ⟨hne, v, hv, he⟩ := h.woken t ht
    exact (h.setReady (by simp [ht])).logReturn ⟨fun _ => ⟨v, hv, he⟩, fun h0 => absurd h0 hne⟩
  · next ht =>
    exact (h.setReady (by simp [ht])).logReturn ⟨fun h0 => absurd rfl h0, fun _ => h.timedOut t ht⟩
  · exact h

theorem EvInv.step {s s' : EventSys} (h : EvInv s) (hs : EvStep s s') : EvInv s' := by
  obtain ⟨op, hop, rfl⟩ := hs
  cases op with
  | wait t events options tmo => exact h.wait (by simpa [EvOp.allowed] using hop) events options tmo
  | post events eventsMask => exact h.post events eventsMask
  | timeout t => exact h.timeout t
  | resume t => exact h.resume t

theorem evInv_init (prio : Nat → Int) : EvInv (eventSysInit prio) := by
  refine ⟨List.nodup_nil, fun t => ?_, fun t b ht => ?_, fun t ht => ?_, fun t ht => ?_, fun c hc => ?_⟩ <;>
    simp_all [eventSysInit]

theorem EvReach.inv {s : EventSys} (hr : EvReach s) : EvInv s :=
  StateMachine.Reachable.inv _ (fun _ ⟨prio, e⟩ => e ▸ evInv_init prio) (fun _ _ h hs => h.step hs) hr

/-! What the calls return -/

-- A sound completion with a nonempty request, in the terms of the condition a waiter states.
theorem Completion.Sound.satisfied {c : Completion} (hc : c.Sound) (hd : c.desired ≠ 0) :
    (c.ret ≠ 0 → ∃ v ∈ c.seen, c.ret = v &&& c.desired ∧ Satisfied c.desired v (isWaitAll c.options)) ∧
      (c.ret = 0 → ∀ v ∈ c.seen, ¬Satisfied c.desired v (isWaitAll c.options)) := by
  refine ⟨fun hr => ?_, fun hr v hv => ?_⟩
  · obtain ⟨v, hv, he⟩ := hc.1 hr
    have hm : areWaitConditionsMet c.desired v (c.options &&& kEventWaitMask) ≠ 0 := he ▸ hr
    exact ⟨v, hv, he.trans (areWaitConditionsMet_of_ne_zero hm), (areWaitConditionsMet_ne_zero_iff hd _ _).1 hm⟩
  · rw [← areWaitConditionsMet_ne_zero_iff hd, not_not]
    exact hc.2 hr v hv

theorem k_event_post_wakes_exactly_satisfied :
    (∀ (s : EventSys) (events eventsMask E' : UInt32), s.waitQ.Nodup →
      (∀ t ∈ s.waitQ, ∃ b, s.state t = .pended b) →
      E' = (s.events &&& ~~~eventsMask) ||| (events &&& eventsMask) →
      (kEventPostInternal s events eventsMask).2 = s.events &&& eventsMask ∧
      (∀ t ∈ s.waitQ, s.tEvents t ≠ 0 →
        ((kEventPostInternal s events eventsMask).1.state t = .woken ↔
          Satisfied (s.tEvents t) E' (isWaitAll (s.tOptions t)))) ∧
      (∀ t ∈ s.waitQ, (kEventPostInternal s events eventsMask).1.state t = .woken →
        (kEventPostInternal s events eventsMask).1.tEvents t = E' &&& s.tEvents t) ∧
      (∀ t ∈ s.waitQ, (kEventPostInternal s events eventsMask).1.state t ≠ .woken →
        t ∈ (kEventPostInternal s events eventsMask).1.waitQ ∧
          (kEventPostInternal s events eventsMask).1.state t = s.state t ∧
          (kEventPostInternal s events eventsMask).1.tEvents t = s.tEvents t ∧
          (kEventPostInternal s events eventsMask).1.tOptions t = s.tOptions t) ∧
      (kEventPostInternal s events eventsMask).1.events =
        E' &&& ~~~((s.waitQ.filter fun t =>
            clears s t ∧ (kEventPostInternal s events eventsMask).1.state t = .woken).map
          (kEventPostInternal s events eventsMask).1.tEvents).foldr (· ||| ·) 0) ∧
    (∀ s, EvReach s → ∀ c ∈ s.log, c.desired ≠ 0 →
      (c.ret ≠ 0 → ∃ v ∈ c.seen, c.ret = v &&& c.desired ∧ Satisfied c.desired v (isWaitAll c.options)) ∧
      (c.ret = 0 → ∀ v ∈ c.seen, ¬Satisfied c.desired v (isWaitAll c.options))) := by
  refine ⟨fun s events eventsMask E' hq hp hE => ?_, fun s hr c hc hd => (hr.inv.log c hc).satisfied hd⟩
  have hE' := hE.symm
  have hwoken := fun t (ht : t ∈ s.waitQ) => kEventPostInternal_woken_iff s events eventsMask hE' hq hp ht
  refine ⟨(kEventPostInternal_spec s events eventsMask hq hE').1, fun t ht hd => ?_,
    fun t ht hw => kEventPostInternal_tEvents_of_woken s events eventsMask hE' hq hp ht hw,
    fun t ht hw => ?_, kEventPostInternal_events_eq s events eventsMask hE' hq hp⟩
  · rw [hwoken t ht]
    exact areWaitConditionsMet_ne_zero_iff hd _ _
  · have hm : matchOf E' s t = 0 := by simpa using mt (hwoken t ht).2 hw
    exact kEventPostInternal_unmatched s events eventsMask hE' hq ht hm

end Zephyr.Event
