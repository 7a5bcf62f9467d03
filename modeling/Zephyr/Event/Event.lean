import Zephyr.Lib.WaitQ
import Zephyr.Timeout.Front

namespace Zephyr.Event

open Zephyr.Timeout

def kEventWaitAll : UInt32 := 0x01

def kEventWaitMask : UInt32 := 0x01

def kEventOptionReset : UInt32 := 0x02

def kEventOptionClear : UInt32 := 0x04

def areWaitConditionsMet (desired current waitCondition : UInt32) : UInt32 :=
  let m := current &&& desired
  if waitCondition = kEventWaitAll ∧ m ≠ desired then 0 else m

-- A thread as a k_event wait sees it: not waiting, pended (with a finite
-- timeout or not), unpended by a post (z_pend_curr returns 0) or by its
-- timeout (z_pend_curr returns -EAGAIN).
inductive TState where
  | ready
  | pended (timed : Bool)
  | woken
  | timedOut
  deriving DecidableEq, Repr

-- A k_event_wait call that returned: its request, its return value and the
-- event values its condition was checked against, at entry and then at each
-- post while it pended.
structure Completion where
  desired : UInt32
  options : UInt32
  ret : UInt32
  seen : List UInt32
  deriving DecidableEq, Repr

-- One k_event and the threads that wait on it. `prio` orders wait_q;
-- `tEvents` and `tOptions` are thread->events and thread->event_options;
-- `want`, `seen` and `log` are
-- ghost state: each thread's request, the values it was checked against, and
-- the waits that returned.
structure EventSys where
  events : UInt32
  waitQ : List Nat
  prio : Nat → Int
  tEvents : Nat → UInt32
  tOptions : Nat → UInt32
  state : Nat → TState
  want : Nat → UInt32
  seen : Nat → List UInt32
  log : List Completion

structure WalkData where
  events : UInt32
  clearEvents : UInt32
  head : List Nat

-- event_walk_op under CONFIG_WAITQ_SCALABLE: a thread whose condition holds
-- gets the matched events and joins the list of threads to wake.
def eventWalkOp (s : EventSys) (d : WalkData) (t : Nat) : EventSys × WalkData :=
  let m := areWaitConditionsMet (s.tEvents t) d.events (s.tOptions t &&& kEventWaitMask)
  if m ≠ 0 then
    let clear := if s.tOptions t &&& kEventOptionClear ≠ 0 then d.clearEvents ||| m else d.clearEvents
    ({ s with tEvents := Function.update s.tEvents t m }, { d with clearEvents := clear, head := t :: d.head })
  else (s, d)

def zSchedWaitqWalk (s : EventSys) (d : WalkData) : List Nat → EventSys × WalkData
  | [] => (s, d)
  | t :: ts =>
    let r := eventWalkOp s d t
    zSchedWaitqWalk r.1 r.2 ts

-- event_post_walk_op: each listed thread leaves wait_q and z_pend_curr returns 0 to it.
def eventPostWalkOp (s : EventSys) : List Nat → EventSys
  | [] => s
  | t :: ts => eventPostWalkOp { s with state := Function.update s.state t .woken, waitQ := s.waitQ.erase t } ts

def kEventPostInternal (s : EventSys) (events eventsMask : UInt32) : EventSys × UInt32 :=
  let previousEvents := s.events &&& eventsMask
  let events := (s.events &&& ~~~eventsMask) ||| (events &&& eventsMask)
  let r := zSchedWaitqWalk s ⟨events, 0, []⟩ s.waitQ
  let s := eventPostWalkOp r.1 r.2.head
  ({ s with events := r.2.events &&& ~~~r.2.clearEvents }, previousEvents)

def zImplKEventPost (s : EventSys) (events : UInt32) : EventSys × UInt32 :=
  kEventPostInternal s events events

def zImplKEventSet (s : EventSys) (events : UInt32) : EventSys × UInt32 :=
  kEventPostInternal s events (~~~0)

def zImplKEventSetMasked (s : EventSys) (events eventsMask : UInt32) : EventSys × UInt32 :=
  kEventPostInternal s events eventsMask

def zImplKEventClear (s : EventSys) (events : UInt32) : EventSys × UInt32 :=
  kEventPostInternal s 0 events

-- k_event_wait_internal up to z_pend_curr: `some rv` when it returns at once,
-- `none` when the thread pends.
def kEventWaitInternal (s : EventSys) (t : Nat) (events options : UInt32) (timeout : KTimeout) :
    EventSys × Option UInt32 :=
  if events = 0 then (s, some 0)
  else
    let waitCondition := options &&& kEventWaitMask
    let s := if options &&& kEventOptionReset ≠ 0 then { s with events := 0 } else s
    let rv := areWaitConditionsMet events s.events waitCondition
    if rv ≠ 0 then
      let s := if options &&& kEventOptionClear ≠ 0 then { s with events := s.events &&& ~~~rv } else s
      (s, some rv)
    else if timeout = .rel 0 then (s, some 0)
    else
      let s := { s with
        tEvents := Function.update s.tEvents t events
        tOptions := Function.update s.tOptions t options
        state := Function.update s.state t (.pended (decide (timeout ≠ .forever)))
        waitQ := Zephyr.Lib.waitqAdd s.prio t s.waitQ }
      (s, none)

def zImplKEventWait (s : EventSys) (t : Nat) (events : UInt32) (reset : Bool) (timeout : KTimeout) :
    EventSys × Option UInt32 :=
  kEventWaitInternal s t events (if reset then kEventOptionReset else 0) timeout

def zImplKEventWaitAll (s : EventSys) (t : Nat) (events : UInt32) (reset : Bool) (timeout : KTimeout) :
    EventSys × Option UInt32 :=
  kEventWaitInternal s t events (if reset then kEventOptionReset ||| kEventWaitAll else kEventWaitAll) timeout

def zImplKEventWaitSafe (s : EventSys) (t : Nat) (events : UInt32) (reset : Bool) (timeout : KTimeout) :
    EventSys × Option UInt32 :=
  kEventWaitInternal s t events (if reset then kEventOptionClear ||| kEventOptionReset else kEventOptionClear)
    timeout

def zImplKEventWaitAllSafe (s : EventSys) (t : Nat) (events : UInt32) (reset : Bool) (timeout : KTimeout) :
    EventSys × Option UInt32 :=
  kEventWaitInternal s t events
    (if reset then kEventOptionClear ||| kEventOptionReset ||| kEventWaitAll
     else kEventOptionClear ||| kEventWaitAll) timeout

/-! What a post does -/

-- The condition a waiter states: any of its events, or all of them.
def Satisfied (desired value : UInt32) (all : Bool) : Prop :=
  if all then value &&& desired = desired else value &&& desired ≠ 0

instance (desired value : UInt32) (all : Bool) : Decidable (Satisfied desired value all) := by
  unfold Satisfied
  split <;> infer_instance

def isWaitAll (options : UInt32) : Bool := options &&& kEventWaitMask = kEventWaitAll

theorem areWaitConditionsMet_ne_zero_iff {desired : UInt32} (hd : desired ≠ 0) (value options : UInt32) :
    areWaitConditionsMet desired value (options &&& kEventWaitMask) ≠ 0 ↔
      Satisfied desired value (isWaitAll options) := by
  unfold areWaitConditionsMet Satisfied isWaitAll
  by_cases hall : options &&& kEventWaitMask = kEventWaitAll
  · by_cases hm : value &&& desired = desired <;> simp [hall, hm, hd]
  · simp [hall]

theorem areWaitConditionsMet_of_ne_zero {desired value waitCondition : UInt32}
    (h : areWaitConditionsMet desired value waitCondition ≠ 0) :
    areWaitConditionsMet desired value waitCondition = value &&& desired := by
  simp only [areWaitConditionsMet] at h ⊢
  split_ifs at h ⊢
  · exact absurd rfl h
  · rfl

section Walk

variable (E : UInt32)

-- The events the walk gives thread t when the value is E, 0 if none.
def matchOf (s : EventSys) (t : Nat) : UInt32 :=
  areWaitConditionsMet (s.tEvents t) E (s.tOptions t &&& kEventWaitMask)

def clears (s : EventSys) (t : Nat) : Bool := s.tOptions t &&& kEventOptionClear ≠ 0

-- The union of what the clearing waiters of l receive.
def clearedBy (s : EventSys) : List Nat → UInt32
  | [] => 0
  | t :: ts => (if clears s t then matchOf E s t else 0) ||| clearedBy s ts

theorem eventWalkOp_eq (s : EventSys) (d : WalkData) (t : Nat) (hE : d.events = E) :
    eventWalkOp s d t =
      if matchOf E s t ≠ 0 then
        ({ s with tEvents := Function.update s.tEvents t (matchOf E s t) },
          { d with clearEvents := d.clearEvents ||| (if clears s t then matchOf E s t else 0),
                   head := t :: d.head })
      else (s, d) := by
  subst hE
  unfold eventWalkOp matchOf clears
  by_cases hm : areWaitConditionsMet (s.tEvents t) d.events (s.tOptions t &&& kEventWaitMask) = 0
  · simp [hm]
  · by_cases hc : s.tOptions t &&& kEventOptionClear = 0 <;> simp [hm, hc]

theorem matchOf_update {s : EventSys} {t u : Nat} (h : u ≠ t) (m : UInt32) :
    matchOf E { s with tEvents := Function.update s.tEvents t m } u = matchOf E s u := by
  simp [matchOf, Function.update_of_ne h]

theorem clearedBy_update {s : EventSys} {t : Nat} {l : List Nat} (h : t ∉ l) (m : UInt32) :
    clearedBy E { s with tEvents := Function.update s.tEvents t m } l = clearedBy E s l := by
  induction l with
  | nil => rfl
  | cons u us ih =>
    have hu : u ≠ t := fun e => h (e ▸ List.mem_cons_self ..)
    have hus : t ∉ us := fun hm => h (List.mem_cons_of_mem _ hm)
    simp only [clearedBy, ih hus, matchOf_update E hu]
    rfl

-- What the clearing waiters take is the union of their matches.
theorem clearedBy_eq_foldr (s : EventSys) (l : List Nat) :
    clearedBy E s l =
      ((l.filter fun t => clears s t ∧ matchOf E s t ≠ 0).map (matchOf E s)).foldr (· ||| ·) 0 := by
  induction l with
  | nil => rfl
  | cons t ts ih =>
    rw [clearedBy, ih]
    by_cases hc : clears s t = true <;> by_cases hm : matchOf E s t = 0 <;> simp [hc, hm]

-- The walk over a wait queue without repeats: each thread is matched against
-- the same value E, the matched ones in reverse order lead the list to wake.
theorem zSchedWaitqWalk_spec (s : EventSys) (d : WalkData) (hE : d.events = E) (l : List Nat) (hl : l.Nodup) :
    (zSchedWaitqWalk s d l).1 =
        { s with tEvents := fun t => if t ∈ l ∧ matchOf E s t ≠ 0 then matchOf E s t else s.tEvents t } ∧
      (zSchedWaitqWalk s d l).2.events = E ∧
      (zSchedWaitqWalk s d l).2.clearEvents = d.clearEvents ||| clearedBy E s l ∧
      (zSchedWaitqWalk s d l).2.head = (l.filter fun t => matchOf E s t ≠ 0).reverse ++ d.head := by
  induction l generalizing s d with
  | nil => simp [zSchedWaitqWalk, clearedBy, hE, UInt32.or_zero]
  | cons t ts ih =>
    obtain ⟨ht, hts⟩ := List.nodup_cons.1 hl
    rw [zSchedWaitqWalk, eventWalkOp_eq E s d t hE]
    by_cases hm : matchOf E s t = 0
    · rw [if_neg (not_not.2 hm)]
      obtain ⟨h1, h2, h3, h4⟩ := ih s d hE hts
      refine ⟨?_, h2, ?_, ?_⟩
      · rw [h1]
        congr 1
        funext u
        by_cases hu : u = t
        · subst hu; simp [hm]
        · simp [hu]
      · rw [h3, clearedBy, hm, ite_self, UInt32.zero_or]
      · rw [h4, List.filter_cons_of_neg (by simp [hm])]
    · rw [if_pos hm]
      obtain ⟨h1, h2, h3, h4⟩ := ih { s with tEvents := Function.update s.tEvents t (matchOf E s t) }
        { d with clearEvents := d.clearEvents ||| (if clears s t then matchOf E s t else 0), head := t :: d.head }
        hE hts
      refine ⟨?_, h2, ?_, ?_⟩
      · rw [h1]
        congr 1
        funext u
        by_cases hu : u = t
        · subst hu; simp [ht, hm]
        · simp [hu, matchOf_update E hu]
      · rw [h3, clearedBy_update E ht, clearedBy, UInt32.or_assoc]
      · have hf : ts.filter (fun u => decide
              (matchOf E { s with tEvents := Function.update s.tEvents t (matchOf E s t) } u ≠ 0)) =
            ts.filter (fun u => decide (matchOf E s u ≠ 0)) :=
          List.filter_congr fun u hu => by rw [matchOf_update E (by rintro rfl; exact ht hu)]
        rw [h4, hf, List.filter_cons_of_pos (by simp [hm]), List.reverse_cons, List.append_assoc,
          List.singleton_append]

end Walk

theorem eventPostWalkOp_spec (s : EventSys) (l : List Nat) (hq : s.waitQ.Nodup) :
    (eventPostWalkOp s l).state = (fun t => if t ∈ l then .woken else s.state t) ∧
      (eventPostWalkOp s l).waitQ = s.waitQ.filter (fun t => t ∉ l) ∧
      (eventPostWalkOp s l).events = s.events ∧ (eventPostWalkOp s l).tEvents = s.tEvents ∧
      (eventPostWalkOp s l).tOptions = s.tOptions ∧ (eventPostWalkOp s l).want = s.want ∧
      (eventPostWalkOp s l).seen = s.seen ∧ (eventPostWalkOp s l).log = s.log := by
  induction l generalizing s with
  | nil => simp [eventPostWalkOp]
  | cons t ts ih =>
    let s' : EventSys := { s with state := Function.update s.state t .woken, waitQ := s.waitQ.erase t }
    obtain ⟨h1, h2, h3, h4, h5, h6, h7, h8⟩ := ih s' (hq.erase t)
    refine ⟨?_, ?_, h3, h4, h5, h6, h7, h8⟩
    · change (eventPostWalkOp s' ts).state = _
      rw [h1]
      funext u
      by_cases hu : u = t <;> by_cases hus : u ∈ ts <;> simp [s', hu, hus]
    · change (eventPostWalkOp s' ts).waitQ = _
      rw [h2, show s'.waitQ = s.waitQ.erase t from rfl, hq.erase_eq_filter, List.filter_filter]
      congr 1
      funext u
      by_cases hu : u = t <;> simp [hu]

-- k_event_post_internal on any object whose wait queue has no repeats: every
-- waiter is matched against the same new value E', the matched ones leave
-- wait_q with their match, and the stored value loses what clearing waiters took.
theorem kEventPostInternal_spec (s : EventSys) (events eventsMask : UInt32) (hq : s.waitQ.Nodup)
    {E' : UInt32} (hE : (s.events &&& ~~~eventsMask) ||| (events &&& eventsMask) = E') :
    (kEventPostInternal s events eventsMask).2 = s.events &&& eventsMask ∧
      (kEventPostInternal s events eventsMask).1.events = E' &&& ~~~clearedBy E' s s.waitQ ∧
      (kEventPostInternal s events eventsMask).1.waitQ = s.waitQ.filter (fun t => matchOf E' s t = 0) ∧
      (∀ t, (kEventPostInternal s events eventsMask).1.state t =
        if t ∈ s.waitQ ∧ matchOf E' s t ≠ 0 then .woken else s.state t) ∧
      (∀ t, (kEventPostInternal s events eventsMask).1.tEvents t =
        if t ∈ s.waitQ ∧ matchOf E' s t ≠ 0 then matchOf E' s t else s.tEvents t) ∧
      (kEventPostInternal s events eventsMask).1.tOptions = s.tOptions ∧
      (kEventPostInternal s events eventsMask).1.want = s.want ∧
      (kEventPostInternal s events eventsMask).1.seen = s.seen ∧
      (kEventPostInternal s events eventsMask).1.log = s.log := by
  dsimp only [kEventPostInternal]
  rw [hE]
  obtain ⟨h1, h2, h3, h4⟩ := zSchedWaitqWalk_spec E' s ⟨E', 0, []⟩ rfl s.waitQ hq
  have hq' : (zSchedWaitqWalk s ⟨E', 0, []⟩ s.waitQ).1.waitQ.Nodup := by rw [h1]; exact hq
  obtain ⟨p1, p2, p3, p4, p5, p6, p7, p8⟩ :=
    eventPostWalkOp_spec (zSchedWaitqWalk s ⟨E', 0, []⟩ s.waitQ).1 (zSchedWaitqWalk s ⟨E', 0, []⟩ s.waitQ).2.head hq'
  -- first the post walk, then the walk it reads from
  simp only [p1, p2, p4, p5, p6, p7, p8]
  simp only [h1, h2, h3, h4, UInt32.zero_or, List.append_nil, List.mem_reverse, List.mem_filter,
    decide_eq_true_eq]
  refine ⟨trivial, trivial, ?_, fun _ => trivial, fun _ => trivial, trivial, trivial, trivial, trivial⟩
  exact List.filter_congr fun t ht => by simp [ht]

section Post

variable (s : EventSys) (events eventsMask : UInt32) {E' : UInt32}
  (hE : (s.events &&& ~~~eventsMask) ||| (events &&& eventsMask) = E')
  (hq : s.waitQ.Nodup) (hp : ∀ t ∈ s.waitQ, ∃ b, s.state t = .pended b)

include hE hq hp

-- When every queued thread is pended, the post wakes exactly the ones it matches.
theorem kEventPostInternal_woken_iff {t : Nat} (ht : t ∈ s.waitQ) :
    (kEventPostInternal s events eventsMask).1.state t = .woken ↔ matchOf E' s t ≠ 0 := by
  obtain ⟨b, hb⟩ := hp t ht
  rw [(kEventPostInternal_spec s events eventsMask hq hE).2.2.2.1 t]
  by_cases hm : matchOf E' s t = 0
  · simp [hm, hb]
  · simp [hm, ht]

-- Each woken waiter is left holding what it matched, which its wait returns.
theorem kEventPostInternal_tEvents_of_woken {t : Nat} (ht : t ∈ s.waitQ)
    (hw : (kEventPostInternal s events eventsMask).1.state t = .woken) :
    (kEventPostInternal s events eventsMask).1.tEvents t = E' &&& s.tEvents t := by
  have hm := (kEventPostInternal_woken_iff s events eventsMask hE hq hp ht).1 hw
  rw [(kEventPostInternal_spec s events eventsMask hq hE).2.2.2.2.1 t, if_pos ⟨ht, hm⟩]
  exact areWaitConditionsMet_of_ne_zero hm

-- A waiter the post does not match keeps its place and its request.
omit hp in
theorem kEventPostInternal_unmatched {t : Nat} (ht : t ∈ s.waitQ) (hm : matchOf E' s t = 0) :
    t ∈ (kEventPostInternal s events eventsMask).1.waitQ ∧
      (kEventPostInternal s events eventsMask).1.state t = s.state t ∧
      (kEventPostInternal s events eventsMask).1.tEvents t = s.tEvents t ∧
      (kEventPostInternal s events eventsMask).1.tOptions t = s.tOptions t := by
  obtain ⟨-, -, hwq, hst, hte, hto, -⟩ := kEventPostInternal_spec s events eventsMask hq hE
  have hn : ¬(t ∈ s.waitQ ∧ matchOf E' s t ≠ 0) := fun h => h.2 hm
  refine ⟨?_, by rw [hst t, if_neg hn], by rw [hte t, if_neg hn], by rw [hto]⟩
  rw [hwq]
  exact List.mem_filter.2 ⟨ht, by simpa using hm⟩

-- The stored value loses exactly what the woken clearing waiters were given.
theorem kEventPostInternal_events_eq :
    (kEventPostInternal s events eventsMask).1.events =
      E' &&& ~~~((s.waitQ.filter fun t =>
          clears s t ∧ (kEventPostInternal s events eventsMask).1.state t = .woken).map
        (kEventPostInternal s events eventsMask).1.tEvents).foldr (· ||| ·) 0 := by
  rw [(kEventPostInternal_spec s events eventsMask hq hE).2.1, clearedBy_eq_foldr]
  -- on the queue, woken means matched, and the thread holds its match
  have hf : (s.waitQ.filter fun t => clears s t ∧ (kEventPostInternal s events eventsMask).1.state t = .woken) =
      s.waitQ.filter fun t => clears s t ∧ matchOf E' s t ≠ 0 :=
    List.filter_congr fun t ht => by simp only [kEventPostInternal_woken_iff s events eventsMask hE hq hp ht]
  have hm : ∀ t ∈ s.waitQ.filter (fun t => clears s t ∧ matchOf E' s t ≠ 0),
      (kEventPostInternal s events eventsMask).1.tEvents t = matchOf E' s t := fun t ht => by
    obtain ⟨ht, hc⟩ := List.mem_filter.1 ht
    have hc : clears s t = true ∧ matchOf E' s t ≠ 0 := of_decide_eq_true hc
    rw [(kEventPostInternal_spec s events eventsMask hq hE).2.2.2.2.1 t, if_pos ⟨ht, hc.2⟩]
  rw [hf, List.map_congr_left hm]

end Post

end Zephyr.Event
