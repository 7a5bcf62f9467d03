import Zephyr.Msgq.Deque
import Zephyr.Lib.Reach

namespace Zephyr.Msgq

open Zephyr.Lib

variable {α : Type}

-- The calls on one message queue: k_msgq_put, k_msgq_put_front and k_msgq_get by a
-- thread, k_msgq_purge, and the timeout of a thread pended in one of them.
inductive MsgqOp (α : Type) where
  | put (t : Nat) (data : α) (wait : Bool)
  | putFront (t : Nat) (data : α)
  | get (t : Nat) (data : α) (wait : Bool)
  | purge
  | timeout (t : Nat)

def MsgqOp.apply (s : MsgqSys α) : MsgqOp α → MsgqSys α
  | .put t data wait => (kMsgqPut s t data wait).1
  | .putFront t data => (kMsgqPutFront s t data).1
  | .get t data wait => (kMsgqGet s t data wait).1
  | .purge => kMsgqPurge s
  | .timeout t => msgqTimeout s t

-- Only a thread that is not pended in a k_msgq call makes one.
def MsgqOp.allowed (s : MsgqSys α) : MsgqOp α → Bool
  | .put t _ _ | .putFront t _ | .get t _ _ => (s.threads t).op.isNone
  | .purge | .timeout _ => true

def MsgqStep (s s' : MsgqSys α) : Prop :=
  ∃ op : MsgqOp α, op.allowed s = true ∧ s' = op.apply s

-- k_msgq_init of max_msgs slots of msg_size bytes, with no thread pended.
def MsgqStart (s : MsgqSys α) : Prop :=
  ∃ buffer old msgSize maxMsgs, 0 < msgSize ∧ 0 < maxMsgs ∧
    s.q = kMsgqInit buffer old msgSize maxMsgs ∧ ∀ t, (s.threads t).op = none

def MsgqReach : MsgqSys α → Prop := StateMachine.Reachable MsgqStart MsgqStep

/-! What each call does -/

section Calls

variable {s : MsgqSys α}

theorem putMsgInQueue_room (hlt : s.q.usedMsgs < s.q.maxMsgs) (t : Nat) (data : α) (wait putAtBack : Bool) :
    putMsgInQueue s t data wait putAtBack =
      match s.q.waitQ with
      | [] => (s.setQ (if putAtBack then pushBack s.q data else pushFront s.q data), some 0)
      | w :: rest =>
        ((s.setQ { s.q with waitQ := rest }).setThread w
          { s.threads w with op := none, swapData := data, rc := some 0 }, some 0) := by
  unfold putMsgInQueue wakeFirst
  rw [if_pos hlt]
  cases s.q.waitQ with
  | nil => cases putAtBack <;> rfl
  | cons w rest => rfl

theorem putMsgInQueue_full (hf : ¬ s.q.usedMsgs < s.q.maxMsgs) (t : Nat) (data : α) (wait putAtBack : Bool) :
    putMsgInQueue s t data wait putAtBack =
      if wait then (pendCurr s t .put data, none) else (s, some (-ENOMSG)) := by
  unfold putMsgInQueue
  rw [if_neg hf]
  cases wait <;> rfl

theorem kMsgqGet_of_pos (hpos : 0 < s.q.usedMsgs) (t : Nat) (data : α) (wait : Bool) :
    kMsgqGet s t data wait =
      (match s.q.waitQ with
        | [] => s.setQ (popFront s.q)
        | w :: rest =>
          (s.setQ (pushBack { popFront s.q with waitQ := rest } (s.threads w).swapData)).setThread w
            { s.threads w with op := none, rc := some 0 },
        some 0, some (s.q.buf s.q.readPtr)) := by
  unfold kMsgqGet wakeFirst popFront pushBack
  rw [if_pos hpos]
  dsimp only [MsgqSys.setQ_q]
  cases s.q.waitQ with
  | nil => rfl
  | cons w rest => simp [MsgqSys.setQ, MsgqSys.setThread]

theorem kMsgqGet_of_zero (hz : ¬ 0 < s.q.usedMsgs) (t : Nat) (data : α) (wait : Bool) :
    kMsgqGet s t data wait =
      if wait then (pendCurr s t .get data, none, none) else (s, some (-ENOMSG), none) := by
  unfold kMsgqGet
  rw [if_neg hz]
  cases wait <;> rfl

@[simp] theorem pendCurr_q (t : Nat) (op : MOp) (data : α) :
    (pendCurr s t op data).q = { s.q with waitQ := waitqAdd s.prio t s.q.waitQ } := rfl

theorem pendCurr_threads (t : Nat) (op : MOp) (data : α) :
    (pendCurr s t op data).threads = Function.update s.threads t ⟨some op, data, none⟩ := rfl

theorem wakeAll_q (s : MsgqSys α) (l : List Nat) : (wakeAll s l).q = s.q := by
  induction l generalizing s with
  | nil => rfl
  | cons t rest ih => exact ih _

-- k_msgq_purge wakes every thread of the list and no other.
theorem wakeAll_op (s : MsgqSys α) (l : List Nat) (u : Nat) :
    ((wakeAll s l).threads u).op = if u ∈ l then none else (s.threads u).op := by
  induction l generalizing s with
  | nil => simp [wakeAll]
  | cons t rest ih =>
    rw [wakeAll, ih]
    by_cases hu : u = t
    · subst hu
      simp
    · simp [hu]

end Calls

/-! The invariant -/

-- The threads pended on the queue all wait in one kind of call: receivers on an empty
-- queue, senders on a full one.
def WaitersAgree (s : MsgqSys α) : Prop :=
  s.q.waitQ = [] ∨
    (s.q.usedMsgs = 0 ∧ ∀ t ∈ s.q.waitQ, (s.threads t).op = some .get) ∨
    (s.q.usedMsgs = s.q.maxMsgs ∧ ∀ t ∈ s.q.waitQ, (s.threads t).op = some .put)

-- The ring is consistent, and the wait queue holds, once each, the threads pended in a call.
structure MsgqInv (s : MsgqSys α) : Prop where
  ok : MsgqOk s.q
  nodup : s.q.waitQ.Nodup
  mem_waitQ : ∀ t, t ∈ s.q.waitQ ↔ (s.threads t).op ≠ none
  waiters : WaitersAgree s

section Inv

variable {s : MsgqSys α}

theorem MsgqInv.not_mem (h : MsgqInv s) {t : Nat} (ht : (s.threads t).op = none) : t ∉ s.q.waitQ :=
  fun hm => (h.mem_waitQ t).1 hm ht

-- A waiter on a queue with room is a receiver, and one on a queue with messages a sender.
theorem MsgqInv.get_of_lt (h : MsgqInv s) (hlt : s.q.usedMsgs < s.q.maxMsgs) {t : Nat}
    (ht : t ∈ s.q.waitQ) : (s.threads t).op = some .get := by
  rcases h.waiters with hn | ⟨-, hg⟩ | ⟨hu, -⟩
  · simp [hn] at ht
  · exact hg t ht
  · omega

theorem MsgqInv.put_of_pos (h : MsgqInv s) (hpos : 0 < s.q.usedMsgs) {t : Nat}
    (ht : t ∈ s.q.waitQ) : (s.threads t).op = some .put := by
  rcases h.waiters with hn | ⟨hu, -⟩ | ⟨-, hp⟩
  · simp [hn] at ht
  · omega
  · exact hp t ht

-- A call that changes the ring but finds nobody pended.
theorem MsgqInv.setQ_of_nil (h : MsgqInv s) (hs : s.q.waitQ = []) {q : KMsgq α} (hq : MsgqOk q)
    (hw : q.waitQ = []) : MsgqInv (s.setQ q) := by
  refine ⟨hq, by simp [hw], fun t => ?_, .inl hw⟩
  simp only [MsgqSys.setQ_q, MsgqSys.setQ_threads, hw]
  rw [← hs]
  exact h.mem_waitQ t

-- The first pended thread is woken with its call over, and the ring keeps its fill.
theorem MsgqInv.wake (h : MsgqInv s) {w : Nat} {rest : List Nat} (hw : s.q.waitQ = w :: rest)
    {q : KMsgq α} (hq : MsgqOk q) (hwq : q.waitQ = rest) (hu : q.usedMsgs = s.q.usedMsgs)
    (hm : q.maxMsgs = s.q.maxMsgs) {th : MThread α} (hth : th.op = none) :
    MsgqInv ((s.setQ q).setThread w th) := by
  have hnd := h.nodup
  rw [hw] at hnd
  obtain ⟨hwr, hnd⟩ := List.nodup_cons.1 hnd
  have hframe : ∀ t ∈ rest, (Function.update s.threads w th t) = s.threads t := fun t ht =>
    Function.update_of_ne (by rintro rfl; exact hwr ht) _ _
  refine ⟨hq, by rw [MsgqSys.setThread_q, MsgqSys.setQ_q, hwq]; exact hnd, fun t => ?_, ?_⟩
  · simp only [MsgqSys.setThread_q, MsgqSys.setQ_q, MsgqSys.setThread_threads, MsgqSys.setQ_threads, hwq]
    by_cases htw : t = w
    · subst htw
      simp [hwr, hth]
    · rw [Function.update_of_ne htw, ← h.mem_waitQ t, hw, List.mem_cons]
      simp [htw]
  · simp only [WaitersAgree, MsgqSys.setThread_q, MsgqSys.setQ_q, MsgqSys.setThread_threads,
      MsgqSys.setQ_threads, hwq, hu, hm]
    rcases h.waiters with hn | ⟨hz, hg⟩ | ⟨hf, hp⟩
    · simp [hw] at hn
    · exact .inr (.inl ⟨hz, fun t ht => by rw [hframe t ht]; exact hg t (by simp [hw, ht])⟩)
    · exact .inr (.inr ⟨hf, fun t ht => by rw [hframe t ht]; exact hp t (by simp [hw, ht])⟩)

-- A receiver pends only on an empty queue and a sender only on a full one.
theorem MsgqInv.pend (h : MsgqInv s) {t : Nat} (ht : (s.threads t).op = none) {op : MOp} (data : α)
    (hop : op = .get ∧ s.q.usedMsgs = 0 ∨ op = .put ∧ s.q.usedMsgs = s.q.maxMsgs) :
    MsgqInv (pendCurr s t op data) := by
  have hm := h.ok.maxMsgs_pos
  have hmem : ∀ u, u ∈ (pendCurr s t op data).q.waitQ ↔ u = t ∨ u ∈ s.q.waitQ := fun u => by
    simp [mem_waitqAdd]
  have hop' : ∀ u, ((pendCurr s t op data).threads u).op = if u = t then some op else (s.threads u).op :=
    fun u => by by_cases hu : u = t <;> simp [pendCurr_threads, hu]
  refine ⟨h.ok.setWaitQ _, ?_, fun u => ?_, ?_⟩
  · rw [pendCurr_q]
    exact (perm_waitqAdd s.prio t s.q.waitQ).nodup_iff.2 (List.nodup_cons.2 ⟨h.not_mem ht, h.nodup⟩)
  · rw [hmem, hop']
    by_cases hu : u = t
    · simp [hu]
    · simp [hu, h.mem_waitQ u]
  · refine .inr ?_
    simp only [pendCurr_q, hop']
    rcases hop with ⟨rfl, hz⟩ | ⟨rfl, hf⟩
    · refine .inl ⟨hz, fun u hu => ?_⟩
      rcases (mem_waitqAdd _ _ _ _).1 hu with rfl | hu
      · simp
      · simp only [if_neg (fun he : u = t => h.not_mem ht (he ▸ hu))]
        exact h.get_of_lt (by omega) hu
    · refine .inr ⟨hf, fun u hu => ?_⟩
      rcases (mem_waitqAdd _ _ _ _).1 hu with rfl | hu
      · simp
      · simp only [if_neg (fun he : u = t => h.not_mem ht (he ▸ hu))]
        exact h.put_of_pos (by omega) hu

theorem MsgqInv.timeout (h : MsgqInv s) (t : Nat) : MsgqInv (msgqTimeout s t) := by
  unfold msgqTimeout
  by_cases ht : t ∈ s.q.waitQ
  · rw [if_pos ht]
    have hmem : ∀ u, u ∈ s.q.waitQ.erase t ↔ u ≠ t ∧ u ∈ s.q.waitQ := fun u => h.nodup.mem_erase_iff
    have hframe : ∀ u ∈ s.q.waitQ.erase t, Function.update s.threads t
        { s.threads t with op := none, rc := some (-EAGAIN) } u = s.threads u :=
      fun u hu => Function.update_of_ne ((hmem u).1 hu).1 _ _
    refine ⟨h.ok.setWaitQ _, h.nodup.erase t, fun u => ?_, ?_⟩
    · simp only [MsgqSys.setThread_q, MsgqSys.setQ_q, MsgqSys.setThread_threads, MsgqSys.setQ_threads,
        hmem]
      by_cases hu : u = t
      · simp [hu]
      · simp [hu, h.mem_waitQ u]
    · simp only [WaitersAgree, MsgqSys.setThread_q, MsgqSys.setQ_q, MsgqSys.setThread_threads,
        MsgqSys.setQ_threads]
      rcases h.waiters with hn | ⟨hz, hg⟩ | ⟨hf, hp⟩
      · simp [hn] at ht
      · exact .inr (.inl ⟨hz, fun u hu => by rw [hframe u hu]; exact hg u ((hmem u).1 hu).2⟩)
      · exact .inr (.inr ⟨hf, fun u hu => by rw [hframe u hu]; exact hp u ((hmem u).1 hu).2⟩)
  · rw [if_neg ht]
    exact h

theorem MsgqInv.purge (h : MsgqInv s) : MsgqInv (kMsgqPurge s) := by
  unfold kMsgqPurge
  dsimp only
  rw [wakeAll_q]
  refine ⟨h.ok.purge [], List.nodup_nil, fun u => ?_, .inl rfl⟩
  simp only [MsgqSys.setQ_q, MsgqSys.setQ_threads, List.not_mem_nil, false_iff, not_not, wakeAll_op]
  by_cases hu : u ∈ s.q.waitQ
  · rw [if_pos hu]
  · rw [if_neg hu]
    simpa [h.mem_waitQ u] using hu

theorem MsgqInv.put (h : MsgqInv s) {t : Nat} (ht : (s.threads t).op = none) (data : α)
    (wait putAtBack : Bool) (hw : putAtBack = false → wait = false) :
    MsgqInv (putMsgInQueue s t data wait putAtBack).1 := by
  by_cases hlt : s.q.usedMsgs < s.q.maxMsgs
  · rw [putMsgInQueue_room hlt]
    cases hq : s.q.waitQ with
    | nil =>
      refine h.setQ_of_nil hq ?_ ?_
      · cases putAtBack
        · exact h.ok.pushFront hlt data
        · exact h.ok.pushBack hlt data
      · cases putAtBack <;> exact hq
    | cons w rest => exact h.wake hq (h.ok.setWaitQ rest) rfl rfl rfl rfl
  · rw [putMsgInQueue_full hlt]
    cases wait
    · exact h
    · exact h.pend ht data (.inr ⟨rfl, by have := h.ok.used_le; omega⟩)

theorem MsgqInv.get (h : MsgqInv s) {t : Nat} (ht : (s.threads t).op = none) (data : α) (wait : Bool) :
    MsgqInv (kMsgqGet s t data wait).1 := by
  by_cases hpos : 0 < s.q.usedMsgs
  · rw [kMsgqGet_of_pos hpos]
    have hok := h.ok.popFront hpos
    cases hq : s.q.waitQ with
    | nil => exact h.setQ_of_nil hq hok hq
    | cons w rest =>
      have hlt : (popFront s.q).usedMsgs < (popFront s.q).maxMsgs := by
        show s.q.usedMsgs - 1 < s.q.maxMsgs
        have := h.ok.used_le
        omega
      refine h.wake hq ((hok.setWaitQ rest).pushBack hlt _) rfl ?_ rfl rfl
      show s.q.usedMsgs - 1 + 1 = s.q.usedMsgs
      omega
  · rw [kMsgqGet_of_zero hpos]
    cases wait
    · exact h
    · exact h.pend ht data (.inl ⟨rfl, by omega⟩)

theorem MsgqInv.step (h : MsgqInv s) {op : MsgqOp α} (hop : op.allowed s = true) : MsgqInv (op.apply s) := by
  cases op with
  | put t data wait => exact h.put (by simpa [MsgqOp.allowed] using hop) data wait true (by simp)
  | putFront t data => exact h.put (by simpa [MsgqOp.allowed] using hop) data false false (fun _ => rfl)
  | get t data wait => exact h.get (by simpa [MsgqOp.allowed] using hop) data wait
  | purge => exact h.purge
  | timeout t => exact h.timeout t

theorem msgqInv_start (h : MsgqStart s) : MsgqInv s := by
  obtain ⟨buffer, old, msgSize, maxMsgs, hS, hM, hq, hth⟩ := h
  have hw : s.q.waitQ = [] := by rw [hq]; rfl
  refine ⟨hq ▸ msgqOk_init buffer old msgSize maxMsgs hS hM, by simp [hw], fun t => ?_, .inl hw⟩
  simp [hw, hth t]

theorem MsgqReach.inv (h : MsgqReach s) : MsgqInv s :=
  StateMachine.Reachable.inv MsgqInv (fun _ => msgqInv_start)
    (fun _ _ hi ⟨_, hop, he⟩ => he ▸ hi.step hop) h

end Inv

/-! The queue as a bounded deque -/

-- Whether a receiver is pended on the queue, and the message of the first pended thread
-- when it is a sender.
def receiverPended (s : MsgqSys α) : Bool :=
  s.q.waitQ.any fun t => decide ((s.threads t).op = some .get)

def firstSender (s : MsgqSys α) : Option α :=
  match s.q.waitQ with
  | t :: _ => if (s.threads t).op = some .put then some (s.threads t).swapData else none
  | [] => none

-- What each call is for, on the list of queued messages: a deque of at most cap messages,
-- where a message put while a receiver waits goes to that receiver, and a get from a queue
-- with a sender pended takes the sender's message in at the back.
def MsgqOp.onDeque (cap : Nat) (receiver : Bool) (sender : Option α) : MsgqOp α → List α → List α
  | .put _ data _, l => if l.length < cap ∧ receiver = false then l ++ [data] else l
  | .putFront _ data, l => if l.length < cap ∧ receiver = false then data :: l else l
  | .get _ _ _, l => if l = [] then [] else l.tail ++ sender.toList
  | .purge, _ => []
  | .timeout _, l => l

section Deque

variable {s : MsgqSys α}

theorem MsgqInv.receiverPended_of_lt (h : MsgqInv s) (hlt : s.q.usedMsgs < s.q.maxMsgs) {w : Nat}
    {rest : List Nat} (hw : s.q.waitQ = w :: rest) : receiverPended s = true := by
  simp [receiverPended, hw, h.get_of_lt hlt (by simp [hw] : w ∈ s.q.waitQ)]

theorem MsgqInv.firstSender_of_pos (h : MsgqInv s) (hpos : 0 < s.q.usedMsgs) {w : Nat}
    {rest : List Nat} (hw : s.q.waitQ = w :: rest) : firstSender s = some (s.threads w).swapData := by
  simp [firstSender, hw, h.put_of_pos hpos (by simp [hw] : w ∈ s.q.waitQ)]

theorem contents_eq_nil (hz : ¬ 0 < s.q.usedMsgs) : contents s.q = [] := by
  rw [← List.length_eq_zero_iff, length_contents]
  omega

theorem MsgqInv.contents_put (h : MsgqInv s) (t : Nat) (data : α) (wait putAtBack : Bool) :
    contents (putMsgInQueue s t data wait putAtBack).1.q =
      if (contents s.q).length < s.q.maxMsgs ∧ receiverPended s = false then
        (if putAtBack then contents s.q ++ [data] else data :: contents s.q)
      else contents s.q := by
  rw [length_contents]
  by_cases hlt : s.q.usedMsgs < s.q.maxMsgs
  · rw [putMsgInQueue_room hlt]
    cases hq : s.q.waitQ with
    | nil =>
      have hr : receiverPended s = false := by simp [receiverPended, hq]
      simp only [hlt, hr, and_self, if_true]
      cases putAtBack
      · exact contents_pushFront h.ok hlt data
      · exact contents_pushBack h.ok hlt data
    | cons w rest =>
      simp only [h.receiverPended_of_lt hlt hq, Bool.true_eq_false, and_false, if_false]
      rfl
  · rw [putMsgInQueue_full hlt]
    simp only [hlt, false_and, if_false]
    cases wait <;> rfl

theorem MsgqInv.contents_get (h : MsgqInv s) (t : Nat) (data : α) (wait : Bool) :
    contents (kMsgqGet s t data wait).1.q =
      if contents s.q = [] then [] else (contents s.q).tail ++ (firstSender s).toList := by
  by_cases hpos : 0 < s.q.usedMsgs
  · have hc := contents_eq_popFront h.ok hpos
    rw [kMsgqGet_of_pos hpos, if_neg (by rw [hc]; exact List.cons_ne_nil _ _), hc, List.tail_cons]
    cases hq : s.q.waitQ with
    | nil => simp [firstSender, hq]
    | cons w rest =>
      have hlt : ({ popFront s.q with waitQ := rest } : KMsgq α).usedMsgs < s.q.maxMsgs := by
        show s.q.usedMsgs - 1 < s.q.maxMsgs
        have := h.ok.used_le
        omega
      rw [h.firstSender_of_pos hpos hq]
      exact contents_pushBack ((h.ok.popFront hpos).setWaitQ rest) hlt _
  · rw [kMsgqGet_of_zero hpos, if_pos (contents_eq_nil hpos)]
    cases wait
    · exact contents_eq_nil hpos
    · exact contents_eq_nil hpos

-- k_msgq_get returns the head of the deque, or nothing from an empty queue.
theorem MsgqOk.kMsgqGet_msg (h : MsgqOk s.q) (t : Nat) (data : α) (wait : Bool) :
    (kMsgqGet s t data wait).2.2 = (contents s.q).head? := by
  by_cases hpos : 0 < s.q.usedMsgs
  · rw [kMsgqGet_of_pos hpos, contents_eq_popFront h hpos]
    rfl
  · rw [kMsgqGet_of_zero hpos, contents_eq_nil hpos]
    cases wait <;> rfl

theorem contents_msgqTimeout (s : MsgqSys α) (t : Nat) : contents (msgqTimeout s t).q = contents s.q := by
  unfold msgqTimeout
  split <;> rfl

theorem contents_kMsgqPurge (s : MsgqSys α) : contents (kMsgqPurge s).q = [] := by
  unfold kMsgqPurge
  simp [contents]

end Deque

-- In every reachable state the queue holds at most max_msgs messages, the wait queue holds
-- once each exactly the threads pended in a call, and they all wait for the same thing:
-- receivers while the queue has room, senders while it holds messages.
theorem msgq_wait_queue_discipline {s : MsgqSys α} (hr : MsgqReach s) :
    s.q.usedMsgs ≤ s.q.maxMsgs ∧ s.q.waitQ.Nodup ∧ (∀ t, t ∈ s.q.waitQ ↔ (s.threads t).op ≠ none) ∧
      (s.q.usedMsgs < s.q.maxMsgs → ∀ t ∈ s.q.waitQ, (s.threads t).op = some .get) ∧
      (0 < s.q.usedMsgs → ∀ t ∈ s.q.waitQ, (s.threads t).op = some .put) := by
  have h := hr.inv
  exact ⟨h.ok.used_le, h.nodup, h.mem_waitQ, fun hlt _ ht => h.get_of_lt hlt ht,
    fun hpos _ ht => h.put_of_pos hpos ht⟩

-- A queue of two slots with no thread pended, on which thread 1 then waits in k_msgq_get.
def msgqStartTwo : MsgqSys Nat :=
  ⟨kMsgqInit 0 (fun _ => 0) 4 2, fun _ => ⟨none, 0, none⟩, fun _ => 0⟩

theorem msgqStartTwo_reach : MsgqReach ((MsgqOp.get 1 0 true).apply msgqStartTwo) :=
  .step (.init ⟨0, fun _ => 0, 4, 2, by decide, by decide, rfl, fun _ => rfl⟩) ⟨_, rfl, rfl⟩

theorem msgq_wait_queue_discipline_pended :
    ((MsgqOp.get 1 0 true).apply msgqStartTwo).q.waitQ = [1] ∧
      (0 < ((MsgqOp.get 1 0 true).apply msgqStartTwo).q.usedMsgs →
        ∀ t ∈ ((MsgqOp.get 1 0 true).apply msgqStartTwo).q.waitQ,
          (((MsgqOp.get 1 0 true).apply msgqStartTwo).threads t).op = some .put) :=
  ⟨rfl, (msgq_wait_queue_discipline msgqStartTwo_reach).2.2.2.2⟩

-- Each call acts on the messages queued as the deque operation it stands for, and
-- k_msgq_get returns the head of the deque.
theorem msgq_refines_deque {s : MsgqSys α} (hr : MsgqReach s) (op : MsgqOp α) :
    contents (op.apply s).q = op.onDeque s.q.maxMsgs (receiverPended s) (firstSender s) (contents s.q) ∧
      ∀ t data wait, (kMsgqGet s t data wait).2.2 = (contents s.q).head? := by
  have h := hr.inv
  refine ⟨?_, h.ok.kMsgqGet_msg⟩
  cases op with
  | put t data wait => exact h.contents_put t data wait true
  | putFront t data => exact h.contents_put t data false false
  | get t data wait => exact h.contents_get t data wait
  | purge => exact contents_kMsgqPurge s
  | timeout t => exact contents_msgqTimeout s t

theorem msgq_refines_deque_put :
    contents ((MsgqOp.put 2 7 false).apply ((MsgqOp.get 1 0 true).apply msgqStartTwo)).q = [] ∧
      contents ((MsgqOp.put 2 7 false).apply ((MsgqOp.get 1 0 true).apply msgqStartTwo)).q =
        (MsgqOp.put 2 7 false).onDeque 2 true none [] :=
  ⟨by decide, (msgq_refines_deque msgqStartTwo_reach (MsgqOp.put 2 7 false)).1⟩

end Zephyr.Msgq
