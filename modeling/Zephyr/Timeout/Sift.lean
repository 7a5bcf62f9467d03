import Zephyr.Timeout.Wheel
import Zephyr.Timeout.Front

namespace Zephyr.Timeout

open WheelSys

structure WheelOk (w : Wheel) : Prop where
  soonIndex_lt : w.soonIndex < numSoonLists
  laterIndex_lt : w.laterIndex < numLaterLists
  sifted_le : w.sifted ≤ 1
  announcing_le : w.announcing ≤ 1
  sifted_soonIndex : w.sifted = 1 → w.soonIndex = numSoonLists - 1

def wheelSysInit : WheelSys :=
  { wheel := timeoutWheelInit, tos := fun _ => default, currTick := 0, announceRemaining := 0,
    fired := [] }

theorem wheelOk_init : WheelOk timeoutWheelInit := by
  constructor <;> simp [timeoutWheelInit, numSoonLists, numLaterLists]

-- z_add_timeout over the wheel; returns the expiry tick it reports.
def zAddTimeout (s : WheelSys) (tm clockElapsed : Nat) (announcing : Bool) (timeout : KTimeout) :
    WheelSys × Nat :=
  match addTimeoutDticks s.currTick clockElapsed announcing timeout with
  | none => (s, 0)
  | some (d, ticks) => ((zTimeoutQInsert s tm d).1, ticks)

/-! ## The distant delta list -/

theorem distantSumThrough_append (s : WheelSys) (tm : Nat) (l₁ l₂ : List Nat) (h : tm ∉ l₁) :
    distantSumThrough s tm (l₁ ++ l₂) =
      (l₁.map fun t => (s.tos t).dticks).sum + distantSumThrough s tm l₂ := by
  induction l₁ with
  | nil => simp
  | cons t l₁ ih =>
    have ht : t ≠ tm := fun e => h (e ▸ List.mem_cons_self ..)
    simp only [List.cons_append, distantSumThrough, ht, if_false, List.map_cons, List.sum_cons]
    rw [ih (fun m => h (List.mem_cons_of_mem _ m))]
    omega

theorem distantSumThrough_cons_self (s : WheelSys) (tm : Nat) (l : List Nat) :
    distantSumThrough s tm (tm :: l) = (s.tos tm).dticks := by
  simp [distantSumThrough]

theorem sum_dticks_setTo (s : WheelSys) (t : Nat) (r : TimeoutRec) (l : List Nat) (h : t ∉ l) :
    (l.map fun u => ((s.setTo t r).tos u).dticks).sum = (l.map fun u => (s.tos u).dticks).sum := by
  congr 1
  apply List.map_congr_left
  intro u hu
  have hne : u ≠ t := fun e => h (e ▸ hu)
  simp [hne]

-- The scan keeps `tm`'s delta plus the deltas it passed equal to what it started with.
theorem distantInsert_spec (tm : Nat) :
    ∀ (rest passed : List Nat) (s : WheelSys), tm ∉ passed → tm ∉ rest →
      (passed ++ rest).Nodup →
      let s' := distantInsert s tm passed rest
      distantSumThrough s' tm s'.wheel.distant =
          (passed.map fun t => (s.tos t).dticks).sum + (s.tos tm).dticks ∧
        s'.wheel = { s.wheel with distant := s'.wheel.distant } ∧
        s'.tos tm = { s.tos tm with dticks := (s'.tos tm).dticks } := by
  intro rest
  induction rest with
  | nil =>
    intro passed s hp _ _
    simp [distantInsert, distantSumThrough_append _ _ _ _ hp, distantSumThrough_cons_self]
  | cons t rest ih =>
    intro passed s hp hr hnd
    have htm : tm ≠ t := fun e => hr (e ▸ List.mem_cons_self ..)
    have htp : t ∉ passed := fun m => (List.nodup_append.1 hnd).2.2 t m t
      (List.mem_cons_self ..) rfl
    by_cases hlt : (s.tos tm).dticks < (s.tos t).dticks
    · -- `tm` goes in front of `t`, whose delta shrinks by `tm`'s
      simp only [distantInsert, hlt, if_true]
      refine ⟨?_, by simp, by simp [htm]⟩
      rw [setWheel_wheel, distantSumThrough_append _ _ _ _ hp, distantSumThrough_cons_self]
      simp only [setWheel_tos]
      rw [sum_dticks_setTo _ _ _ _ htp]
      simp [htm]
    · -- `tm` passes `t` and is charged its delta
      simp only [distantInsert, hlt, if_false]
      have hnd' : (passed ++ [t] ++ rest).Nodup := by simpa using hnd
      obtain ⟨h1, h2, h3⟩ := ih (passed ++ [t]) (s.setTo tm { s.tos tm with dticks :=
        (s.tos tm).dticks - (s.tos t).dticks })
        (by simp [hp, htm]) (fun m => hr (List.mem_cons_of_mem _ m)) hnd'
      refine ⟨?_, by rw [h2]; rfl, by rw [h3]; simp⟩
      rw [h1, List.map_append, List.sum_append, sum_dticks_setTo _ _ _ _ hp]
      simp [htm.symm]
      omega

/-! ## z_timeout_q_remainder right after an insert -/

section Insert

variable (s : WheelSys) (tm : Nat)

theorem remainder_appendSoon (hsi : s.wheel.soonIndex < numSoonLists) (hd : 0 < (s.tos tm).dticks)
    (hle : (s.tos tm).dticks ≤ numSoonLists - s.wheel.announcing) :
    timeoutWheelRemainder (timeoutWheelAppendSoon s tm) tm = (s.tos tm).dticks := by
  simp only [timeoutWheelRemainder, timeoutWheelAppendSoon, setTo_tos, setWheel_wheel,
    setTo_wheel, setWheel_tos, if_true]
  split_ifs <;> simp only [numSoonLists] at * <;> omega

theorem remainder_appendSoonDefer (hsi : s.wheel.soonIndex < numSoonLists)
    (hd : (s.tos tm).dticks = numSoonLists) :
    timeoutWheelRemainder (timeoutWheelAppendSoonDefer s tm) tm = (s.tos tm).dticks := by
  simp only [timeoutWheelRemainder, timeoutWheelAppendSoonDefer, setTo_tos, setWheel_wheel,
    setTo_wheel, setWheel_tos, if_true]
  split_ifs <;> simp only [numSoonLists] at * <;> omega

theorem remainder_appendLater (hw : WheelOk s.wheel) (hsoon : (s.tos tm).soon = false)
    (hd : numSoonLists < (s.tos tm).dticks) (hcut : (s.tos tm).dticks ≤ wheelCutoff s.wheel) :
    timeoutWheelRemainder (timeoutWheelAppendLater s tm) tm = (s.tos tm).dticks := by
  obtain ⟨hsi, hli, hsf, -, hss⟩ := hw
  simp only [timeoutWheelRemainder, timeoutWheelAppendLater, setTo_tos, setWheel_wheel,
    setWheel_tos, if_true, hsoon, Bool.false_eq_true, if_false]
  simp only [wheelCutoff, numSoonLists, numLaterLists] at *
  generalize (s.tos tm).dticks = D at *
  generalize s.wheel.soonIndex = si at *
  generalize s.wheel.laterIndex = li at *
  generalize s.wheel.sifted = sf at *
  rw [Nat.mod_eq_of_lt (show D + si - 32 < 2 ^ 32 by omega)]
  -- the position past the soon lists is a later slot `a`, at most a turn of the later
  -- lists past the sifted one, and a soon index `b`
  obtain ⟨a, b, hb, hab⟩ : ∃ a b, b < 32 ∧ D + si - 32 = 32 * a + b :=
    ⟨(D + si - 32) / 32, (D + si - 32) % 32, Nat.mod_lt _ (by decide), (Nat.div_add_mod _ _).symm⟩
  rw [hab]
  have ha : sf ≤ a ∧ a < sf + 32 := by omega
  have h1 : (32 * a + b) / 32 = a := by omega
  have h2 : (32 * a + b) % 32 = b := by omega
  rw [h1, h2]
  -- the composite dticks reads back as the later list and the soon index
  have h3 : ((a + li - sf) % 32 * 32 + b) / 32 = (a + li - sf) % 32 := by omega
  have h4 : ((a + li - sf) % 32 * 32 + b) % 32 = b := by omega
  have h5 : ((a + li - sf) % 32 + 32 - li) % 32 + sf = a := by omega
  rw [h3, h4, h5]
  omega

theorem remainder_insertDistant (hsoon : (s.tos tm).soon = false) (hlater : (s.tos tm).later = false)
    (hnd : s.wheel.distant.Nodup) (hnm : tm ∉ s.wheel.distant)
    (hcut : wheelCutoff s.wheel < (s.tos tm).dticks) :
    timeoutWheelRemainder (timeoutWheelInsertDistant s tm (wheelCutoff s.wheel)) tm =
      (s.tos tm).dticks := by
  simp only [timeoutWheelInsertDistant, setTo_wheel]
  set s₁ := s.setTo tm { s.tos tm with dticks := (s.tos tm).dticks - wheelCutoff s.wheel }
  obtain ⟨h1, h2, h3⟩ := distantInsert_spec tm s.wheel.distant [] s₁ List.not_mem_nil hnm
    (by simpa using hnd)
  set s' := distantInsert s₁ tm [] s.wheel.distant
  have hsoon' : (s'.tos tm).soon = false := by rw [h3]; simpa [s₁] using hsoon
  have hlater' : (s'.tos tm).later = false := by rw [h3]; simpa [s₁] using hlater
  have hcut' : wheelCutoff s'.wheel = wheelCutoff s.wheel := by rw [h2]; rfl
  have hsum : distantSumThrough s' tm s'.wheel.distant = (s.tos tm).dticks - wheelCutoff s.wheel := by
    simpa [s₁] using h1
  simp only [timeoutWheelRemainder, hsoon', hlater', Bool.false_eq_true, if_false, hcut', hsum]
  omega

-- Right after z_timeout_q_insert, whatever tier the timeout lands in, its
-- remainder is the delta it was inserted with.
theorem remainder_zTimeoutQInsert (d : Nat) (hw : WheelOk s.wheel) (hd : 0 < d)
    (hsoon : (s.tos tm).soon = false) (hlater : (s.tos tm).later = false)
    (hnd : s.wheel.distant.Nodup) (hnm : tm ∉ s.wheel.distant) :
    timeoutWheelRemainder (zTimeoutQInsert s tm d).1 tm = d := by
  set s₁ := s.setTo tm { s.tos tm with dticks := d, linked := true }
  have hd₁ : (s₁.tos tm).dticks = d := by simp [s₁]
  have hw₁ : s₁.wheel = s.wheel := rfl
  have hsoon₁ : (s₁.tos tm).soon = false := by simpa [s₁] using hsoon
  have hlater₁ : (s₁.tos tm).later = false := by simpa [s₁] using hlater
  have han := hw.announcing_le
  simp only [zTimeoutQInsert, timeoutWheelAddTimeout]
  rw [hd₁, hw₁]
  split_ifs with h1 h2 h3
  · -- a soon list
    rw [remainder_appendSoon s₁ tm (hw₁ ▸ hw.soonIndex_lt) (by omega) (by rw [hd₁, hw₁]; exact h1),
      hd₁]
  · -- soon_defer: exactly one rotation ahead while announcing
    rw [remainder_appendSoonDefer s₁ tm (hw₁ ▸ hw.soonIndex_lt) (by rw [hd₁, h2]), hd₁]
  · -- a later list
    rw [remainder_appendLater s₁ tm (hw₁ ▸ hw) hsoon₁ (by rw [hd₁]; omega) (by rw [hd₁, hw₁]; exact h3),
      hd₁]
  · -- the distant delta list
    rw [hw₁.symm, remainder_insertDistant s₁ tm hsoon₁ hlater₁ (hw₁ ▸ hnd) (hw₁ ▸ hnm)
      (by rw [hd₁, hw₁]; omega), hd₁]

end Insert

/-! ## The sift every 32 ticks -/

section Sift

theorem siftSoonStep_tos_of_ne (s : WheelSys) (t u : Nat) (h : u ≠ t) :
    (siftSoonStep s t).tos u = s.tos u := by
  simp [siftSoonStep, timeoutWheelPrependSoon, h]

-- sift_down_to_soon moves timeouts between lists and touches no other timeout.
theorem foldl_siftSoonStep (u : Nat) : ∀ (l : List Nat) (s : WheelSys), u ∉ l →
    (l.foldl siftSoonStep s).tos u = s.tos u ∧
      ∃ soon bits, (l.foldl siftSoonStep s).wheel = { s.wheel with soon := soon, soonBits := bits } := by
  intro l
  induction l with
  | nil => intro s _; exact ⟨rfl, s.wheel.soon, s.wheel.soonBits, rfl⟩
  | cons t l ih =>
    intro s hu
    have hut : u ≠ t := fun e => hu (e ▸ List.mem_cons_self ..)
    obtain ⟨h1, soon, bits, h2⟩ := ih (siftSoonStep s t) fun m => hu (List.mem_cons_of_mem _ m)
    refine ⟨by rw [List.foldl_cons, h1, siftSoonStep_tos_of_ne _ _ _ hut], soon, bits, ?_⟩
    rw [List.foldl_cons, h2]
    rfl

theorem siftDownToSoon_frame (s : WheelSys) (tm : Nat) (h : tm ∉ s.wheel.later s.wheel.laterIndex) :
    (timeoutWheelSiftDownToSoon s).tos tm = s.tos tm ∧
      ∃ later soon bits, (timeoutWheelSiftDownToSoon s).wheel =
        { s.wheel with later := later, soon := soon, soonBits := bits } := by
  obtain ⟨h1, soon, bits, h2⟩ := foldl_siftSoonStep tm (s.wheel.later s.wheel.laterIndex).reverse
    (s.setWheel { s.wheel with later := Function.update s.wheel.later s.wheel.laterIndex [] })
    (by simpa using h)
  exact ⟨h1, _, soon, bits, h2⟩

theorem siftLater_wheel : ∀ (l : List Nat) (s : WheelSys) (a b : Nat) (m : List Nat),
    (siftLater s a b m l).1.wheel = s.wheel := by
  intro l
  induction l with
  | nil => intro s a b m; rfl
  | cons t l ih =>
    intro s a b m
    simp only [siftLater]
    split
    · rfl
    · rw [ih]; rfl

theorem siftLater_tos_of_not_mem (u : Nat) : ∀ (l : List Nat) (s : WheelSys) (a b : Nat)
    (m : List Nat), u ∉ l → (siftLater s a b m l).1.tos u = s.tos u := by
  intro l
  induction l with
  | nil => intro s a b m _; rfl
  | cons t l ih =>
    intro s a b m hu
    have hut : u ≠ t := fun e => hu (e ▸ List.mem_cons_self ..)
    simp only [siftLater]
    split
    · simp [hut]
    · rw [ih _ _ _ _ fun h => hu (List.mem_cons_of_mem _ h)]
      simp [hut]

-- The head of the distant list, due within the next 32 ticks, gets the
-- composite dticks later_index * 32 + delta.
theorem siftDownToLater_head (s : WheelSys) (tm : Nat) (rest : List Nat)
    (hd : s.wheel.distant = tm :: rest) (hnr : tm ∉ rest) (hlt : (s.tos tm).dticks < numSoonLists) :
    (timeoutWheelSiftDownToLater s).tos tm =
        { s.tos tm with later := true,
                        dticks := s.wheel.laterIndex * numSoonLists + (s.tos tm).dticks } ∧
      ∃ later distant, (timeoutWheelSiftDownToLater s).wheel =
        { s.wheel with later := later, distant := distant } := by
  have hnot : ¬ numSoonLists ≤ (s.tos tm).dticks := by omega
  simp only [timeoutWheelSiftDownToLater, hd, siftLater, hnot, if_false]
  refine ⟨?_, _, _, by rw [setWheel_wheel, siftLater_wheel]; rfl⟩
  rw [setWheel_tos, siftLater_tos_of_not_mem _ _ _ _ _ _ hnr]
  simp

-- A distant timeout that the sift moves into a later list comes out one
-- tick further away than it was before the sift, though no tick passed.
theorem remainder_siftDown_distant_head (s : WheelSys) (tm : Nat) (rest : List Nat)
    (hsi : s.wheel.soonIndex = numSoonLists - 1) (hsf : s.wheel.sifted = 0)
    (hli : s.wheel.laterIndex < numLaterLists) (hd : s.wheel.distant = tm :: rest) (hnr : tm ∉ rest)
    (hnl : tm ∉ s.wheel.later s.wheel.laterIndex) (hsoon : (s.tos tm).soon = false)
    (hlater : (s.tos tm).later = false) (hlt : (s.tos tm).dticks < numSoonLists) :
    timeoutWheelRemainder (timeoutWheelSiftDown s) tm = timeoutWheelRemainder s tm + 1 := by
  obtain ⟨h1, lat, soon, bits, h2⟩ := siftDownToSoon_frame s tm hnl
  set s₁ := timeoutWheelSiftDownToSoon s
  obtain ⟨h3, lat', dist', h4⟩ := siftDownToLater_head s₁ tm rest (by rw [h2]; exact hd) hnr
    (by rw [h1]; exact hlt)
  set s₂ := timeoutWheelSiftDownToLater s₁
  have hL : s₂.wheel.laterIndex = s.wheel.laterIndex := by rw [h4, h2]
  have hS : s₂.wheel.soonIndex = s.wheel.soonIndex := by rw [h4, h2]
  have hr : s₂.tos tm =
      { s.tos tm with later := true, dticks := s.wheel.laterIndex * 32 + (s.tos tm).dticks } := by
    rw [h3, h1, h2]
    rfl
  have hbefore : timeoutWheelRemainder s tm = wheelCutoff s.wheel + (s.tos tm).dticks := by
    simp [timeoutWheelRemainder, hsoon, hlater, hd, distantSumThrough_cons_self]
  have hsd : timeoutWheelSiftDown s = s₂.setWheel
      { s₂.wheel with laterIndex := (s₂.wheel.laterIndex + 1) % numLaterLists, sifted := 1 } := rfl
  rw [hbefore, hsd]
  simp only [timeoutWheelRemainder, setWheel_tos, setWheel_wheel, hr, hsoon, Bool.false_eq_true,
    if_false, if_true, hS, hL]
  simp only [wheelCutoff, hsi, hsf, numSoonLists, numLaterLists] at hli hlt ⊢
  omega

-- k_timeout set at boot for 1056 ticks: expiry tick 1057, one past the
-- initial wheel's later-list cutoff, so it starts in the distant list.
def bootTimeout : WheelSys := (zAddTimeout wheelSysInit 0 0 false (.rel 1056)).1

theorem wheel_remainder_after_sift_overstates :
    (zAddTimeout wheelSysInit 0 0 false (.rel 1056)).2 = 1057 ∧
    timeoutWheelRemainder bootTimeout 0 = 1057 ∧
    (sysClockAnnounce (fun _ s => s) 4 bootTimeout 32).currTick = 32 ∧
    timeoutWheelRemainder (sysClockAnnounce (fun _ s => s) 4 bootTimeout 32) 0 = 1057 - 32 + 1 := by
  decide +kernel

theorem wheel_distant_timeout_fires_late :
    (zAddTimeout wheelSysInit 0 0 false (.rel 1056)).2 = 1057 ∧
    (sysClockAnnounce (fun _ s => s) 4 bootTimeout 1057).currTick = 1057 ∧
    (sysClockAnnounce (fun _ s => s) 4 bootTimeout 1057).fired = [] ∧
    (sysClockAnnounce (fun _ s => s) 4 (sysClockAnnounce (fun _ s => s) 4 bootTimeout 1057) 1).fired =
      [(0, 1058)] := by
  decide +kernel

end Sift

end Zephyr.Timeout
