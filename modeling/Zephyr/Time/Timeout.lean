import Zephyr.Time.Units
import Zephyr.Time.Timespec

namespace Zephyr.Time

open Zephyr.Lib

/-! timeutil.h: a timespec as a kernel timeout, and back -/

-- The timespec widths, the clock, and CONFIG_TIMEOUT_64BIT, which makes
-- k_ticks_t an int64_t in place of a uint32_t.
structure TickCfg where
  time : TimeCfg
  clock : ClockCfg
  timeout64 : Bool

-- K_TICKS_FOREVER, K_TICK_MIN and K_TICK_MAX as k_ticks_t values.
def kTicksForever (k : TickCfg) : Int := if k.timeout64 then -1 else 2 ^ 32 - 1

def kTickMin : Int := 1

def kTickMax (k : TickCfg) : Int := if k.timeout64 then 2 ^ 63 - 1 else 2 ^ 32 - 2

-- Both arms of each conditional convert to uint64_t.
def sysTicksToSecs (k : TickCfg) (ticks : Int) : Int :=
  if (UInt64.ofInt ticks).toNat ≥ (UInt64.ofInt (kTicksForever k)).toNat then sysTimeTMax k.time
  else kConvert64 k.clock .ticks .sec .floor (UInt64.ofInt ticks)

def sysTicksToNsecs (k : TickCfg) (ticks : Int) : Int :=
  if (UInt64.ofInt ticks).toNat ≥ (UInt64.ofInt (kTicksForever k)).toNat then nsecPerSec - 1
  else kConvert64 k.clock .ticks .ns .floor (UInt64.ofNat ((UInt64.ofInt ticks).toNat % k.clock.ticksPerSec))

-- The clamped seconds are a time_t value already.
def sysTimespec (c : TimeCfg) (sec nsec : Int) : Timespec :=
  let s := wrapSigned 64 sec
  ⟨if s ≤ sysTimeTMin c then sysTimeTMin c else min s (sysTimeTMax c), wrapSigned c.longBits nsec⟩

def sysTicksToTimespec (k : TickCfg) (ticks : Int) : Timespec :=
  sysTimespec k.time (sysTicksToSecs k ticks) (sysTicksToNsecs k ticks)

def sysTimespecNoWait (k : TickCfg) : Timespec := sysTicksToTimespec k 0

def sysTimespecMax (k : TickCfg) : Timespec := sysTicksToTimespec k (kTickMax k)

def sysTimespecForever (k : TickCfg) : Timespec := sysTimespec k.time (sysTimeTMax k.time) (nsecPerSec - 1)

def timespecFromTimeout (k : TickCfg) (ticks : Int) : Timespec :=
  if ticks = kTicksForever k then sysTimespecForever k
  else if ticks = 0 then sysTimespecNoWait k
  else sysTicksToTimespec k ticks

-- The timeout, and what rem is set to.
def timespecToTimeout (k : TickCfg) (req : Timespec) : Option (Int × Timespec) := do
  if timespecCompare req (sysTimespecNoWait k) ≤ 0 then return (0, req)
  if timespecCompare req (sysTimespecForever k) = 0 then return (kTicksForever k, sysTimespecNoWait k)
  let ticks : Int :=
    if timespecCompare req (sysTimespecMax k) ≥ 0 then kTickMax k
    else
      -- the sum and the clamp are in uint64_t
      let sum : Nat := (kConvert64 k.clock .ns .ticks .ceil (UInt64.ofInt req.tvNsec) +
        kConvert64 k.clock .sec .ticks .ceil (UInt64.ofInt req.tvSec)) % 2 ^ 64
      if (sum : Int) ≤ kTickMin then kTickMin else min (sum : Int) (kTickMax k)
  -- timespec_sub and timespec_negate work on rem in place; their results are dropped
  let rem ← timespecSub k.time (timespecFromTimeout k ticks) req
  let rem ← timespecNegate k.time rem.2
  return (ticks, rem.2)

/-! The exact durations -/

-- The duration of t ticks in whole nanoseconds, rounded down.
def tickNs (k : TickCfg) (t : Int) : Int := t * nsecPerSec / (k.clock.ticksPerSec : Int)

-- The fewest ticks that last v nanoseconds.
def ceilTicks (k : TickCfg) (v : Int) : Int := (v * (k.clock.ticksPerSec : Int) + nsecPerSec - 1) / nsecPerSec

-- long and time_t as timespec needs them, time_t at most 64 bits, and
-- CONFIG_SYS_CLOCK_TICKS_PER_SEC a positive int.
structure TickCfg.Valid (k : TickCfg) : Prop where
  wide : k.time.Wide
  time_le : k.time.timeBits ≤ 64
  tps_pos : 0 < k.clock.ticksPerSec
  tps_lt : k.clock.ticksPerSec < 2 ^ 31

variable {k : TickCfg}

theorem TickCfg.Valid.tps_int (hk : k.Valid) : (0 : Int) < k.clock.ticksPerSec := by
  exact_mod_cast hk.tps_pos

theorem kTickMax_bounds : 2 ^ 32 - 2 ≤ kTickMax k ∧ kTickMax k < 2 ^ 63 ∧
    kTickMax k < (UInt64.ofInt (kTicksForever k)).toNat := by
  unfold kTickMax kTicksForever
  cases k.timeout64 <;> decide

theorem TickCfg.Valid.tMax (hk : k.Valid) : 2 ^ 31 - 1 ≤ sysTimeTMax k.time ∧ sysTimeTMax k.time < 2 ^ 63 := by
  obtain ⟨p1, p2, -, -⟩ := hk.wide.pow
  have : (2 : Int) ^ (k.time.timeBits - 1) ≤ 2 ^ 63 :=
    by exact_mod_cast Nat.pow_le_pow_right (by norm_num) (by have := hk.time_le; omega)
  simp only [sysTimeTMax, sMax]
  omega

-- The nanoseconds of the ticks past the last whole second.
theorem tickRem_bounds (hk : k.Valid) (t : Int) :
    0 ≤ t % k.clock.ticksPerSec * nsecPerSec / k.clock.ticksPerSec ∧
      t % k.clock.ticksPerSec * nsecPerSec / k.clock.ticksPerSec < nsecPerSec := by
  have hP0 := hk.tps_int
  constructor
  · exact Int.ediv_nonneg (Int.mul_nonneg (Int.emod_nonneg _ hP0.ne') (by decide)) hP0.le
  · apply Int.ediv_lt_of_lt_mul hP0
    rw [Int.mul_comm nsecPerSec]
    exact Int.mul_lt_mul_of_pos_right (Int.emod_lt_of_pos _ hP0) (by decide)

theorem sysTicksToTimespec_of_le (hk : k.Valid) {t : Int} (h0 : 0 ≤ t) (ht : t ≤ kTickMax k) :
    sysTicksToTimespec k t =
      ⟨min (t / k.clock.ticksPerSec) (sysTimeTMax k.time), t % k.clock.ticksPerSec * nsecPerSec / k.clock.ticksPerSec⟩ := by
  obtain ⟨-, hK, hF⟩ := kTickMax_bounds (k := k)
  obtain ⟨m1, m2⟩ := hk.tMax
  have hP := hk.tps_pos
  have hP' := hk.tps_lt
  have hu : (UInt64.ofInt t).toNat = t.toNat := by
    simp only [UInt64.ofInt, UInt64.toNat_ofNat']
    omega
  have hnf : ¬t.toNat ≥ (UInt64.ofInt (kTicksForever k)).toNat := by omega
  have hr : t.toNat % k.clock.ticksPerSec < k.clock.ticksPerSec := Nat.mod_lt _ hP
  have e1 : kConvert64 k.clock .ticks .sec .floor (UInt64.ofInt t) = t.toNat / k.clock.ticksPerSec := by
    rw [kConvert64_eq_exact k.clock .ticks .sec .floor (UInt64.ofInt t) hP Nat.one_pos (by simp only [TimeUnit.hz]; omega)
      (by simp only [TimeUnit.hz]; omega)]
    simp [exactTmcvt, zTmcvtOffGen, Rounding.roundUp, Rounding.roundOff, TimeUnit.hz, hu]
  have e2 : kConvert64 k.clock .ticks .ns .floor (UInt64.ofNat (t.toNat % k.clock.ticksPerSec)) =
      t.toNat % k.clock.ticksPerSec * 1000000000 / k.clock.ticksPerSec := by
    have hx : (UInt64.ofNat (t.toNat % k.clock.ticksPerSec)).toNat = t.toNat % k.clock.ticksPerSec := by
      simp only [UInt64.toNat_ofNat']
      omega
    rw [kConvert64_eq_exact k.clock .ticks .ns .floor _ hP (by simp [TimeUnit.hz])
      (by simp only [TimeUnit.hz, hx]; omega) (by simp only [TimeUnit.hz]; omega)]
    simp [exactTmcvt, zTmcvtOffGen, Rounding.roundUp, Rounding.roundOff, TimeUnit.hz, hx]
  -- back in the signed types: the seconds and nanoseconds of t, below both limits
  have hq : ((t.toNat / k.clock.ticksPerSec : Nat) : Int) = t / k.clock.ticksPerSec := by
    rw [Int.natCast_ediv, Int.toNat_of_nonneg h0]
  have hn : ((t.toNat % k.clock.ticksPerSec * 1000000000 / k.clock.ticksPerSec : Nat) : Int) =
      t % k.clock.ticksPerSec * nsecPerSec / k.clock.ticksPerSec := by
    rw [Int.natCast_ediv]
    push_cast
    rw [Int.toNat_of_nonneg h0]
    rfl
  have hP0 : (0 : Int) < k.clock.ticksPerSec := by exact_mod_cast hP
  have q0 : 0 ≤ t / k.clock.ticksPerSec := Int.ediv_nonneg h0 hP0.le
  have q1 : t / k.clock.ticksPerSec ≤ t := Int.ediv_le_self _ h0
  obtain ⟨r0, r1⟩ := tickRem_bounds hk t
  have w1 : wrapSigned 64 (t / k.clock.ticksPerSec) = t / k.clock.ticksPerSec :=
    wrapSigned_of_inRange (by decide) ⟨by simp only [sMin]; omega, by simp only [sMax]; omega⟩
  have w2 : wrapSigned k.time.longBits (t % k.clock.ticksPerSec * nsecPerSec / k.clock.ticksPerSec) =
      t % k.clock.ticksPerSec * nsecPerSec / k.clock.ticksPerSec := by
    obtain ⟨p1, -, -, -⟩ := hk.wide.pow
    have := hk.wide.long_ge
    exact wrapSigned_of_inRange (by omega) ⟨by simp only [sMin]; omega, by simp only [sMax, nsecPerSec] at r1 ⊢; omega⟩
  have hmin : ¬t / k.clock.ticksPerSec ≤ sysTimeTMin k.time := by simp only [sysTimeTMin]; omega
  simp only [sysTicksToTimespec, sysTicksToSecs, sysTicksToNsecs, if_neg hnf, hu, e1, e2, hq, hn, sysTimespec,
    w1, w2, if_neg hmin]

/-! Tick arithmetic -/

section Ticks

variable {t u v : Int}

theorem tickNs_split (hk : k.Valid) :
    tickNs k t = t / k.clock.ticksPerSec * nsecPerSec + t % k.clock.ticksPerSec * nsecPerSec / k.clock.ticksPerSec := by
  have hP0 := hk.tps_int
  have : t * nsecPerSec = t % k.clock.ticksPerSec * nsecPerSec +
      t / k.clock.ticksPerSec * nsecPerSec * k.clock.ticksPerSec := by
    conv_lhs => rw [← Int.emod_add_mul_ediv t k.clock.ticksPerSec]
    ring
  rw [tickNs, this, Int.add_mul_ediv_right _ _ hP0.ne', Int.add_comm]

theorem le_tickNs_iff (hk : k.Valid) : v ≤ tickNs k u ↔ v * k.clock.ticksPerSec ≤ u * nsecPerSec :=
  Int.le_ediv_iff_mul_le (by exact_mod_cast hk.tps_pos)

theorem ceilTicks_le_iff : ceilTicks k v ≤ u ↔ v * k.clock.ticksPerSec ≤ u * nsecPerSec := by
  rw [ceilTicks, Int.ediv_le_iff_le_mul (by decide)]
  unfold nsecPerSec
  omega

-- The last tick of the rounding up starts before v.
theorem ceilTicks_mul_lt : ceilTicks k v * nsecPerSec < v * k.clock.ticksPerSec + nsecPerSec := by
  have := Int.ediv_mul_le (v * k.clock.ticksPerSec + nsecPerSec - 1) (show nsecPerSec ≠ 0 by decide)
  rw [ceilTicks]
  omega

theorem tickNs_mul_le (hk : k.Valid) : tickNs k t * k.clock.ticksPerSec ≤ t * nsecPerSec :=
  Int.ediv_mul_le _ (by exact_mod_cast hk.tps_pos.ne')

end Ticks

/-! The constants and the conversion of a tick count -/

theorem sysTimespecNoWait_eq (hk : k.Valid) : sysTimespecNoWait k = ⟨0, 0⟩ := by
  obtain ⟨m1, -⟩ := hk.tMax
  rw [sysTimespecNoWait, sysTicksToTimespec_of_le hk le_rfl (by have := kTickMax_bounds (k := k); omega)]
  simp only [Int.zero_ediv, Int.zero_emod, Int.zero_mul, Timespec.mk.injEq, and_true]
  omega

theorem sysTimespecForever_eq (hk : k.Valid) : sysTimespecForever k = ⟨sysTimeTMax k.time, nsecPerSec - 1⟩ := by
  obtain ⟨m1, m2⟩ := hk.tMax
  obtain ⟨p1, -, -, -⟩ := hk.wide.pow
  have := hk.wide.long_ge
  have w1 : wrapSigned 64 (sysTimeTMax k.time) = sysTimeTMax k.time :=
    wrapSigned_of_inRange (by decide) ⟨by simp only [sMin]; omega, by simp only [sMax]; omega⟩
  have w2 : wrapSigned k.time.longBits (nsecPerSec - 1) = nsecPerSec - 1 :=
    wrapSigned_of_inRange (by omega) ⟨by simp only [sMin, nsecPerSec]; omega, by simp only [sMax, nsecPerSec]; omega⟩
  have hmin : ¬sysTimeTMax k.time ≤ sysTimeTMin k.time := by simp only [sysTimeTMin]; omega
  simp only [sysTimespecForever, sysTimespec, w1, w2, if_neg hmin, min_self]

theorem timespecFromTimeout_of_pos {t : Int} (h1 : 1 ≤ t) (ht : t ≤ kTickMax k) :
    timespecFromTimeout k t = sysTicksToTimespec k t := by
  have hf : t ≠ kTicksForever k := by
    unfold kTickMax at ht
    unfold kTicksForever
    split_ifs at ht ⊢ <;> omega
  rw [timespecFromTimeout, if_neg hf, if_neg (by omega)]

-- Below SYS_TIME_T_MAX seconds the timespec of t ticks is its duration rounded down.
theorem sysTicksToTimespec_eq_ofNs (hk : k.Valid) {t : Int} (h0 : 0 ≤ t) (ht : t ≤ kTickMax k)
    (hs : t / k.clock.ticksPerSec ≤ sysTimeTMax k.time) : sysTicksToTimespec k t = ofNs (tickNs k t) := by
  obtain ⟨r0, r1⟩ := tickRem_bounds hk t
  rw [sysTicksToTimespec_of_le hk h0 ht, min_eq_left hs, ofNs, tickNs_split hk]
  unfold nsecPerSec at r0 r1 ⊢
  congr 1 <;> omega

-- k_ns_to_ticks_ceil64(tv_nsec) + k_sec_to_ticks_ceil64(tv_sec) is exact: the
-- fewest ticks that last the whole duration.
theorem ceil_ticks_sum (hk : k.Valid) {req : Timespec} (hreq : req.Fits k.time) (h0 : 0 ≤ req.tvSec)
    (hsec : req.tvSec * k.clock.ticksPerSec ≤ kTickMax k) :
    (((kConvert64 k.clock .ns .ticks .ceil (UInt64.ofInt req.tvNsec) +
      kConvert64 k.clock .sec .ticks .ceil (UInt64.ofInt req.tvSec)) % 2 ^ 64 : Nat) : Int) = ceilTicks k req.ns := by
  obtain ⟨-, hK, -⟩ := kTickMax_bounds (k := k)
  have hP := hk.tps_pos
  have hP' := hk.tps_lt
  have n0 := hreq.nsec_nonneg
  have n1 := hreq.nsec_lt
  unfold nsecPerSec at n1
  have ha : (UInt64.ofInt req.tvNsec).toNat = req.tvNsec.toNat := by
    simp only [UInt64.ofInt, UInt64.toNat_ofNat']
    omega
  have hb : (UInt64.ofInt req.tvSec).toNat = req.tvSec.toNat := by
    simp only [UInt64.ofInt, UInt64.toNat_ofNat']
    have : req.tvSec ≤ req.tvSec * k.clock.ticksPerSec := le_mul_of_one_le_right h0 (by exact_mod_cast hP)
    omega
  have hbP : req.tvSec.toNat * k.clock.ticksPerSec ≤ 2 ^ 63 := by
    have : ((req.tvSec.toNat * k.clock.ticksPerSec : Nat) : Int) = req.tvSec * k.clock.ticksPerSec := by
      push_cast
      rw [Int.toNat_of_nonneg h0]
    omega
  have haP : req.tvNsec.toNat * k.clock.ticksPerSec ≤ 1000000000 * 2 ^ 31 :=
    Nat.mul_le_mul (by omega) hP'.le
  have e3 : kConvert64 k.clock .ns .ticks .ceil (UInt64.ofInt req.tvNsec) =
      (req.tvNsec.toNat * k.clock.ticksPerSec + 999999999) / 1000000000 := by
    rw [kConvert64_eq_exact k.clock .ns .ticks .ceil _ (by simp [TimeUnit.hz]) hP
      (by simp only [TimeUnit.hz, ha]; omega) (by simp only [TimeUnit.hz]; omega)]
    simp [exactTmcvt, zTmcvtOffGen, Rounding.roundUp, Rounding.roundOff, TimeUnit.hz, ha]
  have e4 : kConvert64 k.clock .sec .ticks .ceil (UInt64.ofInt req.tvSec) = req.tvSec.toNat * k.clock.ticksPerSec := by
    rw [kConvert64_eq_exact k.clock .sec .ticks .ceil _ Nat.one_pos hP
      (by simp only [TimeUnit.hz, hb]; omega) (by simp only [TimeUnit.hz]; omega)]
    simp [exactTmcvt, zTmcvtOffGen, Rounding.roundUp, Rounding.roundOff, TimeUnit.hz, hb]
  have hlt : (req.tvNsec.toNat * k.clock.ticksPerSec + 999999999) / 1000000000 +
      req.tvSec.toNat * k.clock.ticksPerSec < 2 ^ 64 := by
    have := Nat.div_le_self (req.tvNsec.toNat * k.clock.ticksPerSec + 999999999) 1000000000
    omega
  -- the seconds' ticks are a multiple of NSEC_PER_SEC nanoseconds' ticks
  have hsplit : req.ns * k.clock.ticksPerSec + nsecPerSec - 1 =
      req.tvNsec * k.clock.ticksPerSec + 999999999 + req.tvSec * k.clock.ticksPerSec * nsecPerSec := by
    simp only [Timespec.ns, nsecPerSec]
    ring
  rw [e3, e4, Nat.mod_eq_of_lt hlt, ceilTicks, hsplit, Int.add_mul_ediv_right _ _ (by decide)]
  push_cast
  rw [Int.toNat_of_nonneg n0, Int.toNat_of_nonneg h0]
  rfl

-- The duration of t ticks, below SYS_TIME_T_MAX seconds, is representable and
-- below SYS_TIMESPEC_FOREVER.
theorem tickNs_bounds (hk : k.Valid) {t : Int} (h0 : 0 ≤ t) (hs : t / k.clock.ticksPerSec ≤ sysTimeTMax k.time) :
    Representable k.time (tickNs k t) ∧ tickNs k t ≤ (sysTimespecForever k).ns := by
  have hP0 := hk.tps_int
  obtain ⟨r0, r1⟩ := tickRem_bounds hk t
  obtain ⟨m1, -⟩ := hk.tMax
  have q0 : 0 ≤ t / k.clock.ticksPerSec := Int.ediv_nonneg h0 hP0.le
  have hm := sMax_add_one k.time.timeBits
  rw [tickNs_split hk, sysTimespecForever_eq hk]
  simp only [Representable, InRange, Timespec.ns, sysTimeTMax, nsecPerSec] at r0 r1 hs m1 ⊢
  constructor
  · constructor <;> omega
  · omega

-- SYS_TIMESPEC_MAX is the duration of K_TICK_MAX ticks, or of fewer where the
-- seconds are clamped to SYS_TIME_T_MAX, and at least one second.
theorem sysTimespecMax_eq_ofNs (hk : k.Valid) :
    ∃ u, (k.clock.ticksPerSec : Int) ≤ u ∧ u ≤ kTickMax k ∧ u / k.clock.ticksPerSec ≤ sysTimeTMax k.time ∧
      sysTimespecMax k = ofNs (tickNs k u) := by
  have hP0 := hk.tps_int
  have hP' := hk.tps_lt
  obtain ⟨hK0, hK, -⟩ := kTickMax_bounds (k := k)
  obtain ⟨m1, -⟩ := hk.tMax
  -- the clamped seconds and the remaining ticks of K_TICK_MAX
  set m := min (kTickMax k / k.clock.ticksPerSec) (sysTimeTMax k.time) with hm
  set r := kTickMax k % k.clock.ticksPerSec with hr
  have r0 : 0 ≤ r := Int.emod_nonneg _ hP0.ne'
  have r1 : r < k.clock.ticksPerSec := Int.emod_lt_of_pos _ hP0
  have hq1 : 1 ≤ kTickMax k / k.clock.ticksPerSec :=
    (Int.le_ediv_iff_mul_le hP0).2 (by push_cast at hP'; omega)
  have hm1 : 1 ≤ m := le_min hq1 (by omega)
  have hmq : m * k.clock.ticksPerSec ≤ kTickMax k / k.clock.ticksPerSec * k.clock.ticksPerSec :=
    Int.mul_le_mul_of_nonneg_right (min_le_left _ _) hP0.le
  have hdiv : (r + m * k.clock.ticksPerSec) / k.clock.ticksPerSec = m := by
    rw [Int.add_mul_ediv_right _ _ hP0.ne', Int.ediv_eq_zero_of_lt r0 r1, Int.zero_add]
  have hmod : (r + m * k.clock.ticksPerSec) % k.clock.ticksPerSec = r := by
    rw [Int.add_mul_emod_self_right, Int.emod_eq_of_lt r0 r1]
  have hK' := Int.emod_add_ediv_mul (kTickMax k) k.clock.ticksPerSec
  have hPm : (k.clock.ticksPerSec : Int) ≤ m * k.clock.ticksPerSec := le_mul_of_one_le_left hP0.le hm1
  refine ⟨r + m * k.clock.ticksPerSec, by omega, by omega, by rw [hdiv]; exact min_le_right _ _, ?_⟩
  rw [← sysTicksToTimespec_eq_ofNs hk (by omega) (by omega) (by rw [hdiv]; exact min_le_right _ _),
    sysTimespecMax, sysTicksToTimespec_of_le hk (by omega) le_rfl, sysTicksToTimespec_of_le hk (by omega) (by omega),
    hdiv, hmod, ← hm, min_eq_left (min_le_right _ _)]

theorem sysTimespecForever_fits (hk : k.Valid) : (sysTimespecForever k).Fits k.time := by
  obtain ⟨m1, -⟩ := hk.tMax
  have hm := sMax_add_one k.time.timeBits
  rw [sysTimespecForever_eq hk]
  exact ⟨⟨by simp only [sysTimeTMax] at m1 ⊢; omega, by simp only [sysTimeTMax]; omega⟩,
    by simp only [nsecPerSec]; omega, by simp only [nsecPerSec]; omega⟩

/-! timespec_to_timeout, case by case -/

section ToTimeout

variable {req : Timespec}

theorem timespecToTimeout_of_nonpos (hk : k.Valid) (hreq : req.Fits k.time) (h : req.ns ≤ 0) :
    timespecToTimeout k req = some (0, req) := by
  have hc : timespecCompare req ⟨0, 0⟩ ≤ 0 := by
    rw [timespecCompare_eq hreq.valid (by decide)]
    simp only [Timespec.ns] at h ⊢
    split_ifs <;> omega
  simp [timespecToTimeout, sysTimespecNoWait_eq hk, hc]

theorem timespecToTimeout_forever (hk : k.Valid) :
    timespecToTimeout k (sysTimespecForever k) = some (kTicksForever k, ⟨0, 0⟩) := by
  obtain ⟨m1, -⟩ := hk.tMax
  have hc : ¬timespecCompare (sysTimespecForever k) ⟨0, 0⟩ ≤ 0 := by
    rw [sysTimespecForever_eq hk]
    simp only [timespecCompare, nsecPerSec]
    split_ifs <;> omega
  have he : timespecCompare (sysTimespecForever k) (sysTimespecForever k) = 0 := by
    simp [timespecCompare]
  simp [timespecToTimeout, sysTimespecNoWait_eq hk, hc, he]

-- A normalized request past the first two checks: neither K_NO_WAIT nor K_FOREVER.
theorem timespecCompare_past_forever (hk : k.Valid) (hreq : req.Fits k.time) (hne : req ≠ sysTimespecForever k) :
    timespecCompare req (sysTimespecForever k) ≠ 0 := by
  have hf := sysTimespecForever_fits hk
  rw [timespecCompare_eq hreq.valid hf.valid]
  split_ifs with h1 h2
  · decide
  · refine absurd ?_ hne
    rw [← ofNs_of_valid hreq.nsec_nonneg hreq.nsec_lt, ← ofNs_of_valid hf.nsec_nonneg hf.nsec_lt, h2]
  · decide

theorem timespecToTimeout_of_max_le (hk : k.Valid) (hreq : req.Fits k.time) (hne : req ≠ sysTimespecForever k)
    (hle : (sysTimespecMax k).ns ≤ req.ns) :
    timespecToTimeout k req = some (kTickMax k, ofNs (req.ns - (sysTimespecMax k).ns)) := by
  obtain ⟨u, hPu, huK, huT, hmax⟩ := sysTimespecMax_eq_ofNs hk
  obtain ⟨hrep, hfor⟩ := tickNs_bounds hk (by have := hk.tps_int; omega) huT
  have hmf : (sysTimespecMax k).Fits k.time := hmax ▸ ofNs_fits hrep
  -- SYS_TIMESPEC_MAX lasts a second at least
  have hsec : nsecPerSec ≤ (sysTimespecMax k).ns := by
    rw [hmax, ofNs_ns, le_tickNs_iff hk, Int.mul_comm nsecPerSec]
    exact Int.mul_le_mul_of_nonneg_right hPu (by decide)
  have hfor' := sysTimespecForever_eq hk
  have c1 : ¬timespecCompare req ⟨0, 0⟩ ≤ 0 := by
    rw [timespecCompare_eq hreq.valid (by decide)]
    simp only [Timespec.ns, nsecPerSec] at hsec hle ⊢
    split_ifs <;> omega
  have c3 : timespecCompare req (sysTimespecMax k) ≥ 0 := by
    rw [timespecCompare_eq hreq.valid hmf.valid]
    split_ifs <;> omega
  have hfrom : timespecFromTimeout k (kTickMax k) = sysTimespecMax k :=
    timespecFromTimeout_of_pos (by have := kTickMax_bounds (k := k); omega) le_rfl
  -- the remainder stays above SYS_TIME_T_MIN seconds since the request is at most SYS_TIMESPEC_FOREVER
  have hd : req.ns - (sysTimespecMax k).ns ≤ sysTimeTMax k.time * nsecPerSec := by
    have := hreq.sec.2
    have := hreq.nsec_lt
    simp only [Timespec.ns, sysTimeTMax, nsecPerSec] at hsec this ⊢
    omega
  have hs0 : 0 ≤ req.tvSec := by
    have := hreq.nsec_lt
    simp only [Timespec.ns, nsecPerSec] at hsec hle this
    omega
  obtain ⟨hsub, hneg⟩ := timespecSub_negate hk.wide hmf hreq hs0 hd
  simp [timespecToTimeout, sysTimespecNoWait_eq hk, c1, timespecCompare_past_forever hk hreq hne, c3, hfrom,
    hsub, hneg]

-- Below SYS_TIMESPEC_MAX the timeout is the fewest ticks that last req, and
-- rem is req less their duration rounded down.
theorem timespecToTimeout_of_lt_max (hk : k.Valid) (hreq : req.Fits k.time) (hpos : 0 < req.ns)
    (hlt : req.ns < (sysTimespecMax k).ns) :
    timespecToTimeout k req = some (ceilTicks k req.ns, ofNs (req.ns - tickNs k (ceilTicks k req.ns))) ∧
      1 ≤ ceilTicks k req.ns ∧ ceilTicks k req.ns ≤ kTickMax k ∧
      timespecFromTimeout k (ceilTicks k req.ns) = ofNs (tickNs k (ceilTicks k req.ns)) := by
  obtain ⟨u, hPu, huK, huT, hmax⟩ := sysTimespecMax_eq_ofNs hk
  have hP0 := hk.tps_int
  rw [hmax, ofNs_ns] at hlt
  have ht1 : 1 ≤ ceilTicks k req.ns := by
    by_contra h
    have := ceilTicks_le_iff.1 (show ceilTicks k req.ns ≤ 0 by omega)
    have := Int.mul_pos hpos hP0
    omega
  have htu : ceilTicks k req.ns ≤ u := ceilTicks_le_iff.2 ((le_tickNs_iff hk).1 hlt.le)
  have htT : ceilTicks k req.ns / k.clock.ticksPerSec ≤ sysTimeTMax k.time := (Int.ediv_le_ediv hP0 htu).trans huT
  have hfrom : timespecFromTimeout k (ceilTicks k req.ns) = ofNs (tickNs k (ceilTicks k req.ns)) :=
    (timespecFromTimeout_of_pos ht1 (htu.trans huK)).trans
      (sysTicksToTimespec_eq_ofNs hk (by omega) (htu.trans huK) htT)
  refine ⟨?_, ht1, htu.trans huK, hfrom⟩
  have n0 := hreq.nsec_nonneg
  have n1 := hreq.nsec_lt
  have hs0 : 0 ≤ req.tvSec := by
    simp only [Timespec.ns, nsecPerSec] at hpos n1
    omega
  -- the whole seconds of req take tv_sec * CONFIG_SYS_CLOCK_TICKS_PER_SEC of those ticks
  have hsecP : req.tvSec * k.clock.ticksPerSec ≤ kTickMax k := by
    have hnP := Int.mul_nonneg n0 hP0.le
    have : req.tvSec * k.clock.ticksPerSec ≤ ceilTicks k req.ns := by
      rw [ceilTicks, Int.le_ediv_iff_mul_le (by decide)]
      have : req.ns * k.clock.ticksPerSec =
          req.tvSec * k.clock.ticksPerSec * nsecPerSec + req.tvNsec * k.clock.ticksPerSec := by
        simp only [Timespec.ns]
        ring
      unfold nsecPerSec at this ⊢
      omega
    omega
  obtain ⟨hrep, hfor⟩ := tickNs_bounds hk (by omega) huT
  have hfor' := sysTimespecForever_eq hk
  have c1 : ¬timespecCompare req ⟨0, 0⟩ ≤ 0 := by
    rw [timespecCompare_eq hreq.valid (by decide)]
    simp only [Timespec.ns] at hpos ⊢
    split_ifs <;> omega
  have c2 : req ≠ sysTimespecForever k := by
    rintro rfl
    omega
  have c3 : ¬timespecCompare req (sysTimespecMax k) ≥ 0 := by
    rw [timespecCompare_eq hreq.valid (hmax ▸ (ofNs_fits hrep).valid), hmax, ofNs_ns, if_pos hlt]
    decide
  have hclamp : (if (ceilTicks k req.ns : Int) ≤ kTickMin then kTickMin else min (ceilTicks k req.ns) (kTickMax k)) =
      ceilTicks k req.ns := by
    unfold kTickMin
    split_ifs <;> omega
  have hreq' : req.ns ≤ tickNs k (ceilTicks k req.ns) := (le_tickNs_iff hk).2 (ceilTicks_le_iff.1 le_rfl)
  obtain ⟨hrep', -⟩ := tickNs_bounds hk (by omega) htT
  obtain ⟨hsub, hneg⟩ := timespecSub_negate hk.wide (ofNs_fits hrep') hreq hs0
    (by rw [ofNs_ns]; have := hk.tMax.1; unfold nsecPerSec; omega)
  rw [ofNs_ns] at hsub hneg
  simp only [timespecToTimeout, sysTimespecNoWait_eq hk, c1, timespecCompare_past_forever hk hreq c2, c3,
    ceil_ticks_sum hk hreq hs0 hsecP, hclamp, hfrom, hsub, hneg, if_false, Option.bind_eq_bind, Option.bind_some,
    Option.pure_def]

end ToTimeout

-- timespec_to_timeout: a request of no duration is K_NO_WAIT with all of it
-- left over, SYS_TIMESPEC_FOREVER is K_FOREVER, and from SYS_TIMESPEC_MAX on
-- the timeout is K_TICK_MAX. Below it the timeout is the fewest ticks, at
-- least K_TICK_MIN, that last the request; their timespec is their duration
-- rounded down to the nanosecond, at least the request, and rem is the
-- request less it, within one tick.
theorem timespec_to_timeout_rounds_up (k : TickCfg) (hk : k.Valid) (req : Timespec) (hreq : req.Fits k.time) :
    (req.ns ≤ 0 → timespecToTimeout k req = some (0, req)) ∧
      (req = sysTimespecForever k → timespecToTimeout k req = some (kTicksForever k, ⟨0, 0⟩)) ∧
      (req ≠ sysTimespecForever k → (sysTimespecMax k).ns ≤ req.ns →
        timespecToTimeout k req = some (kTickMax k, ofNs (req.ns - (sysTimespecMax k).ns))) ∧
      (0 < req.ns → req.ns < (sysTimespecMax k).ns →
        ∃ t, timespecToTimeout k req = some (t, ofNs (req.ns - (timespecFromTimeout k t).ns)) ∧
          kTickMin ≤ t ∧ req.ns * k.clock.ticksPerSec ≤ t * nsecPerSec ∧
          (t - 1) * nsecPerSec < req.ns * k.clock.ticksPerSec ∧
          (timespecFromTimeout k t).ns = tickNs k t ∧ req.ns ≤ (timespecFromTimeout k t).ns ∧
          ((timespecFromTimeout k t).ns - req.ns) * k.clock.ticksPerSec < nsecPerSec) := by
  refine ⟨timespecToTimeout_of_nonpos hk hreq, ?_, timespecToTimeout_of_max_le hk hreq, ?_⟩
  · rintro rfl
    exact timespecToTimeout_forever hk
  · intro hpos hlt
    obtain ⟨heq, ht1, -, hfrom⟩ := timespecToTimeout_of_lt_max hk hreq hpos hlt
    have hns : (timespecFromTimeout k (ceilTicks k req.ns)).ns = tickNs k (ceilTicks k req.ns) := by
      rw [hfrom, ofNs_ns]
    have hcover := ceilTicks_le_iff.1 (le_refl (ceilTicks k req.ns))
    have hlast := ceilTicks_mul_lt (k := k) (v := req.ns)
    have hfloor := tickNs_mul_le hk (t := ceilTicks k req.ns)
    refine ⟨ceilTicks k req.ns, by rw [hns]; exact heq, ht1, hcover, by rw [Int.sub_mul]; omega, hns,
      by rw [hns]; exact (le_tickNs_iff hk).2 hcover, ?_⟩
    rw [hns, Int.sub_mul]
    omega

-- One second at 100 ticks a second, with 64-bit time_t, long and timeouts.
theorem timespec_to_timeout_one_second :
    TickCfg.Valid ⟨⟨64, 64, false⟩, ⟨365, 100, 1000000, true⟩, true⟩ ∧ Timespec.Fits ⟨64, 64, false⟩ ⟨1, 0⟩ ∧
      (Timespec.ns ⟨1, 0⟩ ≤ 0 →
        timespecToTimeout ⟨⟨64, 64, false⟩, ⟨365, 100, 1000000, true⟩, true⟩ ⟨1, 0⟩ = some (0, ⟨1, 0⟩)) ∧
      (⟨1, 0⟩ = sysTimespecForever ⟨⟨64, 64, false⟩, ⟨365, 100, 1000000, true⟩, true⟩ →
        timespecToTimeout ⟨⟨64, 64, false⟩, ⟨365, 100, 1000000, true⟩, true⟩ ⟨1, 0⟩ =
          some (kTicksForever ⟨⟨64, 64, false⟩, ⟨365, 100, 1000000, true⟩, true⟩, ⟨0, 0⟩)) ∧
      (⟨1, 0⟩ ≠ sysTimespecForever ⟨⟨64, 64, false⟩, ⟨365, 100, 1000000, true⟩, true⟩ →
        (sysTimespecMax ⟨⟨64, 64, false⟩, ⟨365, 100, 1000000, true⟩, true⟩).ns ≤ Timespec.ns ⟨1, 0⟩ →
        timespecToTimeout ⟨⟨64, 64, false⟩, ⟨365, 100, 1000000, true⟩, true⟩ ⟨1, 0⟩ =
          some (kTickMax ⟨⟨64, 64, false⟩, ⟨365, 100, 1000000, true⟩, true⟩,
            ofNs (Timespec.ns ⟨1, 0⟩ - (sysTimespecMax ⟨⟨64, 64, false⟩, ⟨365, 100, 1000000, true⟩, true⟩).ns))) ∧
      (0 < Timespec.ns ⟨1, 0⟩ →
        Timespec.ns ⟨1, 0⟩ < (sysTimespecMax ⟨⟨64, 64, false⟩, ⟨365, 100, 1000000, true⟩, true⟩).ns →
        ∃ t, timespecToTimeout ⟨⟨64, 64, false⟩, ⟨365, 100, 1000000, true⟩, true⟩ ⟨1, 0⟩ =
            some (t, ofNs (Timespec.ns ⟨1, 0⟩ -
              (timespecFromTimeout ⟨⟨64, 64, false⟩, ⟨365, 100, 1000000, true⟩, true⟩ t).ns)) ∧
          kTickMin ≤ t ∧ Timespec.ns ⟨1, 0⟩ * (100 : Nat) ≤ t * nsecPerSec ∧
          (t - 1) * nsecPerSec < Timespec.ns ⟨1, 0⟩ * (100 : Nat) ∧
          (timespecFromTimeout ⟨⟨64, 64, false⟩, ⟨365, 100, 1000000, true⟩, true⟩ t).ns =
            tickNs ⟨⟨64, 64, false⟩, ⟨365, 100, 1000000, true⟩, true⟩ t ∧
          Timespec.ns ⟨1, 0⟩ ≤ (timespecFromTimeout ⟨⟨64, 64, false⟩, ⟨365, 100, 1000000, true⟩, true⟩ t).ns ∧
          ((timespecFromTimeout ⟨⟨64, 64, false⟩, ⟨365, 100, 1000000, true⟩, true⟩ t).ns - Timespec.ns ⟨1, 0⟩) *
            (100 : Nat) < nsecPerSec) :=
  have hk : TickCfg.Valid ⟨⟨64, 64, false⟩, ⟨365, 100, 1000000, true⟩, true⟩ :=
    ⟨⟨by decide, by decide⟩, by decide, by decide, by decide⟩
  have hreq : Timespec.Fits ⟨64, 64, false⟩ ⟨1, 0⟩ := ⟨⟨by decide, by decide⟩, by decide, by decide⟩
  ⟨hk, hreq, timespec_to_timeout_rounds_up _ hk _ hreq⟩

end Zephyr.Time
