import Zephyr.Lib.Checked

namespace Zephyr.Time

open Zephyr.Lib

def nsecPerSec : Int := 1000000000

-- struct timespec: tv_sec is a time_t and tv_nsec a long.
structure Timespec where
  tvSec : Int
  tvNsec : Int
  deriving DecidableEq, Repr

-- The widths of time_t and long, and CONFIG_SPEED_OPTIMIZATIONS with the
-- overflow builtins available.
structure TimeCfg where
  timeBits : Nat
  longBits : Nat
  speedOptimizations : Bool
  deriving DecidableEq, Repr

def sysTimeTMax (c : TimeCfg) : Int := sMax c.timeBits

def sysTimeTMin (c : TimeCfg) : Int := -sysTimeTMax c - 1

def timespecIsValid (ts : Timespec) : Bool := 0 ≤ ts.tvNsec && ts.tvNsec < nsecPerSec

/-! The functions; none is an arithmetic overflow of a signed type -/

def timespecNormalize (c : TimeCfg) (ts : Timespec) : Option (Bool × Timespec) := do
  let sec ← if ts.tvNsec ≥ nsecPerSec then pure (ts.tvNsec / nsecPerSec)
    else if ts.tvNsec < 0 then do
      let neg ← checked c.longBits (-ts.tvNsec)
      -- DIV_ROUND_UP((unsigned long)-ts->tv_nsec, NSEC_PER_SEC)
      pure ((neg % 2 ^ c.longBits + nsecPerSec - 1) % 2 ^ c.longBits / nsecPerSec)
    else pure 0
  -- the subtractions in the two checks run only where they cannot overflow
  if ts.tvNsec < 0 ∧ ts.tvSec < 0 ∧ ts.tvSec - sysTimeTMin c < sec then return (false, ts)
  if ts.tvNsec ≥ nsecPerSec ∧ ts.tvSec > 0 ∧ sysTimeTMax c - ts.tvSec < sec then return (false, ts)
  if ts.tvNsec ≥ nsecPerSec then
    -- tv_sec += sec is computed in the wider of time_t and long
    let s ← checked (max c.timeBits c.longBits) (ts.tvSec + sec)
    let p ← checked c.longBits (sec * nsecPerSec)
    let n ← checked c.longBits (ts.tvNsec - p)
    return (true, ⟨wrapSigned c.timeBits s, n⟩)
  if ts.tvNsec < 0 then
    let s ← checked (max c.timeBits c.longBits) (ts.tvSec - sec)
    let p ← checked c.longBits (sec * nsecPerSec)
    let n ← checked c.longBits (ts.tvNsec + p)
    return (true, ⟨wrapSigned c.timeBits s, n⟩)
  return (true, ts)

def timespecAdd (c : TimeCfg) (a b : Timespec) : Option (Bool × Timespec) := do
  if c.speedOptimizations then
    let s := addOverflow c.timeBits a.tvSec b.tvSec
    let a := { a with tvSec := s.2 }
    if s.1 then return (false, a)
    let n := addOverflow c.longBits a.tvNsec b.tvNsec
    let a := { a with tvNsec := n.2 }
    if n.1 then return (false, a)
    timespecNormalize c a
  else
    if a.tvSec < 0 ∧ b.tvSec < 0 ∧ sysTimeTMin c - a.tvSec > b.tvSec then return (false, a)
    if a.tvSec > 0 ∧ b.tvSec > 0 ∧ sysTimeTMax c - a.tvSec < b.tvSec then return (false, a)
    let s ← checked c.timeBits (a.tvSec + b.tvSec)
    let n ← checked c.longBits (a.tvNsec + b.tvNsec)
    timespecNormalize c ⟨s, n⟩

def timespecNegate (c : TimeCfg) (ts : Timespec) : Option (Bool × Timespec) := do
  if c.speedOptimizations then
    let s := subOverflow c.timeBits 0 ts.tvSec
    let ts := { ts with tvSec := s.2 }
    if s.1 then return (false, ts)
    let n := subOverflow c.longBits 0 ts.tvNsec
    let ts := { ts with tvNsec := n.2 }
    if n.1 then return (false, ts)
    timespecNormalize c ts
  else
    if ts.tvSec = sysTimeTMin c then return (false, ts)
    let s ← checked c.timeBits (-ts.tvSec)
    let n ← checked c.longBits (-ts.tvNsec)
    timespecNormalize c ⟨s, n⟩

-- timespec_sub negates a copy of b and adds it to a.
def timespecSub (c : TimeCfg) (a b : Timespec) : Option (Bool × Timespec) := do
  let (ok, neg) ← timespecNegate c b
  if !ok then return (false, a)
  timespecAdd c a neg

def timespecCompare (a b : Timespec) : Int :=
  (if a.tvSec = b.tvSec ∧ a.tvNsec < b.tvNsec then -1 else 0) +
    (if a.tvSec = b.tvSec ∧ a.tvNsec > b.tvNsec then 1 else 0) +
    (if a.tvSec < b.tvSec then -1 else 0) + (if a.tvSec > b.tvSec then 1 else 0)

/-! The exact values -/

-- The duration in nanoseconds.
def Timespec.ns (ts : Timespec) : Int := ts.tvSec * nsecPerSec + ts.tvNsec

-- The normalized timespec of a duration.
def ofNs (v : Int) : Timespec := ⟨v / nsecPerSec, v % nsecPerSec⟩

theorem ofNs_ns (v : Int) : (ofNs v).ns = v := by
  simp only [ofNs, Timespec.ns, nsecPerSec]
  omega

theorem timespecIsValid_ofNs (v : Int) : timespecIsValid (ofNs v) = true := by
  have h1 := Int.emod_nonneg v (show nsecPerSec ≠ 0 by decide)
  have h2 := Int.emod_lt_of_pos v (show 0 < nsecPerSec by decide)
  simp [timespecIsValid, ofNs, h1, h2]

-- A duration is representable when its normalized seconds fit in time_t.
def Representable (c : TimeCfg) (v : Int) : Prop := InRange c.timeBits (v / nsecPerSec)

instance (c : TimeCfg) (v : Int) : Decidable (Representable c v) := inferInstanceAs (Decidable (InRange _ _))

/-! What the functions compute -/

-- long has at least the 32 bits C asks of it, and time_t is as wide.
structure TimeCfg.Wide (c : TimeCfg) : Prop where
  long_ge : 32 ≤ c.longBits
  time_ge : c.longBits ≤ c.timeBits

theorem TimeCfg.Wide.pow {c : TimeCfg} (hc : c.Wide) :
    (2 : Int) ^ 31 ≤ 2 ^ (c.longBits - 1) ∧ (2 : Int) ^ (c.longBits - 1) ≤ 2 ^ (c.timeBits - 1) ∧
      (2 : Int) ^ c.longBits = 2 * 2 ^ (c.longBits - 1) ∧ max c.timeBits c.longBits = c.timeBits := by
  have h1 := hc.long_ge
  have h2 := hc.time_ge
  refine ⟨by exact_mod_cast Nat.pow_le_pow_right (by norm_num) (by omega),
    by exact_mod_cast Nat.pow_le_pow_right (by norm_num) (by omega), ?_, by omega⟩
  rw [← pow_succ', Nat.sub_add_cancel (by omega)]

variable {c : TimeCfg} {ts a b : Timespec}

-- On normalized timespecs timespec_compare orders by the duration.
theorem timespecCompare_eq (ha : timespecIsValid a = true) (hb : timespecIsValid b = true) :
    timespecCompare a b = if a.ns < b.ns then -1 else if a.ns = b.ns then 0 else 1 := by
  simp only [timespecIsValid, Bool.and_eq_true, decide_eq_true_eq] at ha hb
  simp only [timespecCompare, Timespec.ns, nsecPerSec] at ha hb ⊢
  split_ifs <;> omega

theorem timespecNormalize_valid (h0 : 0 ≤ ts.tvNsec) (h1 : ts.tvNsec < nsecPerSec) :
    timespecNormalize c ts = some (true, ts) := by
  have h1' : ¬ts.tvNsec ≥ nsecPerSec := by omega
  have h0' : ¬ts.tvNsec < 0 := by omega
  simp [timespecNormalize, h1', h0']

theorem timespecNormalize_large (hc : c.Wide) (hs : InRange c.timeBits ts.tvSec) (hn : InRange c.longBits ts.tvNsec)
    (h : nsecPerSec ≤ ts.tvNsec) :
    timespecNormalize c ts =
      some (if ts.tvSec > 0 ∧ sysTimeTMax c - ts.tvSec < ts.tvNsec / nsecPerSec then (false, ts)
        else (true, ofNs ts.ns)) := by
  obtain ⟨p1, p2, -, hmax⟩ := hc.pow
  have h0' : ¬ts.tvNsec < 0 := by unfold nsecPerSec at h; omega
  simp only [timespecNormalize, ge_iff_le, h, if_true, h0', false_and, if_false, pure_bind, true_and]
  split_ifs with hchk
  · rfl
  obtain ⟨s1, s2⟩ := hs
  obtain ⟨n1, n2⟩ := hn
  simp only [sMin, sMax, sysTimeTMax, nsecPerSec] at s1 s2 n1 n2 hchk h
  have e1 : checked c.timeBits (ts.tvSec + ts.tvNsec / nsecPerSec) = some (ts.tvSec + ts.tvNsec / nsecPerSec) :=
    checked_of_inRange (by simp only [InRange, sMin, sMax, nsecPerSec]; omega)
  have e2 : checked c.longBits (ts.tvNsec / nsecPerSec * nsecPerSec) = some (ts.tvNsec / nsecPerSec * nsecPerSec) :=
    checked_of_inRange (by simp only [InRange, sMin, sMax, nsecPerSec]; omega)
  have e3 : checked c.longBits (ts.tvNsec - ts.tvNsec / nsecPerSec * nsecPerSec) =
      some (ts.tvNsec - ts.tvNsec / nsecPerSec * nsecPerSec) :=
    checked_of_inRange (by simp only [InRange, sMin, sMax, nsecPerSec]; omega)
  have e4 : wrapSigned c.timeBits (ts.tvSec + ts.tvNsec / nsecPerSec) = ts.tvSec + ts.tvNsec / nsecPerSec :=
    wrapSigned_of_inRange (by have := hc.long_ge; have := hc.time_ge; omega) (by simp only [InRange, sMin, sMax, nsecPerSec]; omega)
  simp only [hmax, e1, e2, e3, e4, Option.pure_def, Option.bind_eq_bind, Option.bind_some, Option.some.injEq,
    Prod.mk.injEq, true_and, ofNs, Timespec.ns, Timespec.mk.injEq]
  unfold nsecPerSec
  omega

theorem timespecNormalize_neg (hc : c.Wide) (hs : InRange c.timeBits ts.tvSec)
    (hn : sMin c.longBits + nsecPerSec ≤ ts.tvNsec) (h : ts.tvNsec < 0) :
    timespecNormalize c ts =
      some (if ts.tvSec < 0 ∧ ts.tvSec - sysTimeTMin c < (-ts.tvNsec + nsecPerSec - 1) / nsecPerSec then (false, ts)
        else (true, ofNs ts.ns)) := by
  obtain ⟨p1, p2, p3, hmax⟩ := hc.pow
  obtain ⟨s1, s2⟩ := hs
  simp only [sMin, sMax, nsecPerSec] at s1 s2 hn
  have hge : ¬ts.tvNsec ≥ nsecPerSec := by unfold nsecPerSec; omega
  -- DIV_ROUND_UP on the unsigned long does not wrap
  have e0 : checked c.longBits (-ts.tvNsec) = some (-ts.tvNsec) :=
    checked_of_inRange (by simp only [InRange, sMin, sMax]; omega)
  have ed : (-ts.tvNsec % 2 ^ c.longBits + nsecPerSec - 1) % 2 ^ c.longBits / nsecPerSec =
      (-ts.tvNsec + nsecPerSec - 1) / nsecPerSec := by
    have m1 : -ts.tvNsec % 2 ^ c.longBits = -ts.tvNsec := Int.emod_eq_of_lt (by omega) (by omega)
    have m2 : (-ts.tvNsec + nsecPerSec - 1) % 2 ^ c.longBits = -ts.tvNsec + nsecPerSec - 1 :=
      Int.emod_eq_of_lt (by unfold nsecPerSec; omega) (by unfold nsecPerSec; omega)
    rw [m1, m2]
  simp only [timespecNormalize, hge, h, e0, ed, if_false, if_true, true_and, false_and, Option.pure_def,
    Option.bind_eq_bind, Option.bind_some]
  split_ifs with hchk
  · rfl
  simp only [sysTimeTMin, sysTimeTMax, sMax, nsecPerSec] at hchk
  have e1 : checked (max c.timeBits c.longBits) (ts.tvSec - (-ts.tvNsec + nsecPerSec - 1) / nsecPerSec) =
      some (ts.tvSec - (-ts.tvNsec + nsecPerSec - 1) / nsecPerSec) :=
    checked_of_inRange (by rw [hmax]; simp only [InRange, sMin, sMax, nsecPerSec]; omega)
  have e2 : checked c.longBits ((-ts.tvNsec + nsecPerSec - 1) / nsecPerSec * nsecPerSec) =
      some ((-ts.tvNsec + nsecPerSec - 1) / nsecPerSec * nsecPerSec) :=
    checked_of_inRange (by simp only [InRange, sMin, sMax, nsecPerSec]; omega)
  have e3 : checked c.longBits (ts.tvNsec + (-ts.tvNsec + nsecPerSec - 1) / nsecPerSec * nsecPerSec) =
      some (ts.tvNsec + (-ts.tvNsec + nsecPerSec - 1) / nsecPerSec * nsecPerSec) :=
    checked_of_inRange (by simp only [InRange, sMin, sMax, nsecPerSec]; omega)
  have e4 : wrapSigned c.timeBits (ts.tvSec - (-ts.tvNsec + nsecPerSec - 1) / nsecPerSec) =
      ts.tvSec - (-ts.tvNsec + nsecPerSec - 1) / nsecPerSec :=
    wrapSigned_of_inRange (by have := hc.long_ge; have := hc.time_ge; omega)
      (by simp only [InRange, sMin, sMax, nsecPerSec]; omega)
  simp only [e1, e2, e3, e4, Option.bind_some, ofNs, Timespec.ns, Timespec.mk.injEq, Option.some.injEq,
    Prod.mk.injEq, true_and]
  unfold nsecPerSec
  omega

theorem ofNs_of_valid (h0 : 0 ≤ ts.tvNsec) (h1 : ts.tvNsec < nsecPerSec) : ofNs ts.ns = ts := by
  simp only [ofNs, Timespec.ns, nsecPerSec] at h1 ⊢
  congr 1 <;> omega

theorem representable_ns_iff :
    Representable c ts.ns ↔ sMin c.timeBits ≤ ts.tvSec + ts.tvNsec / nsecPerSec ∧
      ts.tvSec + ts.tvNsec / nsecPerSec ≤ sMax c.timeBits := by
  have : ts.ns / nsecPerSec = ts.tvSec + ts.tvNsec / nsecPerSec := by
    simp only [Timespec.ns, nsecPerSec]
    omega
  rw [Representable, this, InRange]

-- timespec_normalize gives the normalized timespec exactly when it is
-- representable, for every tv_nsec from LONG_MIN + NSEC_PER_SEC up.
theorem timespecNormalize_spec (hc : c.Wide) (hs : InRange c.timeBits ts.tvSec) (hn : InRange c.longBits ts.tvNsec)
    (hub : sMin c.longBits + nsecPerSec ≤ ts.tvNsec) :
    timespecNormalize c ts = some (if Representable c ts.ns then (true, ofNs ts.ns) else (false, ts)) := by
  obtain ⟨p1, p2, -, -⟩ := hc.pow
  have hr := @representable_ns_iff c ts
  have hs' := hs
  obtain ⟨s1, s2⟩ := hs'
  obtain ⟨-, n2⟩ := hn
  simp only [sMin, sMax, nsecPerSec] at s1 s2 n2 hub hr
  -- the case split of the source, then whether the result is representable
  by_cases hbig : nsecPerSec ≤ ts.tvNsec
  · rw [timespecNormalize_large hc hs ⟨by simp only [sMin]; unfold nsecPerSec at hbig; omega, n2⟩ hbig]
    unfold nsecPerSec at hbig
    by_cases hR : Representable c ts.ns
    · obtain ⟨r1, r2⟩ := hr.1 hR
      rw [if_pos hR, if_neg (by simp only [sysTimeTMax, sMax, nsecPerSec]; omega)]
    · rw [if_neg hR]
      rw [hr] at hR
      rw [if_pos (by simp only [sysTimeTMax, sMax, nsecPerSec]; omega)]
  by_cases hneg : ts.tvNsec < 0
  · rw [timespecNormalize_neg hc hs (by simp only [sMin, nsecPerSec]; omega) hneg]
    by_cases hR : Representable c ts.ns
    · obtain ⟨r1, r2⟩ := hr.1 hR
      rw [if_pos hR, if_neg (by simp only [sysTimeTMin, sysTimeTMax, sMax, nsecPerSec]; omega)]
    · rw [if_neg hR]
      rw [hr] at hR
      rw [if_pos (by simp only [sysTimeTMin, sysTimeTMax, sMax, nsecPerSec]; omega)]
  · have h0 : 0 ≤ ts.tvNsec := Int.not_lt.1 hneg
    have h1 : ts.tvNsec < nsecPerSec := Int.not_le.1 hbig
    rw [timespecNormalize_valid h0 h1, if_pos (hr.2 ⟨by unfold nsecPerSec at h1; omega, by
      unfold nsecPerSec at h1; omega⟩), ofNs_of_valid h0 h1]

-- A normalized timespec whose seconds fit in time_t.
structure Timespec.Fits (c : TimeCfg) (ts : Timespec) : Prop where
  sec : InRange c.timeBits ts.tvSec
  nsec_nonneg : 0 ≤ ts.tvNsec
  nsec_lt : ts.tvNsec < nsecPerSec

theorem Timespec.Fits.valid (h : ts.Fits c) : timespecIsValid ts = true := by
  simp [timespecIsValid, h.nsec_nonneg, h.nsec_lt]

theorem ofNs_fits {v : Int} (h : Representable c v) : (ofNs v).Fits c :=
  ⟨h, Int.emod_nonneg v (by decide), Int.emod_lt_of_pos v (by decide)⟩

-- The sum of two normalized nanosecond fields fits in a long of 32 bits or more.
theorem inRange_nsec_add (hc : c.Wide) (ha : a.Fits c) (hb : b.Fits c) :
    InRange c.longBits (a.tvNsec + b.tvNsec) := by
  obtain ⟨p1, -, -, -⟩ := hc.pow
  have := ha.nsec_nonneg
  have := ha.nsec_lt
  have := hb.nsec_nonneg
  have := hb.nsec_lt
  simp only [InRange, sMin, sMax]
  unfold nsecPerSec at *
  omega

theorem timespecAdd_of_fits (hc : c.Wide) (ha : a.Fits c) (hb : b.Fits c)
    (hs : InRange c.timeBits (a.tvSec + b.tvSec)) (hr : Representable c (a.ns + b.ns)) :
    timespecAdd c a b = some (true, ofNs (a.ns + b.ns)) := by
  have hn := inRange_nsec_add hc ha hb
  have hw : 0 < c.timeBits := by have := hc.long_ge; have := hc.time_ge; omega
  have hnorm : timespecNormalize c ⟨a.tvSec + b.tvSec, a.tvNsec + b.tvNsec⟩ = some (true, ofNs (a.ns + b.ns)) := by
    have hns : Timespec.ns ⟨a.tvSec + b.tvSec, a.tvNsec + b.tvNsec⟩ = a.ns + b.ns := by
      simp only [Timespec.ns]
      ring
    have hub : sMin c.longBits + nsecPerSec ≤ a.tvNsec + b.tvNsec := by
      obtain ⟨p1, -, -, -⟩ := hc.pow
      have := ha.nsec_nonneg
      have := hb.nsec_nonneg
      simp only [sMin, nsecPerSec]
      omega
    rw [timespecNormalize_spec hc hs hn hub, hns, if_pos hr]
  obtain ⟨s1, s2⟩ := ha.sec
  obtain ⟨t1, t2⟩ := hb.sec
  obtain ⟨u1, u2⟩ := hs
  cases hsp : c.speedOptimizations
  · -- the portable checks of the two signs
    have hlo : ¬(a.tvSec < 0 ∧ b.tvSec < 0 ∧ sysTimeTMin c - a.tvSec > b.tvSec) := by
      have := sMax_add_one c.timeBits
      simp only [sysTimeTMin, sysTimeTMax]
      omega
    have hhi : ¬(a.tvSec > 0 ∧ b.tvSec > 0 ∧ sysTimeTMax c - a.tvSec < b.tvSec) := by
      simp only [sysTimeTMax]
      omega
    simp only [timespecAdd, hsp, Bool.false_eq_true, if_false, hlo, hhi, checked_of_inRange ⟨u1, u2⟩,
      checked_of_inRange hn, Option.bind_eq_bind, Option.bind_some, hnorm]
  · simp only [timespecAdd, hsp, if_true, addOverflow_of_inRange hw ⟨u1, u2⟩,
      addOverflow_of_inRange (by have := hc.long_ge; omega) hn, Bool.false_eq_true, if_false]
    exact hnorm

theorem timespecNegate_of_fits (hc : c.Wide) (h : ts.Fits c) (hne : ts.tvSec ≠ sysTimeTMin c) :
    timespecNegate c ts = some (true, ofNs (-ts.ns)) := by
  obtain ⟨p1, -, -, -⟩ := hc.pow
  obtain ⟨⟨s1, s2⟩, n0, n1⟩ := h
  have hm := sMax_add_one c.timeBits
  simp only [sysTimeTMin, sysTimeTMax] at hne
  simp only [nsecPerSec] at n1
  have hs : InRange c.timeBits (-ts.tvSec) := ⟨by omega, by omega⟩
  have hn : InRange c.longBits (-ts.tvNsec) := by simp only [InRange, sMin, sMax]; omega
  have hnorm : timespecNormalize c ⟨-ts.tvSec, -ts.tvNsec⟩ = some (true, ofNs (-ts.ns)) := by
    have hns : Timespec.ns ⟨-ts.tvSec, -ts.tvNsec⟩ = -ts.ns := by
      simp only [Timespec.ns]
      ring
    -- the negated duration rounds down at most one second below -tv_sec
    have hr : Representable c (Timespec.ns ⟨-ts.tvSec, -ts.tvNsec⟩) := by
      rw [representable_ns_iff]
      simp only [nsecPerSec]
      omega
    rw [timespecNormalize_spec hc hs hn (by simp only [sMin, nsecPerSec]; omega), if_pos hr, hns]
  cases hsp : c.speedOptimizations
  · simp only [timespecNegate, hsp, Bool.false_eq_true, if_false, sysTimeTMin, sysTimeTMax, hne,
      checked_of_inRange hs, checked_of_inRange hn, Option.bind_eq_bind, Option.bind_some, hnorm]
  · have hs0 : InRange c.timeBits (0 - ts.tvSec) := by rw [Int.zero_sub]; exact hs
    have hn0 : InRange c.longBits (0 - ts.tvNsec) := by rw [Int.zero_sub]; exact hn
    simp only [timespecNegate, hsp, if_true, subOverflow_of_inRange (by have := hc.long_ge; have := hc.time_ge; omega) hs0,
      subOverflow_of_inRange (by have := hc.long_ge; omega) hn0, Bool.false_eq_true, if_false, Int.zero_sub]
    exact hnorm

-- timespec_sub adds the normalized negation of b.
theorem timespecSub_of_fits (hc : c.Wide) (hb : b.Fits c) (hne : b.tvSec ≠ sysTimeTMin c) :
    timespecSub c a b = timespecAdd c a (ofNs (-b.ns)) := by
  simp [timespecSub, timespecNegate_of_fits hc hb hne]

-- timespec_sub and then timespec_negate, as timespec_to_timeout computes its
-- remainder: a - b and then b - a, for a nonnegative b while b - a stays
-- above SYS_TIME_T_MIN seconds.
theorem timespecSub_negate (hc : c.Wide) (ha : a.Fits c) (hb : b.Fits c) (hb0 : 0 ≤ b.tvSec)
    (hd : b.ns - a.ns ≤ sysTimeTMax c * nsecPerSec) :
    timespecSub c a b = some (true, ofNs (a.ns - b.ns)) ∧
      timespecNegate c (ofNs (a.ns - b.ns)) = some (true, ofNs (b.ns - a.ns)) := by
  obtain ⟨p1, -, -, -⟩ := hc.pow
  have hm := sMax_add_one c.timeBits
  obtain ⟨⟨s1, s2⟩, an0, an1⟩ := ha
  obtain ⟨⟨t1, t2⟩, bn0, bn1⟩ := hb
  have hne : b.tvSec ≠ sysTimeTMin c := by simp only [sysTimeTMin, sysTimeTMax]; omega
  have e : a.ns + (ofNs (-b.ns)).ns = a.ns - b.ns := by rw [ofNs_ns]; ring
  simp only [sysTimeTMax, Timespec.ns, nsecPerSec] at hd an1 bn1
  have hrb : Representable c (-b.ns) := by
    simp only [Representable, InRange, Timespec.ns, nsecPerSec]
    omega
  have hs : InRange c.timeBits (a.tvSec + (ofNs (-b.ns)).tvSec) := by
    simp only [InRange, ofNs, Timespec.ns, nsecPerSec]
    omega
  have hr : Representable c (a.ns - b.ns) := by
    simp only [Representable, InRange, Timespec.ns, nsecPerSec]
    omega
  have hne' : (ofNs (a.ns - b.ns)).tvSec ≠ sysTimeTMin c := by
    simp only [ofNs, sysTimeTMin, sysTimeTMax, Timespec.ns, nsecPerSec]
    omega
  constructor
  · rw [timespecSub_of_fits hc ⟨⟨t1, t2⟩, bn0, bn1⟩ hne,
      timespecAdd_of_fits hc ⟨⟨s1, s2⟩, an0, an1⟩ (ofNs_fits hrb) hs (e ▸ hr), e]
  · rw [timespecNegate_of_fits hc (ofNs_fits hr) hne', ofNs_ns, neg_sub]

-- With 64-bit time_t and long, each function fails where the exact result is
-- representable: timespec_normalize negates LONG_MIN, timespec_negate refuses
-- every tv_sec of SYS_TIME_T_MIN, and timespec_sub inherits that refusal.
theorem timespec_min_limits (speed : Bool) :
    timespecNormalize ⟨64, 64, speed⟩ ⟨0, -2 ^ 63⟩ = none ∧ ofNs (-2 ^ 63) = ⟨-9223372037, 145224192⟩ ∧
      timespecNegate ⟨64, 64, speed⟩ ⟨-2 ^ 63, 1⟩ = some (false, ⟨-2 ^ 63, 1⟩) ∧
      ofNs (-(Timespec.ns ⟨-2 ^ 63, 1⟩)) = ⟨2 ^ 63 - 1, 999999999⟩ ∧
      timespecSub ⟨64, 64, speed⟩ ⟨-1, 0⟩ ⟨-2 ^ 63, 0⟩ = some (false, ⟨-1, 0⟩) ∧
      ofNs (Timespec.ns ⟨-1, 0⟩ - Timespec.ns ⟨-2 ^ 63, 0⟩) = ⟨2 ^ 63 - 1, 0⟩ := by
  cases speed <;> decide

end Zephyr.Time
