import Mathlib.Tactic.Ring
import Mathlib.Tactic.NormNum

namespace Zephyr.Time

/-! time_units.h: the z_tmcvt conversions between frequencies -/

-- round_up and round_off of the macros; both false truncates.
inductive Rounding where
  | floor
  | near
  | ceil
  deriving DecidableEq, Repr

def Rounding.roundUp : Rounding → Bool
  | .ceil => true
  | _ => false

def Rounding.roundOff : Rounding → Bool
  | .near => true
  | _ => false

def zTmcvtOffDiv (fromHz toHz : Nat) (roundUp roundOff : Bool) : Nat :=
  if roundOff then fromHz / toHz / 2 else if roundUp then fromHz / toHz - 1 else 0

def zTmcvtDivisor (a b : Nat) : Nat := if a / b ≠ 0 then a / b else 1

-- z_tmcvt_off_gen takes to_hz too, and does not use it.
def zTmcvtOffGen (fromHz : Nat) (roundUp roundOff : Bool) : Nat :=
  if roundOff then fromHz / 2 else if roundUp then fromHz - 1 else 0

-- DIV_ROUND_UP(CONFIG_SYS_CLOCK_MAX_TIMEOUT_DAYS * 24ULL * 3600ULL * from_hz,
-- UINT32_MAX) * to_hz <= UINT32_MAX, in unsigned long long.
def zTmcvtUseFastAlgo (maxTimeoutDays fromHz toHz : Nat) : Bool :=
  let n := maxTimeoutDays * 24 * 3600 * fromHz % 2 ^ 64
  (n + (2 ^ 32 - 1) - 1) % 2 ^ 64 / (2 ^ 32 - 1) * toHz % 2 ^ 64 ≤ 2 ^ 32 - 1

-- The 64-bit macros: t is a uint64_t, and every expression with t in it is
-- computed in uint64_t.
def zTmcvtIntDiv64 (t : UInt64) (fromHz toHz : Nat) (roundUp roundOff : Bool) : Nat :=
  (t.toNat + zTmcvtOffDiv fromHz toHz roundUp roundOff) % 2 ^ 64 / zTmcvtDivisor fromHz toHz

def zTmcvtIntMul64 (t : UInt64) (fromHz toHz : Nat) : Nat := t.toNat * (toHz / fromHz) % 2 ^ 64

def zTmcvtGen64Fast (t : UInt64) (fromHz toHz : Nat) (roundUp roundOff : Bool) : Nat :=
  (t.toNat * toHz % 2 ^ 64 + zTmcvtOffGen fromHz roundUp roundOff) % 2 ^ 64 / fromHz

def zTmcvtGen64Slow (t : UInt64) (fromHz toHz : Nat) (roundUp roundOff : Bool) : Nat :=
  (t.toNat / fromHz * toHz % 2 ^ 64 +
    (t.toNat % fromHz * toHz % 2 ^ 64 + zTmcvtOffGen fromHz roundUp roundOff) % 2 ^ 64 / fromHz) % 2 ^ 64

def zTmcvtGen64 (maxTimeoutDays : Nat) (t : UInt64) (fromHz toHz : Nat) (roundUp roundOff : Bool) : Nat :=
  if zTmcvtUseFastAlgo maxTimeoutDays fromHz toHz then zTmcvtGen64Fast t fromHz toHz roundUp roundOff
  else zTmcvtGen64Slow t fromHz toHz roundUp roundOff

def zTmcvt64 (maxTimeoutDays : Nat) (t : UInt64) (fromHz toHz : Nat) (constHz roundUp roundOff : Bool) : Nat :=
  if constHz then
    if toHz = fromHz then t.toNat
    else if fromHz > toHz ∧ fromHz % toHz = 0 then zTmcvtIntDiv64 t fromHz toHz roundUp roundOff
    else if toHz > fromHz ∧ toHz % fromHz = 0 then zTmcvtIntMul64 t fromHz toHz
    else zTmcvtGen64 maxTimeoutDays t fromHz toHz roundUp roundOff
  else zTmcvtGen64Slow t fromHz toHz roundUp roundOff

-- The 32-bit macros on a uint64_t t. z_tmcvt_int_div_32 picks the type of the
-- sum by a guard; for a uint64_t t both branches compute in uint64_t.
def zTmcvtIntDiv32 (t : UInt64) (fromHz toHz : Nat) (roundUp roundOff : Bool) : Nat :=
  zTmcvtIntDiv64 t fromHz toHz roundUp roundOff % 2 ^ 32

def zTmcvtIntMul32 (t : UInt64) (fromHz toHz : Nat) : Nat := zTmcvtIntMul64 t fromHz toHz % 2 ^ 32

def zTmcvtGen32 (t : UInt64) (fromHz toHz : Nat) (roundUp roundOff : Bool) : Nat :=
  zTmcvtGen64Fast t fromHz toHz roundUp roundOff % 2 ^ 32

def zTmcvt32 (t : UInt64) (fromHz toHz : Nat) (constHz roundUp roundOff : Bool) : Nat :=
  if constHz then
    if toHz = fromHz then t.toNat % 2 ^ 32
    else if fromHz > toHz ∧ fromHz % toHz = 0 then zTmcvtIntDiv32 t fromHz toHz roundUp roundOff
    else if toHz > fromHz ∧ toHz % fromHz = 0 then zTmcvtIntMul32 t fromHz toHz
    else zTmcvtGen32 t fromHz toHz roundUp roundOff
  else zTmcvtGen32 t fromHz toHz roundUp roundOff

/-! The units of the generated k_<from>_to_<to>_<round><bits> macros -/

inductive TimeUnit where
  | sec
  | ms
  | us
  | ns
  | cyc
  | ticks
  deriving DecidableEq, Repr

-- The configuration the macros read: CONFIG_SYS_CLOCK_MAX_TIMEOUT_DAYS,
-- CONFIG_SYS_CLOCK_TICKS_PER_SEC, sys_clock_hw_cycles_per_sec() and Z_CCYC.
structure ClockCfg where
  maxTimeoutDays : Nat
  ticksPerSec : Nat
  cyclesPerSec : Nat
  constCyc : Bool

def TimeUnit.hz (cfg : ClockCfg) : TimeUnit → Nat
  | .sec => 1
  | .ms => 1000
  | .us => 1000000
  | .ns => 1000000000
  | .cyc => cfg.cyclesPerSec
  | .ticks => cfg.ticksPerSec

def kConvert64 (cfg : ClockCfg) (src dst : TimeUnit) (r : Rounding) (t : UInt64) : Nat :=
  zTmcvt64 cfg.maxTimeoutDays t (src.hz cfg) (dst.hz cfg) (if src = .cyc ∨ dst = .cyc then cfg.constCyc else true)
    r.roundUp r.roundOff

def kConvert32 (cfg : ClockCfg) (src dst : TimeUnit) (r : Rounding) (t : UInt64) : Nat :=
  zTmcvt32 t (src.hz cfg) (dst.hz cfg) (if src = .cyc ∨ dst = .cyc then cfg.constCyc else true) r.roundUp r.roundOff

/-! The exact conversion, and where each path agrees with it -/

-- floor((t * to_hz + off) / from_hz) with the rounding offset of the general path.
def exactTmcvt (t fromHz toHz : Nat) (roundUp roundOff : Bool) : Nat :=
  (t * toHz + zTmcvtOffGen fromHz roundUp roundOff) / fromHz

section Exact

variable {fromHz toHz : Nat} {roundUp roundOff : Bool}

theorem zTmcvtOffGen_lt (hf : 0 < fromHz) : zTmcvtOffGen fromHz roundUp roundOff < fromHz := by
  unfold zTmcvtOffGen
  split_ifs <;> omega

theorem exactTmcvt_self (t : Nat) (hf : 0 < fromHz) : exactTmcvt t fromHz fromHz roundUp roundOff = t := by
  have : zTmcvtOffGen fromHz roundUp roundOff < fromHz := zTmcvtOffGen_lt hf
  unfold exactTmcvt
  rw [Nat.mul_comm, Nat.mul_add_div hf, Nat.div_eq_of_lt this, Nat.add_zero]

-- With from_hz = k * to_hz the general offset over to_hz is the division offset.
theorem zTmcvtOffGen_div {k : Nat} (ht : 0 < toHz) (hk : 0 < k) :
    zTmcvtOffGen (k * toHz) roundUp roundOff / toHz = zTmcvtOffDiv (k * toHz) toHz roundUp roundOff := by
  have hk' : k * toHz / toHz = k := Nat.mul_div_cancel _ ht
  unfold zTmcvtOffGen zTmcvtOffDiv
  rw [hk']
  split_ifs
  · rw [Nat.div_div_eq_div_mul, Nat.mul_comm 2, ← Nat.div_div_eq_div_mul, hk']
  · have : k * toHz - 1 = toHz - 1 + (k - 1) * toHz := by
      rw [Nat.sub_mul, Nat.one_mul]
      have := Nat.le_mul_of_pos_left toHz hk
      omega
    rw [this, Nat.add_mul_div_right _ _ ht, Nat.div_eq_of_lt (by omega), Nat.zero_add]
  · exact Nat.zero_div toHz

theorem zTmcvtIntDiv64_eq (t : UInt64) (ht : 0 < toHz) (hlt : toHz < fromHz) (hdvd : fromHz % toHz = 0)
    (hno : t.toNat + zTmcvtOffDiv fromHz toHz roundUp roundOff < 2 ^ 64) :
    zTmcvtIntDiv64 t fromHz toHz roundUp roundOff = exactTmcvt t.toNat fromHz toHz roundUp roundOff := by
  obtain ⟨k, rfl⟩ : ∃ k, fromHz = k * toHz := ⟨fromHz / toHz, (Nat.div_mul_cancel (Nat.dvd_of_mod_eq_zero hdvd)).symm⟩
  have hk : 0 < k := Nat.pos_of_ne_zero fun h => by simp [h] at hlt
  have hdiv : zTmcvtDivisor (k * toHz) toHz = k := by
    rw [zTmcvtDivisor, Nat.mul_div_cancel _ ht, if_pos (Nat.pos_iff_ne_zero.1 hk)]
  rw [zTmcvtIntDiv64, Nat.mod_eq_of_lt hno, hdiv, exactTmcvt, Nat.mul_comm k, ← Nat.div_div_eq_div_mul,
    Nat.mul_comm toHz k, ← zTmcvtOffGen_div ht hk, Nat.mul_comm t.toNat, Nat.mul_add_div ht]

theorem zTmcvtIntMul64_eq (t : UInt64) (hf : 0 < fromHz) (hdvd : toHz % fromHz = 0) :
    zTmcvtIntMul64 t fromHz toHz = exactTmcvt t.toNat fromHz toHz roundUp roundOff % 2 ^ 64 := by
  obtain ⟨k, rfl⟩ : ∃ k, toHz = k * fromHz := ⟨toHz / fromHz, (Nat.div_mul_cancel (Nat.dvd_of_mod_eq_zero hdvd)).symm⟩
  have : zTmcvtOffGen fromHz roundUp roundOff < fromHz := zTmcvtOffGen_lt hf
  rw [zTmcvtIntMul64, exactTmcvt, Nat.mul_div_cancel _ hf, ← Nat.mul_assoc, Nat.mul_comm _ fromHz,
    Nat.mul_add_div hf, Nat.div_eq_of_lt this, Nat.add_zero]

-- The quotient and remainder split of the slow path loses nothing while the
-- remainder's product with to_hz fits in 64 bits.
theorem zTmcvtGen64Slow_eq (t : UInt64) (hf : 0 < fromHz)
    (hfit : (fromHz - 1) * toHz + zTmcvtOffGen fromHz roundUp roundOff < 2 ^ 64) :
    zTmcvtGen64Slow t fromHz toHz roundUp roundOff = exactTmcvt t.toNat fromHz toHz roundUp roundOff % 2 ^ 64 := by
  have hr : t.toNat % fromHz * toHz ≤ (fromHz - 1) * toHz :=
    Nat.mul_le_mul_right _ (Nat.le_sub_one_of_lt (Nat.mod_lt _ hf))
  have hsplit : t.toNat * toHz = fromHz * (t.toNat / fromHz * toHz) + t.toNat % fromHz * toHz := by
    conv_lhs => rw [← Nat.div_add_mod t.toNat fromHz]
    ring
  have h1 : t.toNat % fromHz * toHz % 2 ^ 64 = t.toNat % fromHz * toHz := Nat.mod_eq_of_lt (by omega)
  have h2 : (t.toNat % fromHz * toHz + zTmcvtOffGen fromHz roundUp roundOff) % 2 ^ 64 =
      t.toNat % fromHz * toHz + zTmcvtOffGen fromHz roundUp roundOff := Nat.mod_eq_of_lt (by omega)
  rw [zTmcvtGen64Slow, h1, h2, Nat.mod_add_mod, exactTmcvt, hsplit, Nat.add_assoc, Nat.mul_add_div hf]

-- The fast path agrees for every t up to the longest timeout, where the
-- product with to_hz fits by the selection condition.
theorem zTmcvtGen64Fast_eq (t : UInt64)
    (hfit : t.toNat * toHz + zTmcvtOffGen fromHz roundUp roundOff < 2 ^ 64) :
    zTmcvtGen64Fast t fromHz toHz roundUp roundOff = exactTmcvt t.toNat fromHz toHz roundUp roundOff := by
  rw [zTmcvtGen64Fast, Nat.mod_eq_of_lt (show t.toNat * toHz < 2 ^ 64 by omega), Nat.mod_eq_of_lt hfit, exactTmcvt]

-- What the selection condition of the fast path gives: the product with
-- to_hz of every t up to the longest timeout, plus the offset, fits in 64 bits.
theorem zTmcvtUseFastAlgo_fits {maxTimeoutDays t : Nat} (hsel : zTmcvtUseFastAlgo maxTimeoutDays fromHz toHz = true)
    (ht : t ≤ maxTimeoutDays * 24 * 3600 * fromHz) (hM : maxTimeoutDays * 24 * 3600 * fromHz + 2 ^ 32 < 2 ^ 64)
    (hf : fromHz ≤ 2 ^ 32) (hto : toHz < 2 ^ 32) :
    t * toHz + zTmcvtOffGen fromHz roundUp roundOff < 2 ^ 64 := by
  generalize hm : maxTimeoutDays * 24 * 3600 * fromHz = m at ht hM
  generalize hq : (m + (2 ^ 32 - 1) - 1) / (2 ^ 32 - 1) = q
  have hqb : q ≤ 2 ^ 32 + 1 := by omega
  have hqt : q * toHz < 2 ^ 64 :=
    calc q * toHz ≤ (2 ^ 32 + 1) * (2 ^ 32 - 1) := Nat.mul_le_mul hqb (by omega)
      _ < 2 ^ 64 := by omega
  have hsel' : q * toHz ≤ 2 ^ 32 - 1 := by
    simp only [zTmcvtUseFastAlgo, hm, Nat.mod_eq_of_lt (show m < 2 ^ 64 by omega),
      Nat.mod_eq_of_lt (show m + (2 ^ 32 - 1) - 1 < 2 ^ 64 by omega), hq, Nat.mod_eq_of_lt hqt,
      decide_eq_true_eq] at hsel
    exact hsel
  -- m rounds up to q words of UINT32_MAX
  have hmq : m ≤ q * (2 ^ 32 - 1) := by omega
  have hoff : zTmcvtOffGen fromHz roundUp roundOff ≤ 2 ^ 32 := by
    unfold zTmcvtOffGen
    split_ifs <;> omega
  calc t * toHz + zTmcvtOffGen fromHz roundUp roundOff
      ≤ q * (2 ^ 32 - 1) * toHz + 2 ^ 32 := Nat.add_le_add (Nat.mul_le_mul_right _ (ht.trans hmq)) hoff
    _ = (2 ^ 32 - 1) * (q * toHz) + 2 ^ 32 := by ring
    _ ≤ (2 ^ 32 - 1) * (2 ^ 32 - 1) + 2 ^ 32 := Nat.add_le_add_right (Nat.mul_le_mul_left _ hsel') _
    _ < 2 ^ 64 := by omega

theorem zTmcvtOffDiv_lt (hf : 0 < fromHz) : zTmcvtOffDiv fromHz toHz roundUp roundOff < fromHz := by
  have := Nat.div_le_self fromHz toHz
  unfold zTmcvtOffDiv
  split_ifs <;> omega

-- Every path of z_tmcvt_64 gives the exact conversion while t times to_hz and
-- from_hz times to_hz, each plus from_hz, stay inside uint64_t.
theorem zTmcvt64_eq_exact (maxTimeoutDays : Nat) (t : UInt64) (constHz : Bool) (hf : 0 < fromHz) (ht : 0 < toHz)
    (hmul : t.toNat * toHz + fromHz ≤ 2 ^ 64) (hprod : fromHz * toHz + fromHz ≤ 2 ^ 64) :
    zTmcvt64 maxTimeoutDays t fromHz toHz constHz roundUp roundOff =
      exactTmcvt t.toNat fromHz toHz roundUp roundOff := by
  have hoff : zTmcvtOffGen fromHz roundUp roundOff < fromHz := zTmcvtOffGen_lt hf
  have hle : t.toNat ≤ t.toNat * toHz := Nat.le_mul_of_pos_right _ ht
  -- the exact result is below its numerator, so no path reduces it modulo 2^64
  have hexact : exactTmcvt t.toNat fromHz toHz roundUp roundOff < 2 ^ 64 :=
    Nat.lt_of_le_of_lt (Nat.div_le_self _ _) (by omega)
  have hslow : zTmcvtGen64Slow t fromHz toHz roundUp roundOff = exactTmcvt t.toNat fromHz toHz roundUp roundOff := by
    have : (fromHz - 1) * toHz ≤ fromHz * toHz := Nat.mul_le_mul_right _ (Nat.sub_le _ _)
    rw [zTmcvtGen64Slow_eq t hf (by omega), Nat.mod_eq_of_lt hexact]
  unfold zTmcvt64
  split_ifs with hc hid hdiv hmul'
  · subst hid
    exact (exactTmcvt_self _ hf).symm
  · have : zTmcvtOffDiv fromHz toHz roundUp roundOff < fromHz := zTmcvtOffDiv_lt hf
    exact zTmcvtIntDiv64_eq t ht hdiv.1 hdiv.2 (by omega)
  · rw [zTmcvtIntMul64_eq t hf hmul'.2, Nat.mod_eq_of_lt hexact]
  · unfold zTmcvtGen64
    split_ifs
    · exact zTmcvtGen64Fast_eq t (by omega)
    · exact hslow
  · exact hslow

theorem kConvert64_eq_exact (cfg : ClockCfg) (src dst : TimeUnit) (r : Rounding) (t : UInt64)
    (hf : 0 < src.hz cfg) (ht : 0 < dst.hz cfg) (hmul : t.toNat * dst.hz cfg + src.hz cfg ≤ 2 ^ 64)
    (hprod : src.hz cfg * dst.hz cfg + src.hz cfg ≤ 2 ^ 64) :
    kConvert64 cfg src dst r t = exactTmcvt t.toNat (src.hz cfg) (dst.hz cfg) r.roundUp r.roundOff :=
  zTmcvt64_eq_exact _ t _ hf ht hmul hprod

-- Past the top of uint64_t the sum of the division path wraps.
theorem zTmcvtIntDiv64_wrap (t : UInt64) (h : 2 ^ 64 ≤ t.toNat + zTmcvtOffDiv fromHz toHz roundUp roundOff)
    (hoff : zTmcvtOffDiv fromHz toHz roundUp roundOff < 2 ^ 64) :
    zTmcvtIntDiv64 t fromHz toHz roundUp roundOff =
      (t.toNat + zTmcvtOffDiv fromHz toHz roundUp roundOff - 2 ^ 64) / zTmcvtDivisor fromHz toHz := by
  have ht := t.toNat_lt
  rw [zTmcvtIntDiv64, Nat.mod_eq_sub_mod h, Nat.mod_eq_of_lt (by omega)]

end Exact

-- k_ns_to_ms_ceil64(UINT64_MAX): the sum t + 999999 wraps to 999998 before the
-- division by 1000000, where the exact conversion is 18446744073710.
theorem k_ns_to_ms_ceil64_wraps (cfg : ClockCfg) :
    kConvert64 cfg .ns .ms .ceil 0xFFFFFFFFFFFFFFFF = 0 ∧
      exactTmcvt 0xFFFFFFFFFFFFFFFF 1000000000 1000 true false = 18446744073710 := by
  constructor
  · rw [kConvert64, if_neg (by decide)]
    simp only [TimeUnit.hz, Rounding.roundUp, Rounding.roundOff]
    rw [zTmcvt64, if_pos rfl, if_neg (by decide), if_pos (by decide)]
    decide
  · simp only [exactTmcvt, zTmcvtOffGen]
    norm_num

end Zephyr.Time
