import Zephyr.Lib.Calendar
import Zephyr.Lib.CArith
import Mathlib.Tactic.IntervalCases

namespace Zephyr.Time

open Zephyr.Lib Zephyr.Lib.Calendar

-- struct tm; every field is a C int.
structure Tm where
  tmSec : Int32
  tmMin : Int32
  tmHour : Int32
  tmMday : Int32
  tmMon : Int32
  tmYear : Int32
  tmWday : Int32
  tmYday : Int32
  tmIsdst : Int32
deriving DecidableEq, Repr

def tmZero : Tm := ⟨0, 0, 0, 0, 0, 0, 0, 0, 0⟩

def timeUtilsBaseYear : Int := 1900

def eRange : Int := 34

-- timeutil.c. `y` is an int64_t, `m` and `d` are unsigned int.
def timeDaysFromCivil (y : Int) (m d : UInt32) : Int :=
  let y := y - (if m ≤ 2 then 1 else 0)
  let era := Int.tdiv (if 0 ≤ y then y else y - 399) 400
  let yoe : UInt32 := UInt32.ofInt (y - era * 400)
  let doy : UInt32 := (153 * (m + (if 2 < m then -3 else 9)) + 2) / 5 + d
  let doe : UInt32 := yoe * 365 + yoe / 4 - yoe / 100 + doy
  era * 146097 + (doe.toNat : Int) - 719468

def timeutilTimegm64 (tm : Tm) : Int :=
  let y := timeUtilsBaseYear + tm.tmYear.toInt
  let m : UInt32 := UInt32.ofInt (tm.tmMon.toInt + 1)
  let d : UInt32 := UInt32.ofInt (tm.tmMday.toInt - 1)
  let ndays := timeDaysFromCivil y m d
  let time := tm.tmSec.toInt
  let time := time + 60 * (tm.tmMin.toInt + 60 * tm.tmHour.toInt)
  time + 86400 * ndays

-- With a `timeTBits`-wide signed time_t; the pair is the result and errno.
def timeutilTimegm (timeTBits : Nat) (tm : Tm) : Int × Int :=
  let time := timeutilTimegm64 tm
  let rv := time.bmod (2 ^ timeTBits)
  if timeTBits = 32 ∧ (time < -2 ^ 31 ∨ time > 2 ^ 31 - 1) then (-1, eRange) else (rv, 0)

-- gmtime_r.c, with the 64-bit time_t of the minimal libc that builds it.
def timeCivilFromDays (z : Int) (tp : Tm) : Tm :=
  let wday := if -4 ≤ z then Int.tmod (z + 4) 7 else Int.tmod (z + 5) 7 + 6
  let z := z + 719468
  let era := Int.tdiv (if 0 ≤ z then z else z - 146096) 146097
  let doe : UInt32 := UInt32.ofInt (z - era * 146097)
  let yoe : UInt32 := (doe - doe / 1460 + doe / 36524 - doe / 146096) / 365
  let y : Int := yoe.toNat + era * 400
  let doy : UInt32 := doe - (365 * yoe + yoe / 4 - yoe / 100)
  let mp : UInt32 := (5 * doy + 2) / 153
  let d : UInt32 := doy - (153 * mp + 2) / 5 + 1
  let m : UInt32 := mp + (if mp < 10 then 3 else -9)
  let yday : UInt32 := if 306 ≤ doy then doy - 306
    else doy + 59 + (if (yoe % 4 = 0 ∧ yoe % 100 ≠ 0) ∨ yoe = 0 then 1 else 0)
  { tp with
    tmWday := Int32.ofInt wday
    tmYear := Int32.ofInt (y + (if m ≤ 2 then 1 else 0) - 1900)
    tmMon := Int32.ofNat (m - 1).toNat
    tmMday := Int32.ofNat d.toNat
    tmYday := Int32.ofNat yday.toNat }

def gmtimeR (timep : Int) : Tm :=
  let z := timep
  let days := Int.tdiv (if 0 ≤ z then z else z - 86399) 86400
  let rem : UInt32 := UInt32.ofInt (z - days * 86400)
  let result := timeCivilFromDays days tmZero
  let tmHour : Int32 := Int32.ofNat (rem / 60 / 60).toNat
  let rem := rem - UInt32.ofInt (tmHour.toInt * 60 * 60)
  let tmMin : Int32 := Int32.ofNat (rem / 60).toNat
  let tmSec : Int32 := Int32.ofNat (rem - UInt32.ofInt (tmMin.toInt * 60)).toNat
  { result with tmHour := tmHour, tmMin := tmMin, tmSec := tmSec }

/- Hinnant's algorithm counts days from 0000-03-01 in 400-year eras of
146097 days; a year of an era runs from March to February. -/

def yearOfEra (doe : Nat) : Nat := (doe - doe / 1460 + doe / 36524 - doe / 146096) / 365

def yearOfEraStart (yoe : Nat) : Nat := 365 * yoe + yoe / 4 - yoe / 100

-- Day of the March-based year on which month `mp` (0 for March) starts.
def marchMonthStart (mp : Nat) : Nat := (153 * mp + 2) / 5

theorem yearOfEra_spec {doe : Nat} (h : doe ≤ 146096) :
    ∃ c q j, yearOfEra doe = 100 * c + 4 * q + j ∧ c ≤ 3 ∧ q ≤ 24 ∧ j ≤ 3 ∧
      yearOfEraStart (yearOfEra doe) = 36524 * c + 1461 * q + 365 * j ∧
      36524 * c + 1461 * q + 365 * j ≤ doe ∧
      (doe - (36524 * c + 1461 * q + 365 * j) ≤ 364 ∨
        doe - (36524 * c + 1461 * q + 365 * j) = 365 ∧ j = 3 ∧ (q < 24 ∨ c = 3)) := by
  rcases Nat.lt_or_ge doe 146096 with hlt | hge
  · obtain ⟨c, r1, hc, hr1, rfl⟩ : ∃ c r1, c ≤ 3 ∧ r1 < 36524 ∧ doe = 36524 * c + r1 :=
      ⟨doe / 36524, doe % 36524, by omega, Nat.mod_lt _ (by decide), by omega⟩
    obtain ⟨q, r2, hq, hr2, rfl⟩ : ∃ q r2, q ≤ 24 ∧ r2 < 1461 ∧ r1 = 1461 * q + r2 :=
      ⟨r1 / 1461, r1 % 1461, by omega, Nat.mod_lt _ (by decide), by omega⟩
    -- the three quotients of the year formula, made explicit: `e` is the leap day
    -- of the last year of a four-year cycle, once it is reached
    have h1 : (36524 * c + (1461 * q + r2)) / 146096 = 0 := by omega
    have h2 : (36524 * c + (1461 * q + r2)) / 36524 = c := by omega
    have h3 : (36524 * c + (1461 * q + r2)) / 1460 = 25 * c + q + (24 * c + q + r2) / 1460 := by
      omega
    generalize hE : (24 * c + q + r2) / 1460 = e at h3
    have he1 : 1460 * e ≤ 24 * c + q + r2 := hE ▸ Nat.mul_div_le _ _
    have he2 : 24 * c + q + r2 < 1460 * (e + 1) := hE ▸ Nat.lt_mul_div_succ _ (by decide)
    generalize hJ : (r2 - e) / 365 = j
    have hj1 : 365 * j ≤ r2 - e := hJ ▸ Nat.mul_div_le _ _
    have hj2 : r2 - e < 365 * (j + 1) := hJ ▸ Nat.lt_mul_div_succ _ (by decide)
    clear hE hJ
    -- once the quotients are rewritten, only the bounds on e and j are arithmetic
    have hy : yearOfEra (36524 * c + (1461 * q + r2)) = 100 * c + 4 * q + j := by
      simp only [yearOfEra, h1, h2, h3]
      clear h1 h2 h3
      omega
    clear h1 h2 h3
    have hj3 : j ≤ 3 := by omega
    have h4 : (100 * c + 4 * q + j) / 4 = 25 * c + q := by omega
    have h5 : (100 * c + 4 * q + j) / 100 = c := by omega
    refine ⟨c, q, j, hy, hc, hq, hj3, ?_, by omega, ?_⟩
    · rw [hy, yearOfEraStart, h4, h5]; omega
    · -- only the last year of a four-year cycle reaches a 366th day
      clear h4 h5 hy
      omega
  · obtain rfl : doe = 146096 := by omega
    exact ⟨3, 24, 3, by decide, by decide, by decide, by decide, by decide, by decide,
      Or.inr ⟨by decide, rfl, Or.inr rfl⟩⟩

theorem marchMonth_spec {doy : Nat} (h : doy ≤ 365) :
    (5 * doy + 2) / 153 ≤ 11 ∧ marchMonthStart ((5 * doy + 2) / 153) ≤ doy ∧
      ((5 * doy + 2) / 153 ≤ 10 → doy < marchMonthStart ((5 * doy + 2) / 153 + 1)) := by
  unfold marchMonthStart; omega

theorem isLeap_add_mul (y k : Int) : isLeap (y + 400 * k) = isLeap y := by
  cases h : isLeap y <;> [rw [← Bool.not_eq_true] at h ⊢; skip] <;> rw [isLeap_iff] at h ⊢ <;> omega

-- The months before `m`, counted from March of the year before for January and February.
theorem daysBeforeMonth_march (y : Int) {m : Nat} (h1 : 1 ≤ m) (h12 : m ≤ 12) :
    daysBeforeMonth y m = if 2 < m then marchMonthStart (m - 3) + 59 + (if isLeap y then 1 else 0)
      else marchMonthStart (m + 9) - 306 := by
  interval_cases m <;> cases h : isLeap y <;> simp [daysBeforeMonth, daysInMonth, marchMonthStart, h]

theorem daysInMonth_march (y : Int) {mp : Nat} (h : mp ≤ 10) :
    daysInMonth y (if mp < 10 then mp + 3 else mp - 9) = marchMonthStart (mp + 1) - marchMonthStart mp := by
  interval_cases mp <;> rfl

-- The day number of the first of March of `y`.
theorem marchFirst_eq (y : Int) :
    yearStart (y + 1) - 306 = 146097 * (y / 400) + yearOfEraStart (y % 400).toNat - 719468 := by
  rw [yearStart_eq]
  have hk := Int.emod_nonneg y (by decide : (400 : Int) ≠ 0)
  have hk' := Int.emod_lt_of_pos y (by decide : (0 : Int) < 400)
  generalize hr : (y % 400).toNat = k
  have hk4 : k / 100 ≤ k / 4 := by omega
  have hs : ((yearOfEraStart k : Nat) : Int) = 365 * k + (k : Int) / 4 - (k : Int) / 100 := by
    unfold yearOfEraStart; omega
  have hy : y = 400 * (y / 400) + k := by omega
  rw [hs, hy]
  generalize y / 400 = e
  have hk : k < 400 := by omega
  have h1 : (400 * e + k + 1 - 1) / 4 = 100 * e + (k : Int) / 4 := by omega
  have h2 : (400 * e + k + 1 - 1) / 100 = 4 * e + (k : Int) / 100 := by omega
  have h3 : (400 * e + k + 1 - 1) / 400 = e := by omega
  have h4 : (400 * e + k) / 400 = e := by omega
  rw [h1, h2, h3, h4]
  ring

theorem dayNumber_march {x : Date} (hx : x.Valid) :
    dayNumber x = yearStart (x.year - (if x.month ≤ 2 then 1 else 0) + 1) - 306 +
      marchMonthStart (if 2 < x.month then x.month - 3 else x.month + 9) + ((x.day : Int) - 1) := by
  obtain ⟨h1, h12, hd1, -⟩ := hx
  unfold dayNumber dayOfYear
  rw [daysBeforeMonth_march x.year h1 h12]
  by_cases hm : 2 < x.month
  · rw [if_pos hm, if_neg (by omega : ¬x.month ≤ 2), if_pos hm, sub_zero, yearStart_succ]
    unfold daysInYear
    cases isLeap x.year <;> simp <;> omega
  · have : 306 ≤ marchMonthStart (x.month + 9) := by unfold marchMonthStart; omega
    rw [if_neg hm, if_pos (by omega : x.month ≤ 2), if_neg hm, sub_add_cancel]
    push_cast [this]; omega

-- The date Hinnant's algorithm reads off day `doe` of era `era`.
def eraDate (era : Int) (doe : Nat) : Date :=
  let yoe := yearOfEra doe
  let doy := doe - yearOfEraStart yoe
  let mp := (5 * doy + 2) / 153
  let m := if mp < 10 then mp + 3 else mp - 9
  ⟨yoe + era * 400 + (if m ≤ 2 then 1 else 0), m, doy - marchMonthStart mp + 1⟩

section EraDate

variable (era : Int) {doe : Nat} (h : doe ≤ 146096)
include h

-- The fields of `eraDate` through the day `doy` of the March-based year and its month `mp`.
theorem eraDate_fields : ∃ doy mp, doe - yearOfEraStart (yearOfEra doe) = doy ∧
    (5 * doy + 2) / 153 = mp ∧ mp ≤ 11 ∧ marchMonthStart mp ≤ doy ∧
    (mp ≤ 10 → doy < marchMonthStart (mp + 1)) ∧
    eraDate era doe = ⟨yearOfEra doe + era * 400 + (if mp < 10 then 0 else 1),
      if mp < 10 then mp + 3 else mp - 9, doy - marchMonthStart mp + 1⟩ := by
  obtain ⟨c, q, j, -, -, -, -, hs, hle, hdoy⟩ := yearOfEra_spec h
  obtain ⟨hmp, hlo, hhi⟩ := @marchMonth_spec (doe - yearOfEraStart (yearOfEra doe)) (by omega)
  refine ⟨_, _, rfl, rfl, hmp, hlo, hhi, ?_⟩
  unfold eraDate
  dsimp only
  congr 2
  split_ifs <;> omega

theorem eraDate_valid : (eraDate era doe).Valid := by
  obtain ⟨c, q, j, hy, hc, hq, hj, hs, hle, hdoy⟩ := yearOfEra_spec h
  obtain ⟨doy, mp, hd, -, hmp, hlo, hhi, he⟩ := eraDate_fields era h
  rw [he]
  refine ⟨by dsimp only; split <;> omega, by dsimp only; split <;> omega, by dsimp only; omega, ?_⟩
  dsimp only
  rcases Nat.lt_or_ge mp 11 with h11 | h11
  · rw [daysInMonth_march _ (by omega)]; omega
  · -- February: the 29th only in a leap year
    obtain rfl : mp = 11 := by omega
    show doy - marchMonthStart 11 + 1 ≤ daysInMonth (↑(yearOfEra doe) + era * 400 + 1) 2
    unfold marchMonthStart at hlo ⊢
    by_cases h365 : doy = 365
    · -- the 366th day of an era year is in the last year of a four-year cycle
      obtain ⟨rfl, hqc⟩ : j = 3 ∧ (q < 24 ∨ c = 3) := by omega
      have hl : isLeap (↑(yearOfEra doe) + era * 400 + 1) = true := by
        rw [isLeap_iff, hy]
        clear hs hle hdoy hd he hlo hhi
        omega
      simp only [daysInMonth, hl, if_true]; omega
    · cases hl : isLeap (↑(yearOfEra doe) + era * 400 + 1) <;> simp [daysInMonth, hl] <;> omega

theorem dayNumber_eraDate : dayNumber (eraDate era doe) = 146097 * era + doe - 719468 := by
  obtain ⟨c, q, j, hy, hc, hq, hj, hs, hle, -⟩ := yearOfEra_spec h
  obtain ⟨doy, mp, hd, -, hmp, hlo, -, he⟩ := eraDate_fields era h
  -- all the arithmetic below needs of the era's year
  have hyoe : yearOfEra doe < 400 := by omega
  have hstart : yearOfEraStart (yearOfEra doe) + doy = doe := by omega
  clear hy hc hq hj hs hle hd
  rw [dayNumber_march (eraDate_valid era h), he]
  dsimp only
  -- the March-based year is `yoe` of the era, whatever the month
  have hY : (↑(yearOfEra doe) + era * 400 + (if mp < 10 then 0 else 1 : Int) -
      (if (if mp < 10 then mp + 3 else mp - 9) ≤ 2 then 1 else 0) + 1) = era * 400 + ↑(yearOfEra doe) + 1 := by
    split_ifs <;> omega
  have hm : (if 2 < (if mp < 10 then mp + 3 else mp - 9) then (if mp < 10 then mp + 3 else mp - 9) - 3
      else (if mp < 10 then mp + 3 else mp - 9) + 9) = mp := by
    split_ifs <;> omega
  have he' : (era * 400 + ↑(yearOfEra doe)) / 400 = era := by omega
  have hk : ((era * 400 + ↑(yearOfEra doe)) % 400).toNat = yearOfEra doe := by omega
  rw [hY, hm, marchFirst_eq, he', hk]
  clear hY hm he' hk he
  omega

theorem dayOfYear_eraDate :
    dayOfYear (eraDate era doe) = if 306 ≤ doe - yearOfEraStart (yearOfEra doe)
      then doe - yearOfEraStart (yearOfEra doe) - 306
      else doe - yearOfEraStart (yearOfEra doe) + 59 + (if (yearOfEra doe % 4 = 0 ∧
        yearOfEra doe % 100 ≠ 0) ∨ yearOfEra doe = 0 then 1 else 0) := by
  obtain ⟨c, q, j, hy, hc, hq, hj, hs, hle, hdoy⟩ := yearOfEra_spec h
  have hv := eraDate_valid era h
  obtain ⟨doy, mp, hd, hmpd, hmp, hlo, hhi, he⟩ := eraDate_fields era h
  unfold dayOfYear
  rw [daysBeforeMonth_march _ hv.1 hv.2.1, he, hd]
  dsimp only
  unfold marchMonthStart at hlo hhi ⊢
  by_cases h10 : mp < 10
  · -- March to December of the era year `yoe`, whose leap day counts
    have hl : isLeap (↑(yearOfEra doe) + era * 400) =
        decide ((yearOfEra doe % 4 = 0 ∧ yearOfEra doe % 100 ≠ 0) ∨ yearOfEra doe = 0) := by
      rw [mul_comm, isLeap_add_mul, Bool.eq_iff_iff, isLeap_iff, decide_eq_true_iff]; omega
    simp only [if_pos h10, show 2 < mp + 3 by omega, if_true, show mp + 3 - 3 = mp by omega,
      add_zero, hl, decide_eq_true_eq]
    rw [if_neg (show ¬(306 ≤ doy) by omega)]
    split <;> omega
  · simp only [if_neg h10, show ¬(2 < mp - 9) by omega, if_false, show mp - 9 + 9 = mp by omega]
    rw [if_pos (show 306 ≤ doy by omega)]
    omega

end EraDate

/- The unsigned int arithmetic of time_civil_from_days never wraps: each
intermediate read as a natural number is the same expression over `Nat`. -/

theorem weekday_eq (z : Int) :
    (if -4 ≤ z then Int.tmod (z + 4) 7 else Int.tmod (z + 5) 7 + 6) = weekday z := by
  unfold weekday
  split <;> rw [Int.tmod_eq_emod] <;> split <;> simp_all <;> omega

theorem yoe_toNat {doe : UInt32} (h : doe.toNat ≤ 146096) :
    ((doe - doe / 1460 + doe / 36524 - doe / 146096) / 365).toNat = yearOfEra doe.toNat := by
  have h1 : (doe - doe / 1460).toNat = doe.toNat - doe.toNat / 1460 := by
    rw [UInt32.toNat_sub_of_toNat_le] <;> simp; omega
  have h2 : (doe - doe / 1460 + doe / 36524).toNat =
      doe.toNat - doe.toNat / 1460 + doe.toNat / 36524 := by
    rw [UInt32.toNat_add_of_lt] <;> simp [h1]; omega
  rw [UInt32.toNat_div, UInt32.toNat_sub_of_toNat_le] <;> simp [h2, yearOfEra]; omega

theorem doy_toNat {doe yoe : UInt32} (hy : yoe.toNat ≤ 399)
    (h : yearOfEraStart yoe.toNat ≤ doe.toNat) :
    (doe - (365 * yoe + yoe / 4 - yoe / 100)).toNat = doe.toNat - yearOfEraStart yoe.toNat := by
  have h1 : (365 * yoe).toNat = 365 * yoe.toNat := UInt32.toNat_mul_of_lt (by simp; omega)
  have h2 : (365 * yoe + yoe / 4).toNat = 365 * yoe.toNat + yoe.toNat / 4 := by
    rw [UInt32.toNat_add_of_lt] <;> simp [h1]; omega
  have h3 : (365 * yoe + yoe / 4 - yoe / 100).toNat = yearOfEraStart yoe.toNat := by
    rw [UInt32.toNat_sub_of_toNat_le] <;> simp [h2, yearOfEraStart]; omega
  rw [UInt32.toNat_sub_of_toNat_le (by rw [h3]; exact h), h3]

-- yoe * 365 + yoe / 4 - yoe / 100 of days_from_civil never wraps.
theorem yoeStart_toNat {yoe : UInt32} (hy : yoe.toNat ≤ 399) :
    (yoe * 365 + yoe / 4 - yoe / 100).toNat = yearOfEraStart yoe.toNat := by
  have h1 : (yoe * 365).toNat = yoe.toNat * 365 := UInt32.toNat_mul_of_lt (by simp; omega)
  have h2 : (yoe * 365 + yoe / 4).toNat = yoe.toNat * 365 + yoe.toNat / 4 := by
    rw [UInt32.toNat_add_of_lt] <;> simp [h1]; omega
  rw [UInt32.toNat_sub_of_toNat_le] <;> simp [h2, yearOfEraStart] <;> omega

theorem mp_toNat {doy : UInt32} (h : doy.toNat ≤ 365) :
    ((5 * doy + 2) / 153).toNat = (5 * doy.toNat + 2) / 153 := by
  simp only [UInt32.toNat_add, UInt32.toNat_mul, UInt32.toNat_div, UInt32.toNat_ofNat,
    Nat.reducePow, Nat.reduceMod]
  omega

theorem marchMonthStart_toNat {mp : UInt32} (hmp : mp.toNat ≤ 11) :
    ((153 * mp + 2) / 5).toNat = marchMonthStart mp.toNat := by
  simp only [UInt32.toNat_add, UInt32.toNat_mul, UInt32.toNat_div, UInt32.toNat_ofNat,
    Nat.reducePow, Nat.reduceMod, marchMonthStart]
  omega

theorem day_toNat {doy mp : UInt32} (hmp : mp.toNat ≤ 11)
    (hlo : marchMonthStart mp.toNat ≤ doy.toNat) (h : doy.toNat ≤ 365) :
    (doy - (153 * mp + 2) / 5 + 1).toNat = doy.toNat - marchMonthStart mp.toNat + 1 := by
  have h1 := marchMonthStart_toNat hmp
  have h2 : (doy - (153 * mp + 2) / 5).toNat = doy.toNat - marchMonthStart mp.toNat := by
    rw [UInt32.toNat_sub_of_toNat_le] <;> rw [h1]; omega
  rw [UInt32.toNat_add_of_lt] <;> simp only [h2, UInt32.toNat_ofNat, Nat.reducePow, Nat.reduceMod]
  omega

-- `mp + -9` wraps to `mp - 9` for January and February.
theorem month_toNat {mp : UInt32} (h : mp.toNat ≤ 11) :
    (mp + (if mp < 10 then 3 else -9)).toNat = if mp.toNat < 10 then mp.toNat + 3 else mp.toNat - 9 := by
  by_cases hm : mp.toNat < 10
  · rw [if_pos (UInt32.lt_iff_toNat_lt.2 hm), if_pos hm]
    simp only [UInt32.toNat_add, UInt32.toNat_ofNat, Nat.reducePow, Nat.reduceMod]; omega
  · have e : (-9 : UInt32).toNat = 2 ^ 32 - 9 := by decide
    rw [if_neg (fun h' => hm (UInt32.lt_iff_toNat_lt.1 h')), if_neg hm, UInt32.toNat_add, e]
    omega

theorem yday_toNat {doy yoe : UInt32} (h : doy.toNat ≤ 365) :
    (if 306 ≤ doy then doy - 306
      else doy + 59 + (if (yoe % 4 = 0 ∧ yoe % 100 ≠ 0) ∨ yoe = 0 then 1 else 0)).toNat =
    if 306 ≤ doy.toNat then doy.toNat - 306
      else doy.toNat + 59 + (if (yoe.toNat % 4 = 0 ∧ yoe.toNat % 100 ≠ 0) ∨ yoe.toNat = 0 then 1 else 0) := by
  have hc : (306 ≤ doy) ↔ 306 ≤ doy.toNat := UInt32.le_iff_toNat_le
  have hl : ((yoe % 4 = 0 ∧ yoe % 100 ≠ 0) ∨ yoe = 0) ↔
      ((yoe.toNat % 4 = 0 ∧ yoe.toNat % 100 ≠ 0) ∨ yoe.toNat = 0) := by
    simp only [ne_eq, ← UInt32.toNat_inj, UInt32.toNat_mod, UInt32.toNat_ofNat, Nat.reducePow,
      Nat.reduceMod]
  by_cases h306 : 306 ≤ doy.toNat
  · rw [if_pos (hc.2 h306), if_pos h306, UInt32.toNat_sub_of_toNat_le] <;> simp; omega
  · rw [if_neg (fun h' => h306 (hc.1 h')), if_neg h306]
    by_cases hL : (yoe.toNat % 4 = 0 ∧ yoe.toNat % 100 ≠ 0) ∨ yoe.toNat = 0
    · rw [if_pos (hl.2 hL), if_pos hL, UInt32.toNat_add_of_lt, UInt32.toNat_add_of_lt] <;>
        simp <;> omega
    · rw [if_neg (fun h' => hL (hl.1 h')), if_neg hL, UInt32.toNat_add_of_lt, UInt32.toNat_add_of_lt] <;>
        simp <;> omega

-- The date time_civil_from_days computes for day `z`.
def civilDate (z : Int) : Date := eraDate ((z + 719468) / 146097) ((z + 719468) % 146097).toNat

theorem civilDate_valid (z : Int) : (civilDate z).Valid := eraDate_valid _ (by omega)

theorem dayNumber_civilDate (z : Int) : dayNumber (civilDate z) = z := by
  rw [civilDate, dayNumber_eraDate _ (by omega)]; omega

theorem civilDate_dayNumber {x : Date} (hx : x.Valid) : civilDate (dayNumber x) = x :=
  Date.eq_of_dayNumber_eq (civilDate_valid _) hx (dayNumber_civilDate _)

theorem timeCivilFromDays_spec (z : Int) (tp : Tm) :
    timeCivilFromDays z tp =
      { tp with
        tmWday := Int32.ofInt (weekday z)
        tmYear := Int32.ofInt ((civilDate z).year - 1900)
        tmMon := Int32.ofNat ((civilDate z).month - 1)
        tmMday := Int32.ofNat (civilDate z).day
        tmYday := Int32.ofNat (dayOfYear (civilDate z)) } := by
  unfold civilDate
  have hD1 : ((z + 719468) % 146097).toNat ≤ 146096 := by omega
  obtain ⟨c, q, j, hy, hc, hq, hj, hs, hle, hdoy⟩ := yearOfEra_spec hD1
  obtain ⟨doyN, mpN, hd, hmpd, hmp, hlo, hhi, he⟩ := eraDate_fields ((z + 719468) / 146097) hD1
  rw [dayOfYear_eraDate _ hD1, he, hd]
  generalize hD : ((z + 719468) % 146097).toNat = D at *
  unfold timeCivilFromDays
  dsimp only
  rw [tdiv_floor _ (by decide) (by decide), weekday_eq]
  have hdoe : (UInt32.ofInt (z + 719468 - (z + 719468) / 146097 * 146097)).toNat = D := by
    rw [UInt32.toNat_ofInt_sub_ediv_mul _ (by decide) (by decide), hD]
  generalize UInt32.ofInt (z + 719468 - (z + 719468) / 146097 * 146097) = doe at hdoe ⊢
  have hyoe := yoe_toNat (show doe.toNat ≤ 146096 by omega)
  rw [hdoe] at hyoe
  generalize (doe - doe / 1460 + doe / 36524 - doe / 146096) / 365 = yoe at hyoe ⊢
  have hdoyU := doy_toNat (show yoe.toNat ≤ 399 by omega)
    (show yearOfEraStart yoe.toNat ≤ doe.toNat by rw [hyoe, hdoe]; omega)
  rw [hdoe, hyoe, hd] at hdoyU
  generalize doe - (365 * yoe + yoe / 4 - yoe / 100) = doy at hdoyU ⊢
  have hmpU := mp_toNat (show doy.toNat ≤ 365 by omega)
  rw [hdoyU, hmpd] at hmpU
  generalize (5 * doy + 2) / 153 = mp at hmpU ⊢
  have hdU := day_toNat (show mp.toNat ≤ 11 by omega)
    (show marchMonthStart mp.toNat ≤ doy.toNat by rw [hdoyU, hmpU]; exact hlo) (by omega)
  have hmU := month_toNat (show mp.toNat ≤ 11 by omega)
  have hyU := @yday_toNat doy yoe (show doy.toNat ≤ 365 by omega)
  rw [hdoyU, hmpU] at hdU
  rw [hmpU] at hmU
  rw [hdoyU, hyoe] at hyU
  have hm2 : ((mp + if mp < 10 then 3 else -9) ≤ 2) ↔ ¬mpN < 10 := by
    rw [UInt32.le_iff_toNat_le, hmU]; split <;> simp <;> omega
  have hm1 : ((mp + if mp < 10 then 3 else -9) - 1).toNat = (if mpN < 10 then mpN + 3 else mpN - 9) - 1 := by
    rw [UInt32.toNat_sub_of_toNat_le, hmU] <;> simp only [hmU, UInt32.toNat_ofNat]
    split <;> omega
  rw [hdU, hyU, hm1, hyoe]
  simp only [hm2]
  congr 2
  by_cases h10 : mpN < 10 <;> simp [h10]

-- gmtime_r splits the seconds of the day with floored division.
theorem gmtimeR_eq (t : Int) :
    gmtimeR t = { timeCivilFromDays (t / 86400) tmZero with
      tmHour := Int32.ofNat ((t % 86400).toNat / 3600)
      tmMin := Int32.ofNat ((t % 86400).toNat % 3600 / 60)
      tmSec := Int32.ofNat ((t % 86400).toNat % 60) } := by
  unfold gmtimeR
  dsimp only
  rw [tdiv_floor _ (by decide) (by decide)]
  have hrem : (UInt32.ofInt (t - t / 86400 * 86400)).toNat = (t % 86400).toNat :=
    UInt32.toNat_ofInt_sub_ediv_mul t (by decide) (by decide)
  generalize UInt32.ofInt (t - t / 86400 * 86400) = rem at hrem ⊢
  generalize hr : (t % 86400).toNat = r at hrem
  have hr' : r < 86400 := by omega
  have hh : (rem / 60 / 60).toNat = r / 3600 := by simp [hrem]; omega
  have hhi : (Int32.ofNat (r / 3600)).toInt = ((r / 3600 : Nat) : Int) := Int32.toInt_ofNat_of_lt (by omega)
  have hs1 : (UInt32.ofInt (((r / 3600 : Nat) : Int) * 60 * 60)).toNat = r / 3600 * 3600 := by
    rw [UInt32.toNat_ofInt_of_lt (by omega) (by omega)]; omega
  have hrm : (rem - UInt32.ofInt (((r / 3600 : Nat) : Int) * 60 * 60)).toNat = r % 3600 := by
    rw [UInt32.toNat_sub_of_toNat_le] <;> rw [hs1, hrem] <;> omega
  rw [hh, hhi]
  generalize rem - UInt32.ofInt (((r / 3600 : Nat) : Int) * 60 * 60) = rem2 at hrm ⊢
  have hm : (rem2 / 60).toNat = r % 3600 / 60 := by simp [hrm]
  have hmi : (Int32.ofNat (r % 3600 / 60)).toInt = ((r % 3600 / 60 : Nat) : Int) :=
    Int32.toInt_ofNat_of_lt (by omega)
  have hs2 : (UInt32.ofInt (((r % 3600 / 60 : Nat) : Int) * 60)).toNat = r % 3600 / 60 * 60 := by
    rw [UInt32.toNat_ofInt_of_lt (by omega) (by omega)]; omega
  have hsec : (rem2 - UInt32.ofInt (((r % 3600 / 60 : Nat) : Int) * 60)).toNat = r % 60 := by
    rw [UInt32.toNat_sub_of_toNat_le] <;> rw [hs2, hrm] <;> omega
  rw [hm, hmi, hsec]

theorem timeDaysFromCivil_eq {x : Date} (hx : x.Valid) {m d : UInt32} (hm : m.toNat = x.month)
    (hd : d.toNat = x.day - 1) : timeDaysFromCivil x.year m d = dayNumber x := by
  obtain ⟨h1, h12, hd1, hdm⟩ := hx
  have hdim : daysInMonth x.year x.month ≤ 31 := by
    unfold daysInMonth; split <;> (try split) <;> omega
  unfold timeDaysFromCivil
  dsimp only
  have hle2 : (m ≤ 2) ↔ x.month ≤ 2 := by rw [UInt32.le_iff_toNat_le, hm]; rfl
  have hlt2 : (2 < m) ↔ 2 < x.month := by rw [UInt32.lt_iff_toNat_lt, hm]; rfl
  -- the March-based year and month
  generalize hY : x.year - (if m ≤ 2 then 1 else 0) = Y
  have hY' : Y = x.year - (if x.month ≤ 2 then 1 else 0) := by rw [← hY]; simp only [hle2]
  rw [tdiv_floor _ (by decide) (by decide)]
  have hyoe : (UInt32.ofInt (Y - Y / 400 * 400)).toNat = (Y % 400).toNat :=
    UInt32.toNat_ofInt_sub_ediv_mul Y (by decide) (by decide)
  have hk : (Y % 400).toNat ≤ 399 := by omega
  generalize UInt32.ofInt (Y - Y / 400 * 400) = yoe at hyoe ⊢
  have hmp : (m + (if 2 < m then -3 else 9)).toNat = if 2 < x.month then x.month - 3 else x.month + 9 := by
    by_cases h2 : 2 < x.month
    · have e : (-3 : UInt32).toNat = 2 ^ 32 - 3 := by decide
      rw [if_pos (hlt2.2 h2), if_pos h2, UInt32.toNat_add, e, hm]; omega
    · rw [if_neg (fun h' => h2 (hlt2.1 h')), if_neg h2, UInt32.toNat_add, hm]; simp; omega
  generalize m + (if 2 < m then -3 else 9) = mp at hmp
  generalize hmpN : (if 2 < x.month then x.month - 3 else x.month + 9) = mpN at hmp
  have hmpN11 : mpN ≤ 11 := by rw [← hmpN]; split <;> omega
  have hdoy : ((153 * mp + 2) / 5 + d).toNat = marchMonthStart mpN + (x.day - 1) := by
    have hms := marchMonthStart_toNat (hmp ▸ hmpN11)
    rw [hmp] at hms
    rw [UInt32.toNat_add_of_lt] <;> rw [hms, hd]; unfold marchMonthStart; omega
  generalize (153 * mp + 2) / 5 + d = doy at hdoy
  have hst : (yoe * 365 + yoe / 4 - yoe / 100).toNat = yearOfEraStart (Y % 400).toNat := by
    rw [yoeStart_toNat (hyoe ▸ hk), hyoe]
  have hdoe : (yoe * 365 + yoe / 4 - yoe / 100 + doy).toNat =
      yearOfEraStart (Y % 400).toNat + (marchMonthStart mpN + (x.day - 1)) := by
    rw [UInt32.toNat_add_of_lt, hst, hdoy]
    rw [hst, hdoy]; unfold yearOfEraStart marchMonthStart; omega
  rw [hdoe, dayNumber_march ⟨h1, h12, hd1, hdm⟩, ← hY', hmpN, marchFirst_eq]
  push_cast
  omega

-- The date a struct tm names.
def tmDate (tm : Tm) : Date :=
  ⟨timeUtilsBaseYear + tm.tmYear.toInt, (tm.tmMon.toInt + 1).toNat, tm.tmMday.toInt.toNat⟩

theorem timeutilTimegm64_eq {tm : Tm} (hx : (tmDate tm).Valid) :
    timeutilTimegm64 tm =
      tm.tmSec.toInt + 60 * (tm.tmMin.toInt + 60 * tm.tmHour.toInt) + 86400 * dayNumber (tmDate tm) := by
  have h1 := hx.1
  have h12 := hx.2.1
  have h2 := hx.2.2.1
  dsimp only [tmDate] at h1 h12 h2
  have := tm.tmMday.toInt_lt
  unfold timeutilTimegm64
  dsimp only
  rw [show timeUtilsBaseYear + tm.tmYear.toInt = (tmDate tm).year from rfl,
    timeDaysFromCivil_eq hx (by rw [UInt32.toNat_ofInt_of_lt (by omega) (by omega)]; rfl)
      (by rw [UInt32.toNat_ofInt_of_lt (by omega) (by omega)]; unfold tmDate; dsimp only; omega)]

theorem timeDaysFromCivil_bound (y : Int) (m d : UInt32) (h0 : -2 ^ 32 ≤ y) (h1 : y ≤ 2 ^ 32) :
    -2 ^ 42 < timeDaysFromCivil y m d ∧ timeDaysFromCivil y m d < 2 ^ 42 := by
  unfold timeDaysFromCivil
  dsimp only
  rw [tdiv_floor _ (by decide) (by decide)]
  generalize hN : UInt32.toNat _ = N
  have : N < 2 ^ 32 := hN ▸ UInt32.toNat_lt _
  split <;> omega

theorem timeutilTimegm64_bound (tm : Tm) :
    -2 ^ 62 < timeutilTimegm64 tm ∧ timeutilTimegm64 tm < 2 ^ 62 := by
  unfold timeutilTimegm64
  dsimp only
  have hy := timeDaysFromCivil_bound (timeUtilsBaseYear + tm.tmYear.toInt)
    (UInt32.ofInt (tm.tmMon.toInt + 1)) (UInt32.ofInt (tm.tmMday.toInt - 1))
    (by have := tm.tmYear.le_toInt; unfold timeUtilsBaseYear; omega)
    (by have := tm.tmYear.toInt_lt; unfold timeUtilsBaseYear; omega)
  have := tm.tmSec.le_toInt; have := tm.tmSec.toInt_lt
  have := tm.tmMin.le_toInt; have := tm.tmMin.toInt_lt
  have := tm.tmHour.le_toInt; have := tm.tmHour.toInt_lt
  omega

-- The value timeutil_timegm64 computes fits a 64-bit time_t, so only the 32-bit check can fail.
theorem timeutilTimegm_eq {w : Nat} (hw : w = 32 ∨ w = 64) (tm : Tm) :
    timeutilTimegm w tm =
      if w = 32 ∧ (timeutilTimegm64 tm < -2 ^ 31 ∨ timeutilTimegm64 tm > 2 ^ 31 - 1) then (-1, eRange)
      else (timeutilTimegm64 tm, 0) := by
  unfold timeutilTimegm
  dsimp only
  split_ifs with h
  · rfl
  · have hb := timeutilTimegm64_bound tm
    congr 1
    apply Int.bmod_eq_of_le <;> rcases hw with rfl | rfl <;> push_cast <;> omega

end Zephyr.Time
