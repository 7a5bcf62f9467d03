import Zephyr.Time.Civil

namespace Zephyr.Time

open Zephyr.Lib Zephyr.Lib.Calendar

-- The fields timeutil_timegm64 reads besides the year, in their normal ranges.
def Tm.InRange (tm : Tm) : Prop :=
  0 ≤ tm.tmMon.toInt ∧ tm.tmMon.toInt ≤ 11 ∧ 1 ≤ tm.tmMday.toInt ∧
    tm.tmMday.toInt ≤ daysInMonth (timeUtilsBaseYear + tm.tmYear.toInt) (tm.tmMon.toInt + 1).toNat ∧
    0 ≤ tm.tmHour.toInt ∧ tm.tmHour.toInt ≤ 23 ∧ 0 ≤ tm.tmMin.toInt ∧ tm.tmMin.toInt ≤ 59 ∧
    0 ≤ tm.tmSec.toInt ∧ tm.tmSec.toInt ≤ 59

theorem Tm.InRange.valid {tm : Tm} (h : tm.InRange) : (tmDate tm).Valid := by
  obtain ⟨h0, h11, h1, hd, -⟩ := h
  exact ⟨by dsimp [tmDate]; omega, by dsimp [tmDate]; omega, by dsimp [tmDate]; omega,
    by dsimp [tmDate]; omega⟩

theorem daysInMonth_le (y : Int) (m : Nat) : daysInMonth y m ≤ 31 := by
  unfold daysInMonth; split <;> (try split) <;> omega

-- What gmtime_r stores: the date of day ⌊t/86400⌋ and the floored time of day.
theorem gmtimeR_fields (t : Int) :
    (gmtimeR t).tmYear = Int32.ofInt ((civilDate (t / 86400)).year - 1900) ∧
      (gmtimeR t).tmMon.toInt + 1 = (civilDate (t / 86400)).month ∧
      (gmtimeR t).tmMday.toInt = (civilDate (t / 86400)).day ∧
      (gmtimeR t).tmHour.toInt = t % 86400 / 3600 ∧ (gmtimeR t).tmMin.toInt = t % 3600 / 60 ∧
      (gmtimeR t).tmSec.toInt = t % 60 ∧ (gmtimeR t).tmWday.toInt = weekday (t / 86400) ∧
      (gmtimeR t).tmYday.toInt = dayOfYear (civilDate (t / 86400)) := by
  have hv := civilDate_valid (t / 86400)
  have hdm := daysInMonth_le (civilDate (t / 86400)).year (civilDate (t / 86400)).month
  have hyd := dayOfYear_lt hv
  have hdy : daysInYear (civilDate (t / 86400)).year ≤ 366 := by unfold daysInYear; split <;> omega
  obtain ⟨h1, h12, hd1, hd⟩ := hv
  rw [gmtimeR_eq, timeCivilFromDays_spec]
  refine ⟨rfl, ?_, ?_, ?_, ?_, ?_, ?_, ?_⟩ <;> dsimp only
  · rw [Int32.toInt_ofNat_of_lt (by omega)]; omega
  · rw [Int32.toInt_ofNat_of_lt (by omega)]
  · rw [Int32.toInt_ofNat_of_lt (by omega)]; omega
  · rw [Int32.toInt_ofNat_of_lt (by omega)]; omega
  · rw [Int32.toInt_ofNat_of_lt (by omega)]; omega
  · unfold weekday; rw [Int32.toInt_ofInt_of_le (by omega) (by omega)]
  · rw [Int32.toInt_ofNat_of_lt (by omega)]

theorem tmDate_gmtimeR (t : Int) (hy0 : -2 ^ 31 ≤ (civilDate (t / 86400)).year - 1900)
    (hy1 : (civilDate (t / 86400)).year - 1900 < 2 ^ 31) : tmDate (gmtimeR t) = civilDate (t / 86400) := by
  obtain ⟨hY, hM, hD, -⟩ := gmtimeR_fields t
  have hv := civilDate_valid (t / 86400)
  unfold tmDate timeUtilsBaseYear
  rw [hY, Int32.toInt_ofInt_of_le hy0 hy1, hM, hD]
  have := hv.2.2.1
  cases h : civilDate (t / 86400)
  simp only [h] at this ⊢
  congr 1
  omega

-- gmtime_r then timeutil_timegm64 gives back the time, whenever tm_year fits an int.
theorem timeutilTimegm64_gmtimeR (t : Int) (hy0 : -2 ^ 31 ≤ (civilDate (t / 86400)).year - 1900)
    (hy1 : (civilDate (t / 86400)).year - 1900 < 2 ^ 31) : timeutilTimegm64 (gmtimeR t) = t := by
  have hx := tmDate_gmtimeR t hy0 hy1
  obtain ⟨-, -, -, hh, hm, hs, -⟩ := gmtimeR_fields t
  rw [timeutilTimegm64_eq (hx ▸ civilDate_valid _), hx, dayNumber_civilDate, hh, hm, hs]
  omega

-- timeutil_timegm64 then gmtime_r gives back the six fields.
theorem gmtimeR_timeutilTimegm64 {tm : Tm} (h : tm.InRange) :
    (gmtimeR (timeutilTimegm64 tm)).tmYear = tm.tmYear ∧
      (gmtimeR (timeutilTimegm64 tm)).tmMon = tm.tmMon ∧
      (gmtimeR (timeutilTimegm64 tm)).tmMday = tm.tmMday ∧
      (gmtimeR (timeutilTimegm64 tm)).tmHour = tm.tmHour ∧
      (gmtimeR (timeutilTimegm64 tm)).tmMin = tm.tmMin ∧
      (gmtimeR (timeutilTimegm64 tm)).tmSec = tm.tmSec := by
  have hv := h.valid
  obtain ⟨h0, h11, h1, hd, hh0, hh1, hm0, hm1, hs0, hs1⟩ := h
  have ht := timeutilTimegm64_eq hv
  generalize timeutilTimegm64 tm = t at ht ⊢
  have hday : t / 86400 = dayNumber (tmDate tm) := by omega
  have hc := civilDate_dayNumber hv
  obtain ⟨hY, hM, hD, hH, hMi, hS, -⟩ := gmtimeR_fields t
  rw [hday, hc] at hY hM hD
  refine ⟨?_, ?_, ?_, ?_, ?_, ?_⟩ <;> rw [← Int32.toInt_inj]
  · rw [hY, Int32.toInt_ofInt_of_le] <;> simp only [tmDate, timeUtilsBaseYear] <;>
      have := tm.tmYear.le_toInt <;> have := tm.tmYear.toInt_lt <;> omega
  · simp only [tmDate] at hM; omega
  · simp only [tmDate] at hD; omega
  · rw [hH]; omega
  · rw [hMi]; omega
  · rw [hS]; omega

-- gmtime_r of `t` is the proleptic Gregorian date and time of `t`, for every `t`
-- whose tm_year fits an int, and timeutil_timegm64 undoes it.
theorem gmtimeR_civil (t : Int) {x : Date} (hx : x.Valid) (ht : dayNumber x = t / 86400)
    (hy0 : -2 ^ 31 ≤ x.year - 1900) (hy1 : x.year - 1900 < 2 ^ 31) :
    (gmtimeR t).tmYear.toInt = x.year - 1900 ∧ (gmtimeR t).tmMon.toInt + 1 = x.month ∧
      (gmtimeR t).tmMday.toInt = x.day ∧ (gmtimeR t).tmHour.toInt = t % 86400 / 3600 ∧
      (gmtimeR t).tmMin.toInt = t % 3600 / 60 ∧ (gmtimeR t).tmSec.toInt = t % 60 ∧
      (gmtimeR t).tmWday.toInt = weekday (t / 86400) ∧ (gmtimeR t).tmYday.toInt = dayOfYear x ∧
      (gmtimeR t).InRange ∧ 0 ≤ (gmtimeR t).tmWday.toInt ∧ (gmtimeR t).tmWday.toInt ≤ 6 ∧
      0 ≤ (gmtimeR t).tmYday.toInt ∧ (gmtimeR t).tmYday.toInt < daysInYear x.year ∧
      timeutilTimegm64 (gmtimeR t) = t := by
  have hc : civilDate (t / 86400) = x := ht ▸ civilDate_dayNumber hx
  obtain ⟨hY, hM, hD, hH, hMi, hS, hW, hYd⟩ := gmtimeR_fields t
  rw [hc] at hY hM hD hYd
  have hY' : (gmtimeR t).tmYear.toInt = x.year - 1900 := by rw [hY, Int32.toInt_ofInt_of_le hy0 hy1]
  have hyd := dayOfYear_lt hx
  obtain ⟨h1, h12, hd1, hd⟩ := hx
  refine ⟨hY', hM, hD, hH, hMi, hS, hW, hYd, ?_, by rw [hW]; unfold weekday; omega,
    by rw [hW]; unfold weekday; omega, by omega, by omega,
    timeutilTimegm64_gmtimeR t (hc ▸ hy0) (hc ▸ hy1)⟩
  refine ⟨by omega, by omega, by omega, ?_, by omega, by omega, by omega, by omega, by omega, by omega⟩
  rw [hY', hD, show (gmtimeR t).tmMon.toInt + 1 = x.month from hM]
  unfold timeUtilsBaseYear
  simpa using hd

theorem civil_time_round_trip :
    (∀ (t : Int) (x : Date), x.Valid → dayNumber x = t / 86400 →
        -2 ^ 31 ≤ x.year - 1900 → x.year - 1900 < 2 ^ 31 →
        (gmtimeR t).tmYear.toInt = x.year - 1900 ∧ (gmtimeR t).tmMon.toInt + 1 = x.month ∧
        (gmtimeR t).tmMday.toInt = x.day ∧ (gmtimeR t).tmHour.toInt = t % 86400 / 3600 ∧
        (gmtimeR t).tmMin.toInt = t % 3600 / 60 ∧ (gmtimeR t).tmSec.toInt = t % 60 ∧
        (gmtimeR t).tmWday.toInt = weekday (t / 86400) ∧ (gmtimeR t).tmYday.toInt = dayOfYear x ∧
        (gmtimeR t).InRange ∧ 0 ≤ (gmtimeR t).tmWday.toInt ∧ (gmtimeR t).tmWday.toInt ≤ 6 ∧
        0 ≤ (gmtimeR t).tmYday.toInt ∧ (gmtimeR t).tmYday.toInt < daysInYear x.year ∧
        timeutilTimegm64 (gmtimeR t) = t) ∧
      (∀ tm : Tm, tm.InRange →
        (gmtimeR (timeutilTimegm64 tm)).tmYear = tm.tmYear ∧
          (gmtimeR (timeutilTimegm64 tm)).tmMon = tm.tmMon ∧
          (gmtimeR (timeutilTimegm64 tm)).tmMday = tm.tmMday ∧
          (gmtimeR (timeutilTimegm64 tm)).tmHour = tm.tmHour ∧
          (gmtimeR (timeutilTimegm64 tm)).tmMin = tm.tmMin ∧
          (gmtimeR (timeutilTimegm64 tm)).tmSec = tm.tmSec) ∧
      (∀ (w : Nat) (tm : Tm), w = 32 ∨ w = 64 →
        timeutilTimegm w tm =
          if w = 32 ∧ (timeutilTimegm64 tm < -2 ^ 31 ∨ timeutilTimegm64 tm > 2 ^ 31 - 1) then (-1, eRange)
          else (timeutilTimegm64 tm, 0)) :=
  ⟨fun t _ hx ht hy0 hy1 => gmtimeR_civil t hx ht hy0 hy1, fun _ h => gmtimeR_timeutilTimegm64 h,
    fun _ tm hw => timeutilTimegm_eq hw tm⟩

theorem civil_time_round_trip_epoch :
    (gmtimeR 0).tmYear.toInt = 70 ∧ timeutilTimegm64 (gmtimeR 0) = 0 ∧
      timeutilTimegm 32 (gmtimeR 0) = (0, 0) := by
  obtain ⟨hy, -, -, -, -, -, -, -, -, -, -, -, -, ht⟩ :=
    civil_time_round_trip.1 0 ⟨1970, 1, 1⟩ (by decide) (by decide) (by decide) (by decide)
  refine ⟨hy, ht, ?_⟩
  rw [civil_time_round_trip.2.2 32 _ (Or.inl rfl), ht]
  decide

-- The civil year -2147483648 fits an int, but its tm_year does not: gmtime_r wraps it.
theorem gmtime_r_year_field_wraps :
    (⟨-2147483648, 1, 1⟩ : Date).Valid ∧ dayNumber ⟨-2147483648, 1, 1⟩ = -67768100567971200 / 86400 ∧
      (gmtimeR (-67768100567971200)).tmYear.toInt ≠ -2147483648 - 1900 ∧
      timeutilTimegm64 (gmtimeR (-67768100567971200)) ≠ -67768100567971200 := by
  refine ⟨by decide, ?_, by decide, by decide⟩
  rw [dayNumber, yearStart_eq]
  decide

end Zephyr.Time
