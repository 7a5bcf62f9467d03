import Mathlib.Algebra.BigOperators.Group.Finset.Basic
import Mathlib.Tactic.Linarith
import Mathlib.Tactic.Ring

namespace Zephyr.Lib.Calendar

-- The proleptic Gregorian calendar, its days counted from 1970-01-01.

def isLeap (y : Int) : Bool := y % 4 == 0 && (y % 100 != 0 || y % 400 == 0)

def daysInYear (y : Int) : Nat := if isLeap y then 366 else 365

def daysInMonth (y : Int) : Nat → Nat
  | 2 => if isLeap y then 29 else 28
  | 4 | 6 | 9 | 11 => 30
  | _ => 31

structure Date where
  year : Int
  month : Nat
  day : Nat
deriving DecidableEq, Repr

def Date.Valid (x : Date) : Prop :=
  1 ≤ x.month ∧ x.month ≤ 12 ∧ 1 ≤ x.day ∧ x.day ≤ daysInMonth x.year x.month

instance (x : Date) : Decidable x.Valid := by unfold Date.Valid; infer_instance

def daysBeforeMonth (y : Int) : Nat → Nat
  | 0 | 1 => 0
  | m + 2 => daysBeforeMonth y (m + 1) + daysInMonth y (m + 1)

-- Days from 1970-01-01 to the first of January of `y`, negative before 1970.
def yearStart (y : Int) : Int :=
  if 1970 ≤ y then ∑ i ∈ Finset.range (y - 1970).toNat, (daysInYear (1970 + i) : Int)
  else -∑ i ∈ Finset.range (1970 - y).toNat, (daysInYear (y + i) : Int)

-- Zero-based.
def dayOfYear (x : Date) : Nat := daysBeforeMonth x.year x.month + (x.day - 1)

def dayNumber (x : Date) : Int := yearStart x.year + dayOfYear x

-- 1970-01-01 was a Thursday; Sunday is 0.
def weekday (n : Int) : Int := (n + 4) % 7

theorem isLeap_iff (y : Int) : isLeap y = true ↔ y % 4 = 0 ∧ (y % 100 ≠ 0 ∨ y % 400 = 0) := by
  simp [isLeap]

theorem yearStart_succ (y : Int) : yearStart (y + 1) = yearStart y + daysInYear y := by
  unfold yearStart
  by_cases hy : 1970 ≤ y
  · have hn : (y + 1 - 1970).toNat = (y - 1970).toNat + 1 := by omega
    have he : 1970 + ((y - 1970).toNat : Int) = y := by omega
    rw [if_pos hy, if_pos (by omega), hn, Finset.sum_range_succ, he]
  by_cases hy1 : y + 1 = 1970
  · have hn : (1970 - y).toNat = 0 + 1 := by omega
    rw [if_neg hy, hy1, if_pos le_rfl, hn, Finset.sum_range_succ]
    simp
  · have hn : (1970 - y).toNat = (1970 - (y + 1)).toNat + 1 := by omega
    rw [if_neg hy, if_neg (by omega), hn, Finset.sum_range_succ']
    push_cast
    have e : ∀ i : Nat, y + ((i : Int) + 1) = y + 1 + i := fun i => by ring
    simp only [e, add_zero]
    ring

-- The leap days before `y` counted in closed form: `y/4 - y/100 + y/400`, floored.
theorem yearStart_eq (y : Int) :
    yearStart y = 365 * (y - 1970) + (y - 1) / 4 - (y - 1) / 100 + (y - 1) / 400 - 477 := by
  have step : ∀ k : Int, (daysInYear k : Int) =
      365 * (k + 1 - 1970) + k / 4 - k / 100 + k / 400 -
        (365 * (k - 1970) + (k - 1) / 4 - (k - 1) / 100 + (k - 1) / 400) := fun k => by
    unfold daysInYear
    split <;> rename_i hl
    · rw [isLeap_iff] at hl; push_cast; omega
    · rw [isLeap_iff] at hl; push_cast; omega
  refine Int.inductionOn' y 1970 (by decide) (fun k _ ih => ?_) (fun k _ ih => ?_)
  · rw [yearStart_succ, ih, step k]; ring_nf
  · have e := yearStart_succ (k - 1)
    rw [sub_add_cancel, ih, step (k - 1)] at e
    simp only [sub_add_cancel] at e
    linarith

theorem yearStart_add_le {a b : Int} (h : a < b) : yearStart a + daysInYear a ≤ yearStart b := by
  induction b, (show a + 1 ≤ b by omega) using Int.leInduction with
  | base => rw [yearStart_succ]
  | succ n _ ih => rw [yearStart_succ]; omega

theorem daysBeforeMonth_succ (y : Int) {m : Nat} (hm : 1 ≤ m) :
    daysBeforeMonth y (m + 1) = daysBeforeMonth y m + daysInMonth y m := by
  obtain ⟨k, rfl⟩ : ∃ k, m = k + 1 := ⟨m - 1, by omega⟩
  rfl

theorem daysBeforeMonth_add_le (y : Int) {m n : Nat} (hm : 1 ≤ m) (h : m < n) :
    daysBeforeMonth y m + daysInMonth y m ≤ daysBeforeMonth y n := by
  induction n, (show m + 1 ≤ n by omega) using Nat.le_induction with
  | base => rw [daysBeforeMonth_succ y hm]
  | succ n hn ih => rw [daysBeforeMonth_succ y (by omega)]; omega

theorem daysBeforeMonth_thirteen (y : Int) : daysBeforeMonth y 13 = daysInYear y := by
  cases h : isLeap y <;> simp [daysBeforeMonth, daysInMonth, daysInYear, h]

theorem dayOfYear_lt {x : Date} (hx : x.Valid) : dayOfYear x < daysInYear x.year := by
  obtain ⟨h1, h12, hd1, hd⟩ := hx
  have hle := daysBeforeMonth_add_le x.year h1 (show x.month < 13 by omega)
  rw [daysBeforeMonth_thirteen] at hle
  unfold dayOfYear; omega

theorem dayNumber_lt_of_year_lt {x x' : Date} (hx : x.Valid) (hlt : x.year < x'.year) :
    dayNumber x < dayNumber x' := by
  have := dayOfYear_lt hx
  have := yearStart_add_le hlt
  unfold dayNumber; omega

theorem dayOfYear_lt_of_month_lt {x x' : Date} (hx : x.Valid) (hy : x.year = x'.year)
    (hlt : x.month < x'.month) : dayOfYear x < dayOfYear x' := by
  have hle := daysBeforeMonth_add_le x.year hx.1 hlt
  have hd := hx.2.2
  unfold dayOfYear; rw [← hy]; omega

-- A valid date is determined by its day number.
theorem Date.eq_of_dayNumber_eq {x x' : Date} (hx : x.Valid) (hx' : x'.Valid)
    (h : dayNumber x = dayNumber x') : x = x' := by
  have hy : x.year = x'.year := by
    rcases lt_trichotomy x.year x'.year with hlt | heq | hgt
    · exact absurd h (dayNumber_lt_of_year_lt hx hlt).ne
    · exact heq
    · exact absurd h (dayNumber_lt_of_year_lt hx' hgt).ne'
  have hd : dayOfYear x = dayOfYear x' := by
    unfold dayNumber at h; rw [hy] at h; omega
  have hm : x.month = x'.month := by
    rcases lt_trichotomy x.month x'.month with hlt | heq | hgt
    · exact absurd hd (dayOfYear_lt_of_month_lt hx hy hlt).ne
    · exact heq
    · exact absurd hd (dayOfYear_lt_of_month_lt hx' hy.symm hgt).ne'
  have hday : x.day = x'.day := by
    unfold dayOfYear at hd; rw [hy, hm] at hd
    have := hx.2.2.1; have := hx'.2.2.1; omega
  cases x; cases x'; simp_all

end Zephyr.Lib.Calendar
