import Mathlib.Tactic.Ring

namespace Zephyr.Lib

-- A signed integer type of `w` bits, two's complement.

def sMin (w : Nat) : Int := -2 ^ (w - 1)

def sMax (w : Nat) : Int := 2 ^ (w - 1) - 1

def InRange (w : Nat) (x : Int) : Prop := sMin w ≤ x ∧ x ≤ sMax w

instance (w : Nat) (x : Int) : Decidable (InRange w x) := inferInstanceAs (Decidable (_ ∧ _))

-- The value of an arithmetic expression of the type: none when it overflows,
-- which C leaves undefined.
def checked (w : Nat) (x : Int) : Option Int := if InRange w x then some x else none

@[simp] theorem checked_eq_some {w : Nat} {x y : Int} : checked w x = some y ↔ InRange w x ∧ x = y := by
  unfold checked
  split <;> simp_all

@[simp] theorem checked_eq_none {w : Nat} {x : Int} : checked w x = none ↔ ¬InRange w x := by
  unfold checked
  split <;> simp_all

theorem checked_of_inRange {w : Nat} {x : Int} (h : InRange w x) : checked w x = some x := if_pos h

-- A conversion to the type keeps the low `w` bits.
def wrapSigned (w : Nat) (x : Int) : Int := x.bmod (2 ^ w)

theorem sMax_add_one (w : Nat) : sMax w + 1 = -sMin w := by
  unfold sMax sMin
  ring

theorem wrapSigned_of_inRange {w : Nat} {x : Int} (hw : 0 < w) (h : InRange w x) : wrapSigned w x = x := by
  obtain ⟨h1, h2⟩ := h
  have hp : ((2 ^ w : Nat) : Int) = 2 * 2 ^ (w - 1) := by
    push_cast
    rw [← pow_succ', Nat.sub_add_cancel hw]
  unfold wrapSigned
  apply Int.bmod_eq_of_le
  · unfold sMin at h1
    rw [hp]
    omega
  · unfold sMax at h2
    rw [hp]
    omega

-- __builtin_add_overflow and __builtin_sub_overflow into the type: whether the
-- exact result overflowed, and the low `w` bits stored.
def addOverflow (w : Nat) (a b : Int) : Bool × Int := (!decide (InRange w (a + b)), wrapSigned w (a + b))

def subOverflow (w : Nat) (a b : Int) : Bool × Int := (!decide (InRange w (a - b)), wrapSigned w (a - b))

theorem addOverflow_of_inRange {w : Nat} {a b : Int} (hw : 0 < w) (h : InRange w (a + b)) :
    addOverflow w a b = (false, a + b) := by
  simp [addOverflow, h, wrapSigned_of_inRange hw h]

theorem subOverflow_of_inRange {w : Nat} {a b : Int} (hw : 0 < w) (h : InRange w (a - b)) :
    subOverflow w a b = (false, a - b) := by
  simp [subOverflow, h, wrapSigned_of_inRange hw h]

end Zephyr.Lib
