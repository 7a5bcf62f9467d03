import Mathlib

namespace Zephyr.Timeout

-- k_timeout_t as z_add_timeout reads it: K_FOREVER, a relative tick count,
-- or an absolute tick (Z_TICK_ABS already decoded).
inductive KTimeout where
  | forever
  | rel (ticks : Nat)
  | abs (tick : Nat)
  deriving DecidableEq, Repr

def sysClockMaxWait : Nat := (2 ^ 32 - 1) / 2

-- elapsed() on one CPU: zero at a tick edge inside the announce loop.
def elapsed (announcing : Bool) (clockElapsed : Nat) : Nat :=
  if announcing then 0 else clockElapsed

-- The dticks z_add_timeout passes to z_timeout_q_insert, and the tick it returns.
def addTimeoutDticks (currTick clockElapsed : Nat) (announcing : Bool) :
    KTimeout → Option (Nat × Nat)
  | .forever => none
  | .rel n =>
    let d := n + elapsed announcing clockElapsed + if announcing then 0 else 1
    some (d, currTick + d)
  | .abs a => some (max 1 (a - currTick), a)

-- `next` is z_timeout_q_next_expiry(), with `none` for K_TICKS_FOREVER.
def nextTimeout (sloppyIdle : Bool) (next : Option Nat) (ticksElapsed : Nat) : Nat :=
  if sysClockMaxWait ≤ ticksElapsed then 0
  else
    match next with
    | none => if sloppyIdle then sysClockMaxWait else sysClockMaxWait - ticksElapsed
    | some n =>
      if sysClockMaxWait ≤ n then sysClockMaxWait - 1 - ticksElapsed
      else if ticksElapsed < n then n - ticksElapsed else 0

theorem nextTimeout_le_budget (sloppy : Bool) (next : Option Nat) (te : Nat) :
    nextTimeout sloppy next te ≤ sysClockMaxWait - te ∨
      (next = none ∧ sloppy = true ∧ nextTimeout sloppy next te = sysClockMaxWait) := by
  unfold nextTimeout
  split
  · left; omega
  · rcases next with _ | n
    · cases sloppy <;> simp
    · left
      simp only
      split_ifs <;> omega

theorem nextTimeout_le_next (sloppy : Bool) (n te : Nat) :
    nextTimeout sloppy (some n) te ≤ n - te := by
  simp only [nextTimeout]
  split_ifs <;> omega

end Zephyr.Timeout
