import Mathlib

namespace Zephyr.Timeout

def numSoonLists : Nat := 32

def numLaterLists : Nat := 32

def bit (i : Nat) : BitVec 32 := 1#32 <<< i

-- The wheel's view of a struct _timeout: its dticks field (a list index, a
-- composite later*32+soon value or a distant delta), its two tier flags and
-- whether its node is linked.
structure TimeoutRec where
  dticks : Nat
  soon : Bool
  later : Bool
  linked : Bool
  deriving DecidableEq, Repr, Inhabited

structure Wheel where
  soon : Nat → List Nat
  later : Nat → List Nat
  distant : List Nat
  soonDefer : List Nat
  soonBits : BitVec 32
  soonIndex : Nat
  laterIndex : Nat
  announcing : Nat
  sifted : Nat

structure WheelSys where
  wheel : Wheel
  tos : Nat → TimeoutRec
  currTick : Nat
  announceRemaining : Nat
  fired : List (Nat × Nat)

namespace WheelSys

def setTo (s : WheelSys) (t : Nat) (r : TimeoutRec) : WheelSys :=
  { s with tos := Function.update s.tos t r }

def setWheel (s : WheelSys) (w : Wheel) : WheelSys := { s with wheel := w }

@[simp] theorem setTo_wheel (s : WheelSys) (t : Nat) (r : TimeoutRec) :
    (s.setTo t r).wheel = s.wheel := rfl

@[simp] theorem setTo_tos (s : WheelSys) (t u : Nat) (r : TimeoutRec) :
    (s.setTo t r).tos u = if u = t then r else s.tos u := by
  simp [setTo, Function.update_apply]

@[simp] theorem setWheel_wheel (s : WheelSys) (w : Wheel) : (s.setWheel w).wheel = w := rfl

@[simp] theorem setWheel_tos (s : WheelSys) (w : Wheel) : (s.setWheel w).tos = s.tos := rfl

end WheelSys

open WheelSys

def timeoutWheelInit : Wheel :=
  { soon := fun _ => [], later := fun _ => [], distant := [], soonDefer := [], soonBits := 0,
    soonIndex := numSoonLists - 1, laterIndex := 0, announcing := 0, sifted := 1 }

def listInsertBefore (t tm : Nat) : List Nat → List Nat
  | [] => []
  | x :: xs => if x = t then tm :: x :: xs else x :: listInsertBefore t tm xs

def timeoutWheelFirst (s : WheelSys) : Option Nat :=
  let w := s.wheel
  let bitmap := w.soonBits ||| bit (numSoonLists - 1)
  let bitmap := if w.sifted = 0 then bitmap &&& ~~~(bit w.soonIndex - 1) else bitmap
  (w.soon bitmap.ctz.toNat).head?

def timeoutWheelPrependSoon (s : WheelSys) (tm : Nat) : WheelSys :=
  let index := (s.tos tm).dticks % numSoonLists
  let w := s.wheel
  let s := s.setWheel { w with soonBits := w.soonBits ||| bit index,
                               soon := Function.update w.soon index (tm :: w.soon index) }
  s.setTo tm { s.tos tm with soon := true, dticks := index }

def timeoutWheelAppendSoon (s : WheelSys) (tm : Nat) : WheelSys :=
  let w := s.wheel
  let index := ((s.tos tm).dticks + w.soonIndex) % numSoonLists
  let s := s.setTo tm { s.tos tm with dticks := index }
  let s := s.setWheel { w with soonBits := w.soonBits ||| bit index,
                               soon := Function.update w.soon index (w.soon index ++ [tm]) }
  s.setTo tm { s.tos tm with soon := true }

def timeoutWheelAppendSoonDefer (s : WheelSys) (tm : Nat) : WheelSys :=
  let w := s.wheel
  let index := ((s.tos tm).dticks + w.soonIndex) % numSoonLists
  let s := s.setTo tm { s.tos tm with dticks := index + numSoonLists }
  let s := s.setWheel { w with soonDefer := w.soonDefer ++ [tm] }
  s.setTo tm { s.tos tm with soon := true }

def timeoutWheelAppendLater (s : WheelSys) (tm : Nat) : WheelSys :=
  let w := s.wheel
  let position := ((s.tos tm).dticks + w.soonIndex - numSoonLists) % 2 ^ 32
  let soon := position % numSoonLists
  let later := (position / numSoonLists + w.laterIndex - w.sifted) % numLaterLists
  let s := s.setTo tm { s.tos tm with dticks := later * numSoonLists + soon, later := true }
  s.setWheel { w with later := Function.update w.later later (w.later later ++ [tm]) }

-- The scan of the distant delta list: `tm` goes before the first entry with
-- a larger delta, and the delta of each entry passed is taken off `tm`'s.
def distantInsert (s : WheelSys) (tm : Nat) : List Nat → List Nat → WheelSys
  | passed, [] =>
    s.setWheel { s.wheel with distant := passed ++ [tm] }
  | passed, t :: rest =>
    if (s.tos tm).dticks < (s.tos t).dticks then
      let s := s.setTo t { s.tos t with dticks := (s.tos t).dticks - (s.tos tm).dticks }
      s.setWheel { s.wheel with distant := passed ++ tm :: t :: rest }
    else
      let s := s.setTo tm { s.tos tm with dticks := (s.tos tm).dticks - (s.tos t).dticks }
      distantInsert s tm (passed ++ [t]) rest

def timeoutWheelInsertDistant (s : WheelSys) (tm cutoff : Nat) : WheelSys :=
  let s := s.setTo tm { s.tos tm with dticks := (s.tos tm).dticks - cutoff }
  distantInsert s tm [] s.wheel.distant

def wheelCutoff (w : Wheel) : Nat :=
  (numLaterLists + w.sifted + 1) * numSoonLists - w.soonIndex - 1

def timeoutWheelAddTimeout (s : WheelSys) (tm : Nat) : WheelSys :=
  let d := (s.tos tm).dticks
  if d ≤ numSoonLists - s.wheel.announcing then timeoutWheelAppendSoon s tm
  else if d = numSoonLists then timeoutWheelAppendSoonDefer s tm
  else if d ≤ wheelCutoff s.wheel then timeoutWheelAppendLater s tm
  else timeoutWheelInsertDistant s tm (wheelCutoff s.wheel)

def timeoutWheelRemoveTimeout (s : WheelSys) (tm : Nat) : WheelSys :=
  let w := s.wheel
  let w := { w with soon := fun i => (w.soon i).erase tm, later := fun i => (w.later i).erase tm,
                    distant := w.distant.erase tm, soonDefer := w.soonDefer.erase tm }
  let r := s.tos tm
  let w := if r.soon && decide (r.dticks < numSoonLists) && (w.soon r.dticks).isEmpty
    then { w with soonBits := w.soonBits &&& ~~~(bit r.dticks) } else w
  (s.setWheel w).setTo tm { r with soon := false, later := false, linked := false }

-- The deltas of the distant list summed up to and including `tm`.
def distantSumThrough (s : WheelSys) (tm : Nat) : List Nat → Nat
  | [] => 0
  | t :: rest => (s.tos t).dticks + if t = tm then 0 else distantSumThrough s tm rest

def timeoutWheelRemainder (s : WheelSys) (tm : Nat) : Nat :=
  let w := s.wheel
  let r := s.tos tm
  if r.soon then
    if r.dticks = w.soonIndex then (1 - w.announcing) * numSoonLists
    else if numSoonLists ≤ r.dticks then numSoonLists
    else (r.dticks + numSoonLists - w.soonIndex) % numSoonLists
  else if r.later then
    let laterSlot := r.dticks / numSoonLists
    let soonIndex := r.dticks % numSoonLists
    let slotsAhead := (laterSlot + numLaterLists - w.laterIndex) % numLaterLists + w.sifted
    numSoonLists - w.soonIndex + slotsAhead * numSoonLists + soonIndex
  else wheelCutoff w + distantSumThrough s tm w.distant

def zTimeoutQInsert (s : WheelSys) (tm dticks : Nat) : WheelSys × Bool :=
  let s := s.setTo tm { s.tos tm with dticks := dticks, linked := true }
  let s := timeoutWheelAddTimeout s tm
  (s, timeoutWheelFirst s = some tm)

def zTimeoutQRemove (s : WheelSys) (tm : Nat) : WheelSys × Bool :=
  let wasFirst := timeoutWheelFirst s = some tm
  (timeoutWheelRemoveTimeout s tm, wasFirst)

def zTimeoutQNextExpiry (s : WheelSys) : Nat :=
  let d := match timeoutWheelFirst s with
    | some tm => (s.tos tm).dticks
    | none => numSoonLists - 1
  (numSoonLists - 1 - s.wheel.soonIndex + d) % numSoonLists + 1

-- One pass of the sift_down_to_soon loop on the tail `t` of the later list.
def siftSoonStep (s : WheelSys) (t : Nat) : WheelSys :=
  timeoutWheelPrependSoon (s.setTo t { s.tos t with soon := false, later := false }) t

def timeoutWheelSiftDownToSoon (s : WheelSys) : WheelSys :=
  let w := s.wheel
  let l := w.later w.laterIndex
  let s := s.setWheel { w with later := Function.update w.later w.laterIndex [] }
  l.reverse.foldl siftSoonStep s

-- The leading distant entries whose deltas add up to less than `siftTicks`
-- become later-list entries with composite dticks.
def siftLater (s : WheelSys) (siftTicks newDticks : Nat) (moved : List Nat) :
    List Nat → WheelSys × List Nat × List Nat
  | [] => (s, moved, [])
  | t :: rest =>
    let d := (s.tos t).dticks
    if siftTicks ≤ d then (s.setTo t { s.tos t with dticks := d - siftTicks }, moved, t :: rest)
    else
      siftLater (s.setTo t { s.tos t with later := true, dticks := newDticks + d }) (siftTicks - d)
        (newDticks + d) (moved ++ [t]) rest

def timeoutWheelSiftDownToLater (s : WheelSys) : WheelSys :=
  let w := s.wheel
  let (s, moved, rest) := siftLater s numSoonLists (w.laterIndex * numSoonLists) [] w.distant
  let w := s.wheel
  s.setWheel { w with distant := rest,
                      later := Function.update w.later w.laterIndex (moved ++ w.later w.laterIndex) }

def timeoutWheelSiftDown (s : WheelSys) : WheelSys :=
  let s := timeoutWheelSiftDownToLater (timeoutWheelSiftDownToSoon s)
  s.setWheel { s.wheel with laterIndex := (s.wheel.laterIndex + 1) % numLaterLists, sifted := 1 }

-- The drain of soon[index]: `handler` is what the fired timeouts' functions
-- do to the state, and `fuel` bounds how often they may refill the list.
def announceDrain (handler : Nat → WheelSys → WheelSys) (index : Nat) :
    Nat → WheelSys → WheelSys
  | 0, s => s
  | fuel + 1, s =>
    match (s.wheel.soon index).head? with
    | none => s
    | some t =>
      let w := s.wheel
      let s := s.setWheel { w with soon := Function.update w.soon index (w.soon index).tail }
      let s := s.setTo t { s.tos t with soon := false, later := false, linked := false }
      let s := { s with fired := s.fired ++ [(t, s.currTick)] }
      announceDrain handler index fuel (handler t s)

def migrateSoonDefer (s : WheelSys) : List Nat → WheelSys
  | [] => s
  | t :: rest =>
    let idx := (s.tos t).dticks % numSoonLists
    let s := s.setTo t { s.tos t with dticks := idx }
    let w := s.wheel
    let s := s.setWheel { w with soonBits := w.soonBits ||| bit idx,
                                 soon := Function.update w.soon idx (w.soon idx ++ [t]) }
    migrateSoonDefer s rest

def timeoutWheelAnnounceNow (handler : Nat → WheelSys → WheelSys) (fuel : Nat) (s : WheelSys) :
    WheelSys :=
  let index := s.wheel.soonIndex
  let s := s.setWheel { s.wheel with sifted := 0, announcing := 1 }
  let s := announceDrain handler index fuel s
  let s := s.setWheel { s.wheel with announcing := 0 }
  let defer := s.wheel.soonDefer
  let s := migrateSoonDefer (s.setWheel { s.wheel with soonDefer := [] }) defer
  if index = numSoonLists - 1 then timeoutWheelSiftDown s else s

-- The backend-owned announce loop; each pass consumes at least one tick, so
-- `n` passes cover an announce of `n` ticks.
def zTimeoutQAnnounce (handler : Nat → WheelSys → WheelSys) (fuel : Nat) :
    Nat → WheelSys → WheelSys
  | 0, s => s
  | n + 1, s =>
    if s.announceRemaining = 0 then s
    else
      let w := s.wheel
      let mask := BitVec.allOnes 32 <<< ((w.soonIndex + 1) % numSoonLists)
      let next := (mask &&& (w.soonBits ||| bit (numSoonLists - 1))).ctz.toNat
      let correction := (w.soonIndex + 1) / numSoonLists * numSoonLists
      let num := next + correction - w.soonIndex
      if s.announceRemaining < num then
        let r := s.announceRemaining
        { s with currTick := s.currTick + r, announceRemaining := 0,
                 wheel := { w with sifted := 0, soonIndex := (w.soonIndex + r) % numSoonLists } }
      else
        let si := (w.soonIndex + num) % numSoonLists
        let s := s.setWheel { w with soonIndex := si, soonBits := w.soonBits &&& ~~~(bit si) }
        let s := timeoutWheelAnnounceNow handler fuel { s with currTick := s.currTick + num }
        zTimeoutQAnnounce handler fuel n { s with announceRemaining := s.announceRemaining - num }

def sysClockAnnounce (handler : Nat → WheelSys → WheelSys) (fuel : Nat) (s : WheelSys)
    (ticks : Nat) : WheelSys :=
  zTimeoutQAnnounce handler fuel ticks { s with announceRemaining := ticks }

end Zephyr.Timeout
