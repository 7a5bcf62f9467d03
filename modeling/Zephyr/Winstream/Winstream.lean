import Mathlib.Logic.Basic

namespace Zephyr.Winstream

-- struct sys_winstream; data[] is the function of the buffer's bytes, read
-- below len only.
structure SysWinstream where
  len : UInt32
  start : UInt32
  endIdx : UInt32
  seq : UInt32
  data : Nat → UInt8

-- sys_winstream_init leaves every field but len zero.
def sysWinstreamInit (len : UInt32) (data : Nat → UInt8) : SysWinstream := ⟨len, 0, 0, 0, data⟩

def idxMod (ws : SysWinstream) (idx : UInt32) : UInt32 := if idx ≥ ws.len then idx - ws.len else idx

def idxSub (ws : SysWinstream) (a b : UInt32) : UInt32 := idxMod ws (a + (ws.len - b))

-- MEMCPY(&dst[pos], src, n)
def memcpy (dst : Nat → UInt8) (pos : Nat) (src : Nat → UInt8) (n : Nat) : Nat → UInt8 :=
  fun j => if pos ≤ j ∧ j < pos + n then src (j - pos) else dst j

-- sys_winstream_write(ws, data, len): data holds the len0 bytes written.
def sysWinstreamWrite (ws : SysWinstream) (data : Nat → UInt8) (len0 : UInt32) : SysWinstream :=
  let endIdx := ws.endIdx
  -- overflow: keep only the last len - 1 bytes
  let (start, len) := if len0 > ws.len - 1 then (endIdx, ws.len - 1) else (ws.start, len0)
  let len := min len ws.len
  let wsStart :=
    if ws.seq ≠ 0 then
      let avail := (ws.len - 1) - idxSub ws endIdx start
      if len > avail then idxMod ws (start + (len - avail)) else ws.start
    else ws.start
  let (wsStart, off) := if len < len0 then (endIdx, (len0 - len).toNat) else (wsStart, 0)
  let suffix := min len (ws.len - endIdx)
  let d := memcpy ws.data endIdx.toNat (fun i => data (off + i)) suffix.toNat
  let d := if len > suffix then memcpy d 0 (fun i => data (off + suffix.toNat + i)) (len - suffix).toNat else d
  { ws with start := wsStart, endIdx := idxMod ws (endIdx + len), seq := ws.seq + len0, data := d }

-- sys_winstream_read between writes: the loop's recheck of start and seq
-- succeeds at once. The result is the return value, the new *seq and buf.
def sysWinstreamRead (ws : SysWinstream) (seq : UInt32) (buf : Nat → UInt8) (buflen : UInt32) :
    UInt32 × UInt32 × (Nat → UInt8) :=
  let wseq := ws.seq
  if seq = wseq ∨ ws.start = ws.endIdx then (0, wseq, buf)
  else
    let behind := wseq - seq
    if behind > idxSub ws ws.endIdx ws.start then (0, wseq, buf)
    else
      let copy := idxSub ws ws.endIdx behind
      let len := min buflen behind
      let suffix := min len (ws.len - copy)
      let b := memcpy buf 0 (fun i => ws.data (copy.toNat + i)) suffix.toNat
      let b := if len > suffix then memcpy b suffix.toNat ws.data (len - suffix).toNat else b
      (len, seq + len, b)

-- The bytes a sys_winstream holds, oldest first: from start up to end.
def SysWinstream.held (ws : SysWinstream) : List UInt8 :=
  (List.range (idxSub ws ws.endIdx ws.start).toNat).map fun i => ws.data ((ws.start.toNat + i) % ws.len.toNat)

def writeAll (ws : SysWinstream) : List ((Nat → UInt8) × UInt32) → SysWinstream
  | [] => ws
  | (d, n) :: rest => writeAll (sysWinstreamWrite ws d n) rest

-- The stream 0, 1, 2, ... (mod 256) written to a sys_winstream of two bytes
-- in calls of 2^32 - 1, 1 and 1 bytes; the second call brings seq back to 0.
def wrapStream (p : Nat) : UInt8 := p.toUInt8

def wrapWrites : List ((Nat → UInt8) × UInt32) :=
  [(fun i => wrapStream i, 4294967295), (fun i => wrapStream (4294967295 + i), 1),
    (fun i => wrapStream (4294967296 + i), 1)]

theorem winstream_write_at_seq_zero_empties_window :
    (writeAll (sysWinstreamInit 2 fun _ => 0) (wrapWrites.take 2)).seq = 0 ∧
    (writeAll (sysWinstreamInit 2 fun _ => 0) (wrapWrites.take 2)).held = [wrapStream 4294967295] ∧
    (writeAll (sysWinstreamInit 2 fun _ => 0) wrapWrites).seq = 1 ∧
    (writeAll (sysWinstreamInit 2 fun _ => 0) wrapWrites).held = [] ∧
    (sysWinstreamRead (writeAll (sysWinstreamInit 2 fun _ => 0) wrapWrites) 0 (fun _ => 0) 16).1 = 0 ∧
    (sysWinstreamRead (writeAll (sysWinstreamInit 2 fun _ => 0) wrapWrites) 0 (fun _ => 0) 16).2.1 = 1 := by
  decide

end Zephyr.Winstream
