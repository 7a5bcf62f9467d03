import Zephyr.Winstream.Winstream
import Zephyr.Lib.Window

namespace Zephyr.Winstream

open Zephyr.Lib

/-! The two MEMCPY calls of a wrapping copy -/

section Memcpy

variable {dst src : Nat → UInt8} {pos n j : Nat}

@[simp] theorem memcpy_zero (dst : Nat → UInt8) (pos : Nat) (src : Nat → UInt8) : memcpy dst pos src 0 = dst := by
  funext j
  rw [memcpy, if_neg (by omega)]

theorem memcpy_of_mem (h1 : pos ≤ j) (h2 : j < pos + n) : memcpy dst pos src n j = src (j - pos) := by
  rw [memcpy, if_pos ⟨h1, h2⟩]

theorem memcpy_of_not_mem (h : ¬(pos ≤ j ∧ j < pos + n)) : memcpy dst pos src n j = dst j := by
  rw [memcpy, if_neg h]

end Memcpy

section Ring

variable (ws : SysWinstream)

theorem idxMod_toNat {x : UInt32} (hx : x.toNat < 2 * ws.len.toNat) :
    (idxMod ws x).toNat = x.toNat % ws.len.toNat := by
  unfold idxMod
  split
  · next h =>
    have h' : ws.len.toNat ≤ x.toNat := UInt32.le_iff_toNat_le.1 h
    rw [UInt32.toNat_sub_of_le _ _ h, Nat.mod_eq_sub_mod h', Nat.mod_eq_of_lt (by omega)]
  · next h =>
    have h' : ¬ws.len.toNat ≤ x.toNat := fun h2 => h (UInt32.le_iff_toNat_le.2 h2)
    rw [Nat.mod_eq_of_lt (by omega)]

-- idx_sub is the distance from b to a around the ring.
theorem idxSub_toNat (hlen : ws.len.toNat ≤ 2 ^ 31) {a b : UInt32} (ha : a.toNat < ws.len.toNat)
    (hb : b.toNat < ws.len.toNat) :
    (idxSub ws a b).toNat = (a.toNat + ws.len.toNat - b.toNat) % ws.len.toNat := by
  have hle : b ≤ ws.len := UInt32.le_iff_toNat_le.2 (by omega)
  have hsum : (a + (ws.len - b)).toNat = a.toNat + (ws.len.toNat - b.toNat) := by
    rw [UInt32.toNat_add, UInt32.toNat_sub_of_le _ _ hle]
    exact Nat.mod_eq_of_lt (by omega)
  rw [idxSub, idxMod_toNat ws (by omega), hsum]
  congr 1
  omega

-- The copy into the ring of sys_winstream_write: len bytes of data from off on, at the
-- positions from end on, wrapping once at len; every other cell is as it was.
theorem writeData_ring (data : Nat → UInt8) (off : Nat) {len : UInt32} (he : ws.endIdx < ws.len)
    (hn : len ≤ ws.len) :
    let suffix := min len (ws.len - ws.endIdx)
    let d := memcpy ws.data ws.endIdx.toNat (fun i => data (off + i)) suffix.toNat
    let d := if len > suffix then memcpy d 0 (fun i => data (off + suffix.toNat + i)) (len - suffix).toNat else d
    (∀ j < len.toNat, d ((ws.endIdx.toNat + j) % ws.len.toNat) = data (off + j)) ∧
      ∀ q < ws.len.toNat, (∀ j < len.toNat, (ws.endIdx.toNat + j) % ws.len.toNat ≠ q) → d q = ws.data q := by
  dsimp only
  rw [UInt32.lt_iff_toNat_lt] at he
  rw [UInt32.le_iff_toNat_le] at hn
  have hsuf : (min len (ws.len - ws.endIdx)).toNat = min len.toNat (ws.len.toNat - ws.endIdx.toNat) := by
    rw [UInt32.toNat_min, UInt32.toNat_sub_of_le _ _ (UInt32.le_iff_toNat_le.2 (by omega))]
  generalize min len (ws.len - ws.endIdx) = suffix at hsuf ⊢
  -- Both branches are the second copy of len - suffix bytes, empty when nothing wraps.
  have hd2 : (if len > suffix then memcpy (memcpy ws.data ws.endIdx.toNat (fun i => data (off + i)) suffix.toNat) 0
        (fun i => data (off + suffix.toNat + i)) (len - suffix).toNat
      else memcpy ws.data ws.endIdx.toNat (fun i => data (off + i)) suffix.toNat) =
      memcpy (memcpy ws.data ws.endIdx.toNat (fun i => data (off + i)) suffix.toNat) 0
        (fun i => data (off + suffix.toNat + i)) (len.toNat - suffix.toNat) := by
    split
    · next h =>
      rw [UInt32.toNat_sub_of_le _ _ (UInt32.le_of_lt h)]
    · next h =>
      have h' : ¬suffix.toNat < len.toNat := fun h2 => h (UInt32.lt_iff_toNat_lt.2 h2)
      rw [show len.toNat - suffix.toNat = 0 by omega, memcpy_zero]
  rw [hd2]
  refine ⟨fun j hj => ?_, fun q hq hne => ?_⟩
  · rw [add_mod_of_lt he (by omega)]
    split
    · rw [memcpy_of_not_mem (by omega), memcpy_of_mem (by omega) (by omega)]
      congr 1
      omega
    · rw [memcpy_of_mem (by omega) (by omega)]
      congr 1
      omega
  · have hout : ¬(0 ≤ q ∧ q < 0 + (len.toNat - suffix.toNat)) := by
      rintro ⟨-, hq'⟩
      refine hne (ws.len.toNat - ws.endIdx.toNat + q) (by omega) ?_
      rw [add_mod_of_lt he (by omega), if_neg (by omega)]
      omega
    have hin : ¬(ws.endIdx.toNat ≤ q ∧ q < ws.endIdx.toNat + suffix.toNat) := by
      rintro ⟨hq1, hq2⟩
      refine hne (q - ws.endIdx.toNat) (by omega) ?_
      rw [add_mod_of_lt he (by omega), if_pos (by omega)]
      omega
    rw [memcpy_of_not_mem hout, memcpy_of_not_mem hin]

-- The copy out of the ring of sys_winstream_read: len bytes from position copy on, wrapping
-- once, land at the start of buf.
theorem readData_ring (buf : Nat → UInt8) {copy len : UInt32} (hc : copy < ws.len) (hn : len ≤ ws.len) :
    let suffix := min len (ws.len - copy)
    let b := memcpy buf 0 (fun i => ws.data (copy.toNat + i)) suffix.toNat
    let b := if len > suffix then memcpy b suffix.toNat ws.data (len - suffix).toNat else b
    ∀ i < len.toNat, b i = ws.data ((copy.toNat + i) % ws.len.toNat) := by
  dsimp only
  intro i hi
  rw [UInt32.lt_iff_toNat_lt] at hc
  rw [UInt32.le_iff_toNat_le] at hn
  have hsuf : (min len (ws.len - copy)).toNat = min len.toNat (ws.len.toNat - copy.toNat) := by
    rw [UInt32.toNat_min, UInt32.toNat_sub_of_le _ _ (UInt32.le_iff_toNat_le.2 (by omega))]
  generalize min len (ws.len - copy) = suffix at hsuf ⊢
  have hb2 : (if len > suffix then memcpy (memcpy buf 0 (fun i => ws.data (copy.toNat + i)) suffix.toNat)
        suffix.toNat ws.data (len - suffix).toNat
      else memcpy buf 0 (fun i => ws.data (copy.toNat + i)) suffix.toNat) =
      memcpy (memcpy buf 0 (fun i => ws.data (copy.toNat + i)) suffix.toNat) suffix.toNat ws.data
        (len.toNat - suffix.toNat) := by
    split
    · next h =>
      rw [UInt32.toNat_sub_of_le _ _ (UInt32.le_of_lt h)]
    · next h =>
      have h' : ¬suffix.toNat < len.toNat := fun h2 => h (UInt32.lt_iff_toNat_lt.2 h2)
      rw [show len.toNat - suffix.toNat = 0 by omega, memcpy_zero]
  rw [hb2, add_mod_of_lt hc (by omega)]
  split
  · rw [memcpy_of_not_mem (by omega), memcpy_of_mem (by omega) (by omega), Nat.sub_zero]
  · rw [memcpy_of_mem (by omega) (by omega)]
    congr 1
    omega

end Ring

/-! What one sys_winstream_write does, in numbers -/

section Write

variable (ws : SysWinstream) (data : Nat → UInt8) (len0 : UInt32)

-- The spec of sys_winstream_write: at most len - 1 bytes are kept, the last ones of the
-- call, written at end; start moves to end when the call was cut, and otherwise past the
-- bytes that no longer fit (except on a stream whose seq is 0).
theorem sysWinstreamWrite_spec (h2 : 2 ≤ ws.len.toNat) (hlen : ws.len.toNat ≤ 2 ^ 31)
    (hs : ws.start.toNat < ws.len.toNat) (he : ws.endIdx.toNat < ws.len.toNat) :
    let L := ws.len.toNat
    let n := min len0.toNat (L - 1)
    let avail := L - 1 - (idxSub ws ws.endIdx ws.start).toNat
    let w := sysWinstreamWrite ws data len0
    w.len = ws.len ∧ w.seq = ws.seq + len0 ∧ w.endIdx.toNat = (ws.endIdx.toNat + n) % L ∧
      w.start.toNat = (if n < len0.toNat then ws.endIdx.toNat
        else if ws.seq ≠ 0 ∧ avail < n then (ws.start.toNat + (n - avail)) % L else ws.start.toNat) ∧
      (∀ j < n, w.data ((ws.endIdx.toNat + j) % L) = data (len0.toNat - n + j)) ∧
      ∀ q < L, (∀ j < n, (ws.endIdx.toNat + j) % L ≠ q) → w.data q = ws.data q := by
  dsimp only
  have hL1 : (ws.len - 1).toNat = ws.len.toNat - 1 :=
    UInt32.toNat_sub_of_le _ _ (UInt32.le_iff_toNat_le.2 (by simp; omega))
  have hsub := idxSub_toNat ws hlen he hs
  have hsubL : (idxSub ws ws.endIdx ws.start).toNat < ws.len.toNat := by
    rw [hsub]
    exact Nat.mod_lt _ (by omega)
  have heL : ws.endIdx < ws.len := UInt32.lt_iff_toNat_lt.2 he
  by_cases hover : len0 > ws.len - 1
  · -- the call is cut to its last len - 1 bytes
    have hover' : ws.len.toNat - 1 < len0.toNat := by
      have := UInt32.lt_iff_toNat_lt.1 hover
      omega
    have hmin : min (ws.len - 1) ws.len = ws.len - 1 := UInt32.toNat_inj.mp (by rw [UInt32.toNat_min]; omega)
    have hn : min len0.toNat (ws.len.toNat - 1) = ws.len.toNat - 1 := by omega
    have hoff : (len0 - (ws.len - 1)).toNat = len0.toNat - (ws.len.toNat - 1) := by
      rw [UInt32.toNat_sub_of_le _ _ (UInt32.le_of_lt hover), hL1]
    have hle : ws.len - 1 ≤ ws.len := UInt32.le_iff_toNat_le.2 (by omega)
    obtain ⟨hnew, hold⟩ := @writeData_ring ws data (len0 - (ws.len - 1)).toNat (ws.len - 1) heL hle
    rw [hL1, hoff] at hnew hold
    simp only [sysWinstreamWrite, if_pos hover, hmin, hn, hoff]
    refine ⟨trivial, trivial, ?_, ?_, hnew, hold⟩
    · have hx : (ws.endIdx + (ws.len - 1)).toNat = ws.endIdx.toNat + (ws.len.toNat - 1) := by
        rw [UInt32.toNat_add, hL1]
        exact Nat.mod_eq_of_lt (by omega)
      rw [idxMod_toNat ws (by omega), hx]
    · rw [if_pos hover']
  · -- the call fits: start moves past what no longer fits
    have hover' : len0.toNat ≤ ws.len.toNat - 1 := by
      have h' : ¬(ws.len - 1).toNat < len0.toNat := fun h => hover (UInt32.lt_iff_toNat_lt.2 h)
      rw [hL1] at h'
      omega
    have hmin : min len0 ws.len = len0 := UInt32.toNat_inj.mp (by rw [UInt32.toNat_min]; omega)
    have hn : min len0.toNat (ws.len.toNat - 1) = len0.toNat := by omega
    have hle : len0 ≤ ws.len := UInt32.le_iff_toNat_le.2 (by omega)
    obtain ⟨hnew, hold⟩ := @writeData_ring ws data 0 len0 heL hle
    have hcut : ¬len0 < len0 := fun h => Nat.lt_irrefl _ (UInt32.lt_iff_toNat_lt.1 h)
    simp only [sysWinstreamWrite, if_neg hover, hmin, if_neg hcut, hn]
    refine ⟨trivial, trivial, ?_, ?_, fun j hj => ?_, hold⟩
    · have hx : (ws.endIdx + len0).toNat = ws.endIdx.toNat + len0.toNat := by
        rw [UInt32.toNat_add]
        exact Nat.mod_eq_of_lt (by omega)
      rw [idxMod_toNat ws (by omega), hx]
    · rw [if_neg (Nat.lt_irrefl _)]
      have havail : (ws.len - 1 - idxSub ws ws.endIdx ws.start).toNat =
          ws.len.toNat - 1 - (idxSub ws ws.endIdx ws.start).toNat := by
        rw [UInt32.toNat_sub_of_le _ _ (UInt32.le_iff_toNat_le.2 (by omega)), hL1]
      by_cases hseq : ws.seq = 0
      · simp [hseq]
      · by_cases hfit : ws.len.toNat - 1 - (idxSub ws ws.endIdx ws.start).toNat < len0.toNat
        · have hgt : len0 > ws.len - 1 - idxSub ws ws.endIdx ws.start := UInt32.lt_iff_toNat_lt.2 (by omega)
          have hx : (ws.start + (len0 - (ws.len - 1 - idxSub ws ws.endIdx ws.start))).toNat =
              ws.start.toNat + (len0.toNat - (ws.len.toNat - 1 - (idxSub ws ws.endIdx ws.start).toNat)) := by
            rw [UInt32.toNat_add, UInt32.toNat_sub_of_le _ _ (UInt32.le_of_lt hgt), havail]
            exact Nat.mod_eq_of_lt (by omega)
          rw [if_pos hseq, if_pos hgt, if_pos ⟨hseq, hfit⟩, idxMod_toNat ws (by omega), hx]
        · have hgt : ¬len0 > ws.len - 1 - idxSub ws ws.endIdx ws.start := fun h =>
            hfit (by have := UInt32.lt_iff_toNat_lt.1 h; omega)
          have hnot : ¬(ws.seq ≠ 0 ∧ ws.len.toNat - 1 - (idxSub ws ws.endIdx ws.start).toNat < len0.toNat) :=
            fun h => hfit h.2
          rw [if_pos hseq, if_neg hgt, if_neg hnot]
    · rw [hnew j hj, Nat.zero_add, Nat.sub_self, Nat.zero_add]

theorem len_sysWinstreamWrite : (sysWinstreamWrite ws data len0).len = ws.len := by
  simp only [sysWinstreamWrite]

theorem len_writeAll (calls : List ((Nat → UInt8) × UInt32)) : (writeAll ws calls).len = ws.len := by
  induction calls generalizing ws with
  | nil => rfl
  | cons c cs ih => rw [writeAll, ih, len_sysWinstreamWrite]

end Write

/-! The window over a whole run of writes -/

-- The bytes of one sys_winstream_write call.
def writeBytes (data : Nat → UInt8) (len : UInt32) : List UInt8 := (List.range len.toNat).map data

-- The stream a list of calls writes, in order.
def written (calls : List ((Nat → UInt8) × UInt32)) : List UInt8 := calls.flatMap fun c => writeBytes c.1 c.2

@[simp] theorem length_writeBytes (data : Nat → UInt8) (len : UInt32) : (writeBytes data len).length = len.toNat := by
  simp [writeBytes]

-- How many bytes of the stream S a sys_winstream of length len keeps.
def heldLen (len : UInt32) (S : List UInt8) : Nat := min S.length (len.toNat - 1)

-- A sys_winstream that has taken the stream S: seq counts S, and the heldLen cells from
-- start up to end are the last bytes of S.
structure WinInv (ws : SysWinstream) (S : List UInt8) : Prop where
  len_ge : 2 ≤ ws.len.toNat
  len_le : ws.len.toNat ≤ 2 ^ 31
  start_lt : ws.start.toNat < ws.len.toNat
  end_eq : ws.endIdx.toNat = (ws.start.toNat + heldLen ws.len S) % ws.len.toNat
  seq_eq : ws.seq.toNat = S.length
  window_eq : window ws.data ws.len.toNat ws.start.toNat (heldLen ws.len S) = S.drop (S.length - heldLen ws.len S)

section Inv

variable {ws : SysWinstream} {S : List UInt8}

theorem WinInv.end_lt (hinv : WinInv ws S) : ws.endIdx.toNat < ws.len.toNat := by
  rw [hinv.end_eq]
  exact Nat.mod_lt _ (by have := hinv.len_ge; omega)

theorem WinInv.heldLen_lt (hinv : WinInv ws S) : heldLen ws.len S < ws.len.toNat := by
  have := hinv.len_ge
  simp only [heldLen]
  omega

theorem WinInv.idxSub_eq (hinv : WinInv ws S) : (idxSub ws ws.endIdx ws.start).toNat = heldLen ws.len S := by
  rw [idxSub_toNat ws hinv.len_le hinv.end_lt hinv.start_lt, hinv.end_eq]
  exact add_mod_add_sub_self hinv.start_lt hinv.heldLen_lt

-- What a sys_winstream holds is the end of its stream, at most len - 1 bytes of it.
theorem WinInv.held (hinv : WinInv ws S) : ws.held = S.drop (S.length - (ws.len.toNat - 1)) := by
  have hwin := hinv.window_eq
  have hdrop : S.length - heldLen ws.len S = S.length - (ws.len.toNat - 1) := by
    simp only [heldLen]
    omega
  rw [← hdrop, ← hwin, ← hinv.idxSub_eq]
  rfl

theorem winInv_init {len : UInt32} (h2 : 2 ≤ len.toNat) (hlen : len.toNat ≤ 2 ^ 31) (data : Nat → UInt8) :
    WinInv (sysWinstreamInit len data) [] where
  len_ge := h2
  len_le := hlen
  start_lt := by simp [sysWinstreamInit]; omega
  end_eq := by simp [sysWinstreamInit, heldLen]
  seq_eq := rfl
  window_eq := by simp [heldLen, window]

-- One write keeps the invariant, with the call's bytes appended to the stream, as long as
-- seq does not wrap.
theorem WinInv.write (hinv : WinInv ws S) (data : Nat → UInt8) (len0 : UInt32)
    (htot : S.length + len0.toNat < 2 ^ 32) :
    WinInv (sysWinstreamWrite ws data len0) (S ++ writeBytes data len0) := by
  have he := hinv.end_lt
  have hsub := hinv.idxSub_eq
  have hh := hinv.heldLen_lt
  obtain ⟨h2, hlen, hs, hend, hseq, hwin⟩ := hinv
  obtain ⟨hlen', hseq', hend', hstart', hnew, hold⟩ := sysWinstreamWrite_spec ws data len0 h2 hlen hs he
  rw [hsub] at hstart'
  set L := ws.len.toNat with hL
  set h := heldLen ws.len S with hhdef
  set n := min len0.toNat (L - 1) with hn
  clear_value L h n
  -- The new start is k cells on from the old one, and k + h' = h + n.
  obtain ⟨k, hk, hkh, hstartk, hb⟩ : ∃ k, k + heldLen ws.len (S ++ writeBytes data len0) = h + n ∧ k ≤ h ∧
      (sysWinstreamWrite ws data len0).start.toNat = (ws.start.toNat + k) % L ∧
      (len0.toNat - n = 0 ∨ S.length ≤ S.length - h + k) := by
    simp only [heldLen, List.length_append, length_writeBytes] at hhdef ⊢
    rw [hstart']
    by_cases hcut : n < len0.toNat
    · refine ⟨h, by omega, le_rfl, ?_, .inr (by omega)⟩
      rw [if_pos hcut, hend]
    · rw [if_neg hcut]
      by_cases hadv : ws.seq ≠ 0 ∧ L - 1 - h < n
      · refine ⟨n - (L - 1 - h), by omega, by omega, by rw [if_pos hadv], .inl (by omega)⟩
      · rw [if_neg hadv]
        refine ⟨0, ?_, Nat.zero_le _, (Nat.mod_eq_of_lt hs).symm, .inl (by omega)⟩
        by_cases hz : ws.seq = 0
        · have hS : S.length = 0 := by rw [← hseq, hz]; rfl
          omega
        · have hfit : ¬L - 1 - h < n := fun hlt => hadv ⟨hz, hlt⟩
          omega
  have hh' : heldLen ws.len (S ++ writeBytes data len0) ≤ L - 1 := by simp only [heldLen]; omega
  -- The window after the write, by the ring lemma.
  have hWlen : ((writeBytes data len0).drop (len0.toNat - n)).length = n := by
    simp only [List.length_drop, length_writeBytes]
    omega
  have hnew' : ∀ j (hj : j < ((writeBytes data len0).drop (len0.toNat - n)).length),
      (sysWinstreamWrite ws data len0).data ((ws.start.toNat + h + j) % L) =
        ((writeBytes data len0).drop (len0.toNat - n))[j] := by
    intro j hj
    rw [hWlen] at hj
    rw [← Nat.mod_add_mod, ← hend, hnew j hj]
    simp [writeBytes]
  have hold' : ∀ q < L, (∀ j < ((writeBytes data len0).drop (len0.toNat - n)).length,
      (ws.start.toNat + h + j) % L ≠ q) → (sysWinstreamWrite ws data len0).data q = ws.data q := by
    intro q hq hne
    rw [hWlen] at hne
    refine hold q hq fun j hj heq => hne j hj ?_
    rw [← heq, hend, Nat.mod_add_mod]
  have hW := window_write hkh (by rw [hWlen]; omega) hnew' hold'
  rw [hWlen] at hW
  refine ⟨?_, ?_, ?_, ?_, ?_, ?_⟩
  · rw [hlen', ← hL]
    exact h2
  · rw [hlen', ← hL]
    exact hlen
  · rw [hlen', ← hL, hstartk]
    exact Nat.mod_lt _ (by omega)
  · rw [hlen', ← hL, hend', hstartk, hend, Nat.mod_add_mod, Nat.mod_add_mod, Nat.add_assoc, Nat.add_assoc _ k, hk]
  · rw [hseq', UInt32.toNat_add, hseq, List.length_append, length_writeBytes]
    exact Nat.mod_eq_of_lt htot
  · rw [hlen', ← hL, hstartk, show heldLen ws.len (S ++ writeBytes data len0) = h + n - k by omega, hW, hwin,
      drop_append_drop S _ (Nat.sub_le _ _) hb]
    congr 1
    -- the drop counts agree: h cells of S and n of the call were held, k of them dropped
    have hhS : h ≤ S.length := hhdef ▸ Nat.min_le_left _ _
    have hnl : n ≤ len0.toNat := hn ▸ Nat.min_le_left _ _
    rw [List.length_append, length_writeBytes]
    clear * - hhS hnl hkh
    omega

@[simp] theorem written_nil : written [] = [] := rfl

@[simp] theorem written_cons (c : (Nat → UInt8) × UInt32) (cs : List ((Nat → UInt8) × UInt32)) :
    written (c :: cs) = writeBytes c.1 c.2 ++ written cs := rfl

-- The invariant over a whole run of writes, by induction on the calls.
theorem WinInv.writeAll (hinv : WinInv ws S) (calls : List ((Nat → UInt8) × UInt32))
    (htot : (S ++ written calls).length < 2 ^ 32) : WinInv (writeAll ws calls) (S ++ written calls) := by
  induction calls generalizing ws S with
  | nil => simpa [writeAll] using hinv
  | cons c cs ih =>
    rw [written_cons, ← List.append_assoc] at htot ⊢
    have hstep := hinv.write c.1 c.2 (by simp only [List.length_append, length_writeBytes] at htot; omega)
    exact ih hstep htot

-- A reader at most len - 1 bytes behind the stream's end gets the stream from its seq on,
-- at most buflen bytes of it, and its seq moves past them.
theorem WinInv.read_window (hinv : WinInv ws S) (seq : UInt32) (buf : Nat → UInt8) (buflen : UInt32)
    (hle : seq.toNat ≤ S.length) (hwin : S.length - seq.toNat ≤ ws.len.toNat - 1) :
    (sysWinstreamRead ws seq buf buflen).1.toNat = min buflen.toNat (S.length - seq.toNat) ∧
      (sysWinstreamRead ws seq buf buflen).2.1.toNat = seq.toNat + min buflen.toNat (S.length - seq.toNat) ∧
      (List.range (min buflen.toNat (S.length - seq.toNat))).map (sysWinstreamRead ws seq buf buflen).2.2 =
        (S.drop seq.toNat).take buflen.toNat := by
  have h2 := hinv.len_ge
  have hh := hinv.heldLen_lt
  have hsub := hinv.idxSub_eq
  have hbehind : S.length - seq.toNat ≤ heldLen ws.len S := by simp only [heldLen]; omega
  unfold sysWinstreamRead
  dsimp only
  by_cases hnew : seq = ws.seq ∨ ws.start = ws.endIdx
  · -- nothing new: the reader is at the stream's end
    have hend : seq.toNat = S.length := by
      rcases hnew with hs | hs
      · rw [hs, hinv.seq_eq]
      · have h0 := eq_zero_of_add_mod_eq hinv.start_lt hh (by rw [← hinv.end_eq, hs])
        simp only [heldLen] at h0
        omega
    rw [if_pos hnew, hend, Nat.sub_self, Nat.min_zero, List.drop_length]
    exact ⟨rfl, by rw [hinv.seq_eq]; rfl, by simp⟩
  · rw [if_neg hnew]
    have hseqle : seq ≤ ws.seq := UInt32.le_iff_toNat_le.2 (by rw [hinv.seq_eq]; exact hle)
    have hb : (ws.seq - seq).toNat = S.length - seq.toNat := by
      rw [UInt32.toNat_sub_of_le _ _ hseqle, hinv.seq_eq]
    have hin : ¬ws.seq - seq > idxSub ws ws.endIdx ws.start := fun hgt => by
      have := UInt32.lt_iff_toNat_lt.1 hgt
      omega
    rw [if_neg hin]
    -- copy is where the reader's seq sits in the ring
    have hcopy : (idxSub ws ws.endIdx (ws.seq - seq)).toNat =
        (ws.start.toNat + (heldLen ws.len S - (S.length - seq.toNat))) % ws.len.toNat := by
      rw [idxSub_toNat ws hinv.len_le hinv.end_lt (by omega), hb, hinv.end_eq]
      exact add_mod_add_sub hinv.start_lt hh hbehind
    have hlen : (min buflen (ws.seq - seq)).toNat = min buflen.toNat (S.length - seq.toNat) := by
      rw [UInt32.toNat_min, hb]
    have hcopyL : idxSub ws ws.endIdx (ws.seq - seq) < ws.len :=
      UInt32.lt_iff_toNat_lt.2 (by rw [hcopy]; exact Nat.mod_lt _ (by omega))
    have hlenL : min buflen (ws.seq - seq) ≤ ws.len := UInt32.le_iff_toNat_le.2 (by rw [hlen]; omega)
    have hread := readData_ring ws buf hcopyL hlenL
    dsimp only at hread
    rw [hlen] at hread
    refine ⟨hlen, ?_, ?_⟩
    · rw [UInt32.toNat_add, hlen]
      exact Nat.mod_eq_of_lt (by have := hinv.seq_eq ▸ ws.seq.toNat_lt; omega)
    · -- the bytes read are a piece of the window, which is the end of the stream
      have hmap : (List.range (min buflen.toNat (S.length - seq.toNat))).map
            (fun i => ws.data (((idxSub ws ws.endIdx (ws.seq - seq)).toNat + i) % ws.len.toNat)) =
          window ws.data ws.len.toNat (idxSub ws ws.endIdx (ws.seq - seq)).toNat
            (min buflen.toNat (S.length - seq.toNat)) := rfl
      have hpiece : heldLen ws.len S - (S.length - seq.toNat) + min buflen.toNat (S.length - seq.toNat) ≤
          heldLen ws.len S := by omega
      have hheld : heldLen ws.len S ≤ S.length := Nat.min_le_left _ _
      rw [List.map_congr_left (fun i hi => hread i (List.mem_range.1 hi)), hmap, hcopy,
        window_sub hpiece, hinv.window_eq, List.drop_drop,
        show S.length - heldLen ws.len S + (heldLen ws.len S - (S.length - seq.toNat)) = seq.toNat by omega,
        ← List.length_drop (l := S), ← List.take_eq_take_min]

-- A reader further behind than the window skips to the stream's end and gets nothing.
theorem WinInv.read_behind (hinv : WinInv ws S) (seq : UInt32) (buf : Nat → UInt8) (buflen : UInt32)
    (hle : seq.toNat ≤ S.length) (hbehind : ws.len.toNat - 1 < S.length - seq.toNat) :
    sysWinstreamRead ws seq buf buflen = (0, ws.seq, buf) := by
  have hsub := hinv.idxSub_eq
  have h2 := hinv.len_ge
  unfold sysWinstreamRead
  dsimp only
  have hnew : ¬(seq = ws.seq ∨ ws.start = ws.endIdx) := by
    rintro (hs | hs)
    · rw [hs, hinv.seq_eq] at hbehind
      omega
    · have h0 := eq_zero_of_add_mod_eq hinv.start_lt hinv.heldLen_lt (by rw [← hinv.end_eq, hs])
      simp only [heldLen] at h0
      omega
  have hseqle : seq ≤ ws.seq := UInt32.le_iff_toNat_le.2 (by rw [hinv.seq_eq]; exact hle)
  have hgt : ws.seq - seq > idxSub ws ws.endIdx ws.start := by
    apply UInt32.lt_iff_toNat_lt.2
    rw [UInt32.toNat_sub_of_le _ _ hseqle, hinv.seq_eq, hsub]
    simp only [heldLen]
    omega
  rw [if_neg hnew, if_pos hgt]

end Inv

/-! From sys_winstream_init, over any run of writes -/

section Run

variable {len : UInt32} (h2 : 2 ≤ len.toNat) (hlen : len.toNat ≤ 2 ^ 31) (data : Nat → UInt8)
  (calls : List ((Nat → UInt8) × UInt32)) (htot : (written calls).length < 2 ^ 32)

include h2 hlen htot in
theorem winInv_run : WinInv (writeAll (sysWinstreamInit len data) calls) (written calls) := by
  simpa using (winInv_init h2 hlen data).writeAll calls (by simpa using htot)

include h2 hlen htot in
-- After any run of writes that does not wrap seq, seq counts the bytes written and the
-- buffer holds the last len - 1 of them (all of them if fewer were written), oldest first.
theorem winstream_holds_stream_tail :
    (writeAll (sysWinstreamInit len data) calls).seq.toNat = (written calls).length ∧
      (writeAll (sysWinstreamInit len data) calls).held =
        (written calls).drop ((written calls).length - (len.toNat - 1)) := by
  have hinv := winInv_run h2 hlen data calls htot
  refine ⟨hinv.seq_eq, ?_⟩
  rw [hinv.held, len_writeAll]
  rfl

-- Five bytes in two calls: 0, 1, 2 and then 10, 11.
def fiveBytes : List ((Nat → UInt8) × UInt32) := [(fun i => i.toUInt8, 3), (fun i => (10 + i).toUInt8, 2)]

-- In a buffer of four the last three are held.
theorem winstream_holds_stream_tail_five :
    (writeAll (sysWinstreamInit 4 fun _ => 0) fiveBytes).seq.toNat = (written fiveBytes).length ∧
      (writeAll (sysWinstreamInit 4 fun _ => 0) fiveBytes).held =
        (written fiveBytes).drop ((written fiveBytes).length - ((4 : UInt32).toNat - 1)) :=
  winstream_holds_stream_tail (by decide) (by decide) _ _ (by decide)

include h2 hlen htot in
-- sys_winstream_read after any run of writes: a reader at most len - 1 bytes behind gets
-- the stream from its seq on, at most buflen bytes, and its seq moves past them; a reader
-- further behind gets nothing and jumps to the stream's end.
theorem winstream_read_returns_stream (seq : UInt32) (hle : seq.toNat ≤ (written calls).length)
    (buf : Nat → UInt8) (buflen : UInt32) :
    ((written calls).length - seq.toNat ≤ len.toNat - 1 →
      (sysWinstreamRead (writeAll (sysWinstreamInit len data) calls) seq buf buflen).1.toNat =
          min buflen.toNat ((written calls).length - seq.toNat) ∧
        (sysWinstreamRead (writeAll (sysWinstreamInit len data) calls) seq buf buflen).2.1.toNat =
          seq.toNat + min buflen.toNat ((written calls).length - seq.toNat) ∧
        (List.range (min buflen.toNat ((written calls).length - seq.toNat))).map
            (sysWinstreamRead (writeAll (sysWinstreamInit len data) calls) seq buf buflen).2.2 =
          ((written calls).drop seq.toNat).take buflen.toNat) ∧
    (len.toNat - 1 < (written calls).length - seq.toNat →
      sysWinstreamRead (writeAll (sysWinstreamInit len data) calls) seq buf buflen =
        (0, (writeAll (sysWinstreamInit len data) calls).seq, buf)) := by
  have hinv := winInv_run h2 hlen data calls htot
  have hL := len_writeAll (sysWinstreamInit len data) calls
  refine ⟨fun hwin => ?_, fun hbehind => ?_⟩
  · exact hinv.read_window seq buf buflen hle (by rw [hL]; exact hwin)
  · exact hinv.read_behind seq buf buflen hle (by rw [hL]; exact hbehind)

-- A reader at seq 3 of the five bytes above gets the last two.
theorem winstream_read_returns_stream_five :
    (List.range (min (8 : UInt32).toNat ((written fiveBytes).length - (3 : UInt32).toNat))).map
        (sysWinstreamRead (writeAll (sysWinstreamInit 4 fun _ => 0) fiveBytes) 3 (fun _ => 0) 8).2.2 =
      ((written fiveBytes).drop (3 : UInt32).toNat).take (8 : UInt32).toNat :=
  ((winstream_read_returns_stream (by decide : 2 ≤ (4 : UInt32).toNat) (by decide) (fun _ => 0) fiveBytes (by decide) 3
    (by decide) (fun _ => 0) 8).1 (by decide)).2.2

end Run

end Zephyr.Winstream
