import Zephyr.Spsc.Pbuf
import Zephyr.Lib.Window

namespace Zephyr.Spsc

open Zephyr.Lib

/-! The packet buffer as a FIFO of packets, for calls made one after the other -/

theorem roundUp4_bounds (x : Nat) : roundUp4 x % 4 = 0 ∧ x ≤ roundUp4 x ∧ roundUp4 x < x + 4 := by
  unfold roundUp4
  omega

theorem roundUp4_add {a x : Nat} (ha : a % 4 = 0) : roundUp4 (a + x) = a + roundUp4 x := by
  unfold roundUp4
  omega

-- A cell less than one turn past R folds to R's position plus the distance.
theorem mod_add_eq {R k n : Nat} (h : R % n + k < n) : (R + k) % n = R % n + k := by
  rw [← Nat.mod_add_mod, Nat.mod_eq_of_lt h]

theorem add_sub_mod_self {R n : Nat} (hn : 0 < n) : (R + (n - R % n)) % n = 0 := by
  have h := Nat.mod_add_div R n
  have hlt := Nat.mod_lt R hn
  rw [show R + (n - R % n) = n * (R / n + 1) by rw [Nat.mul_add]; omega, Nat.mul_mod_right]

-- Two virtual indices less than one turn apart share a cell only if they are equal.
theorem eq_of_mod_eq {R W n : Nat} (hle : R ≤ W) (hW : W < R + n) (h : R % n = W % n) : R = W := by
  by_contra hne
  have hpos : 0 < W - R := by omega
  exact add_mod_ne_of_lt (a := R) (L := n) hpos (by omega) (by rw [Nat.add_sub_cancel' hle]; exact h.symm)

-- Packet p is stored at virtual index R of a data area of n bytes: its length in
-- big endian, two bytes sys_put_be16 leaves alone, then its data, all before the end.
structure Stored (n : Nat) (d : Nat → UInt8) (R : Nat) (p : List UInt8) : Prop where
  hi : d (R % n) = UInt8.ofNat (p.length / 256)
  lo : d (R % n + 1) = UInt8.ofNat p.length
  body : ∀ i (h : i < p.length), d (R % n + lenSz + i) = p[i]
  pos : 0 < p.length
  lt_max : p.length < spscPbufMaxLen
  fits : R % n + p.length + lenSz ≤ n

-- The packets Q stored from virtual read index R up to virtual write index W, where
-- cell v is data[v % n]. A padding mark sends the reader to the start of data[].
inductive Lay (n : Nat) (d : Nat → UInt8) (W : Nat) : Nat → List (List UInt8) → Prop
  | nil : Lay n d W W []
  | pkt {R : Nat} {p : List UInt8} {Q : List (List UInt8)} (hlt : R < W) (hp : Stored n d R p)
      (rest : Lay n d W (R + roundUp4 (p.length + lenSz)) Q) : Lay n d W R (p :: Q)
  | pad {R : Nat} {Q : List (List UInt8)} (hlt : R < W) (pos : 0 < R % n) (mark : d (R % n) = paddingMark)
      (rest : Lay n d W (R + (n - R % n)) Q) : Lay n d W R Q

variable {n : Nat} {d d' : Nat → UInt8} {R W W' : Nat} {p : List UInt8} {Q Q' : List (List UInt8)}

-- A length byte is never the padding mark: lengths stay below 0xFF00.
theorem Stored.ne_mark (hp : Stored n d R p) : d (R % n) ≠ paddingMark := by
  rw [hp.hi]
  have h := hp.lt_max
  unfold spscPbufMaxLen at h
  unfold paddingMark
  intro heq
  have := congrArg UInt8.toNat heq
  simp only [UInt8.toNat_ofNat', UInt8.toNat_ofNat, Nat.reducePow, Nat.reduceMod] at this
  omega

theorem Stored.getBe16 (hp : Stored n d R p) : sysGetBe16 d (R % n) = p.length := by
  have h := hp.lt_max
  unfold spscPbufMaxLen at h
  unfold sysGetBe16
  rw [hp.hi, hp.lo, UInt8.toNat_ofNat', UInt8.toNat_ofNat']
  omega

theorem Stored.frame (hp : Stored n d R p) (hd : ∀ k < p.length + lenSz, d' (R % n + k) = d (R % n + k)) :
    Stored n d' R p where
  hi := by rw [← hp.hi]; simpa using hd 0 (by unfold lenSz; omega)
  lo := by rw [← hp.lo]; exact hd 1 (by unfold lenSz; omega)
  body i h := by rw [← hp.body i h, Nat.add_assoc]; exact hd _ (by unfold lenSz; omega)
  pos := hp.pos
  lt_max := hp.lt_max
  fits := hp.fits

theorem Lay.le (h : Lay n d W R Q) : R ≤ W := by
  cases h with
  | nil => exact le_rfl
  | pkt hlt => exact hlt.le
  | pad hlt => exact hlt.le

theorem Lay.eq_nil (h : Lay n d W W Q) : Q = [] := by
  cases h with
  | nil => rfl
  | pkt hlt => exact absurd hlt (lt_irrefl _)
  | pad hlt => exact absurd hlt (lt_irrefl _)

-- What a reader finds at R before the write index: a packet or a padding mark.
theorem Lay.cases_lt (h : Lay n d W R Q) (hlt : R < W) :
    (∃ p Q', Q = p :: Q' ∧ Stored n d R p ∧ Lay n d W (R + roundUp4 (p.length + lenSz)) Q') ∨
      (0 < R % n ∧ d (R % n) = paddingMark ∧ Lay n d W (R + (n - R % n)) Q) := by
  cases h with
  | nil => exact absurd hlt (lt_irrefl _)
  | pkt _ hp rest => exact .inl ⟨_, _, rfl, hp, rest⟩
  | pad _ pos mark rest => exact .inr ⟨pos, mark, rest⟩

theorem Lay.append (h : Lay n d W R Q) (h' : Lay n d W' W Q') : Lay n d W' R (Q ++ Q') := by
  induction h with
  | nil => exact h'
  | pkt hlt hp _ ih => exact .pkt (lt_of_lt_of_le hlt h'.le) hp ih
  | pad hlt pos mark _ ih => exact .pad (lt_of_lt_of_le hlt h'.le) pos mark ih

-- The packets read only the cells from R up to W.
theorem Lay.frame (hn : 0 < n) (h : Lay n d W R Q) (hd : ∀ v, R ≤ v → v < W → d' (v % n) = d (v % n)) :
    Lay n d' W R Q := by
  induction h with
  | nil => exact .nil
  | @pkt R p Q hlt hp rest ih =>
    have hR := rest.le
    have hb := roundUp4_bounds (p.length + lenSz)
    refine .pkt hlt (hp.frame fun k hk => ?_) (ih fun v hv hvW => hd v (by omega) hvW)
    have hfit := hp.fits
    rw [← mod_add_eq (by omega)]
    exact hd _ (by omega) (by omega)
  | @pad R Q hlt pos mark _ ih =>
    have hmod := Nat.mod_lt R hn
    refine .pad hlt pos ((hd R le_rfl hlt).trans mark) (ih fun v hv hvW => hd v (by omega) hvW)

-- The buffer holds the packets Q between the virtual indices R and W that rd_idx and
-- wr_idx are the cells of; the writer stays a word short of the reader's next turn.
structure Holds (pb : SpscPbuf) (R W : Nat) (Q : List (List UInt8)) : Prop where
  len_pos : 0 < pb.len
  len_dvd : pb.len % 4 = 0
  len_lt : pb.len < 2 ^ 16
  rd : pb.rdIdx = R % pb.len
  wr : pb.wrIdx = W % pb.len
  rd_dvd : R % 4 = 0
  wr_dvd : W % 4 = 0
  gap : W + lenSz ≤ R + pb.len
  lay : Lay pb.len pb.data W R Q

variable {pb : SpscPbuf}

theorem Holds.mod_dvd (h : Holds pb R W Q) : R % pb.len % 4 = 0 := by
  rw [Nat.mod_mod_of_dvd R (Nat.dvd_of_mod_eq_zero h.len_dvd), h.rd_dvd]

theorem Holds.lt_of_ne (h : Holds pb R W Q) (hne : pb.rdIdx ≠ pb.wrIdx) : R < W := by
  have hle := h.lay.le
  have hgap := h.gap
  unfold lenSz at hgap
  refine lt_of_le_of_ne hle fun hRW => hne ?_
  rw [h.rd, h.wr, hRW]

theorem Holds.eq_of_eq (h : Holds pb R W Q) (heq : pb.rdIdx = pb.wrIdx) : R = W := by
  have hgap := h.gap
  unfold lenSz at hgap
  exact eq_of_mod_eq h.lay.le (by omega) (h.rd ▸ h.wr ▸ heq)

-- The reader moves on to R' with the rest of the packets from there.
theorem Holds.read_to (h : Holds pb R W Q) {R' X : Nat} (hX : X = R' % pb.len) (hR : R ≤ R')
    (h4 : R' % 4 = 0) (hlay : Lay pb.len pb.data W R' Q') : Holds { pb with rdIdx := X } R' W Q' where
  len_pos := h.len_pos
  len_dvd := h.len_dvd
  len_lt := h.len_lt
  rd := hX
  wr := h.wr
  rd_dvd := h4
  wr_dvd := h.wr_dvd
  gap := by have := h.gap; dsimp only; omega
  lay := hlay

-- A padding mark at R sends the reader to the next turn, a multiple of four.
theorem pad_dvd (hn : 0 < n) (hn4 : n % 4 = 0) (hR : R % 4 = 0) : (R + (n - R % n)) % 4 = 0 := by
  have hm : R % n % 4 = 0 := by rw [Nat.mod_mod_of_dvd R (Nat.dvd_of_mod_eq_zero hn4), hR]
  have hlt := Nat.mod_lt R hn
  omega

@[simp] theorem spscPbufClaim_len (pb : SpscPbuf) : (spscPbufClaim pb).1.len = pb.len := by
  unfold spscPbufClaim; dsimp only; split_ifs <;> rfl

@[simp] theorem spscPbufClaim_data (pb : SpscPbuf) : (spscPbufClaim pb).1.data = pb.data := by
  unfold spscPbufClaim; dsimp only; split_ifs <;> rfl

-- spsc_pbuf_claim finds the oldest packet, past a padding mark if there is one.
theorem spscPbufClaim_spec (h : Holds pb R W Q) :
    ∃ R', Holds (spscPbufClaim pb).1 R' W Q ∧
      match Q with
      | [] => (spscPbufClaim pb).2.1 = 0
      | p :: _ => (spscPbufClaim pb).2 = (p.length, R' % pb.len + lenSz) ∧ Stored pb.len pb.data R' p := by
  by_cases hrw : pb.rdIdx = pb.wrIdx
  · -- an empty buffer
    have hRW := h.eq_of_eq hrw
    subst hRW
    have hQ := h.lay.eq_nil
    subst hQ
    have hc : spscPbufClaim pb = (pb, 0, 0) := by simp only [spscPbufClaim, if_pos hrw]
    exact ⟨R, hc ▸ h, by rw [hc]⟩
  have hlt := h.lt_of_ne hrw
  by_cases hm : pb.data pb.rdIdx = paddingMark
  · -- a padding mark: the reader goes back to data[0]
    rcases h.lay.cases_lt hlt with ⟨p, Q', rfl, hp, _⟩ | ⟨_, _, hrest⟩
    · exact absurd (h.rd ▸ hm) hp.ne_mark
    have hmod : (R + (pb.len - R % pb.len)) % pb.len = 0 := add_sub_mod_self h.len_pos
    have h1 := h.read_to hmod.symm (by omega) (pad_dvd h.len_pos h.len_dvd h.rd_dvd) hrest
    by_cases hw0 : 0 = pb.wrIdx
    · have hc : spscPbufClaim pb = ({ pb with rdIdx := 0 }, 0, 0) := by
        simp only [spscPbufClaim, if_neg hrw, if_pos hm, if_pos hw0]
      have hRW := h1.eq_of_eq hw0
      rw [← hRW] at hrest
      have hQ := hrest.eq_nil
      subst hQ
      exact ⟨_, by rw [hc]; exact h1, by rw [hc]⟩
    · have hc : spscPbufClaim pb = ({ pb with rdIdx := 0 }, sysGetBe16 pb.data 0, lenSz) := by
        simp only [spscPbufClaim, if_pos hm, if_neg hrw, if_neg hw0]
      rcases hrest.cases_lt (h1.lt_of_ne hw0) with ⟨p, Q', rfl, hp, _⟩ | ⟨hpos, _, _⟩
      · have hget := hp.getBe16
        rw [hmod] at hget
        exact ⟨_, by rw [hc]; exact h1, by rw [hc, hget, hmod, Nat.zero_add], hp⟩
      · exact absurd hmod (by omega)
  · -- a packet at rd_idx
    have hc : spscPbufClaim pb = (pb, sysGetBe16 pb.data pb.rdIdx, pb.rdIdx + lenSz) := by
      simp only [spscPbufClaim, if_neg hrw, if_neg hm]
    rcases h.lay.cases_lt hlt with ⟨p, Q', rfl, hp, _⟩ | ⟨_, hmark, _⟩
    · have hget := hp.getBe16
      rw [← h.rd] at hget
      exact ⟨R, hc ▸ h, by rw [hc, hget, h.rd], hp⟩
    · exact absurd (h.rd ▸ hmark) hm

@[simp] theorem spscPbufFree_len (pb : SpscPbuf) (len : Nat) : (spscPbufFree pb len).len = pb.len := rfl

@[simp] theorem spscPbufFree_data (pb : SpscPbuf) (len : Nat) : (spscPbufFree pb len).data = pb.data := rfl

-- spsc_pbuf_free of the packet at R: the reader moves past it, and past a padding
-- mark behind it unless the writer is there.
theorem spscPbufFree_spec (h : Holds pb R W (p :: Q)) (hp : Stored pb.len pb.data R p) :
    ∃ R', Holds (spscPbufFree pb p.length) R' W Q := by
  have hlt : R < W := lt_of_le_of_ne h.lay.le fun hRW => by
    have hl := h.lay
    rw [hRW] at hl
    exact List.cons_ne_nil _ _ hl.eq_nil
  rcases h.lay.cases_lt hlt with ⟨p', Q', heq, -, hrest⟩ | ⟨-, hmark, -⟩
  swap
  · exact absurd hmark hp.ne_mark
  obtain ⟨rfl, rfl⟩ := List.cons.inj heq
  have hfit := hp.fits
  have hr4 := h.mod_dvd
  have hn4 := h.len_dvd
  have h16 := h.len_lt
  have hn := h.len_pos
  have hkb := roundUp4_bounds (p.length + lenSz)
  have hR1 := hrest.le
  have hL : lenSz = 4 := rfl
  -- rd_idx + len + LEN_SZ and its round-up stay below 2^16: no uint16_t wrap
  have e1 : (pb.rdIdx + p.length + lenSz) % 2 ^ 16 = R % pb.len + (p.length + lenSz) := by
    rw [h.rd, Nat.add_assoc]
    exact Nat.mod_eq_of_lt (by omega)
  have e2 : roundUp4 (R % pb.len + (p.length + lenSz)) % 2 ^ 16 =
      R % pb.len + roundUp4 (p.length + lenSz) := by
    rw [roundUp4_add hr4]
    exact Nat.mod_eq_of_lt (by omega)
  have hR14 : (R + roundUp4 (p.length + lenSz)) % 4 = 0 := by have := h.rd_dvd; omega
  unfold spscPbufFree
  dsimp only
  rw [e1, e2]
  split_ifs with h1 h2 h3
  · -- a padding mark follows, and the writer is not on it
    have hmod1 : (R + roundUp4 (p.length + lenSz)) % pb.len = R % pb.len + roundUp4 (p.length + lenSz) :=
      mod_add_eq (by omega)
    have hlt1 : R + roundUp4 (p.length + lenSz) < W := lt_of_le_of_ne hR1 fun hRW => h3 (by
      rw [h.wr, ← hRW, hmod1])
    rcases hrest.cases_lt hlt1 with ⟨_, _, _, hp1, _⟩ | ⟨_, _, hrest2⟩
    · exact absurd (hmod1 ▸ h2) hp1.ne_mark
    exact ⟨_, h.read_to (add_sub_mod_self hn).symm (by omega) (pad_dvd hn hn4 hR14) hrest2⟩
  · -- the writer is on the padding mark: the reader waits there
    exact ⟨_, h.read_to (mod_add_eq (by omega)).symm (by omega) hR14 hrest⟩
  · exact ⟨_, h.read_to (mod_add_eq (by omega)).symm (by omega) hR14 hrest⟩
  · -- the packet ended data[]: the reader goes back to its start
    have hk : roundUp4 (p.length + lenSz) = pb.len - R % pb.len := by omega
    rw [hk] at hrest
    exact ⟨_, h.read_to (add_sub_mod_self hn).symm (by omega) (pad_dvd hn hn4 h.rd_dvd) hrest⟩

@[simp] theorem spscPbufAlloc_len (pb : SpscPbuf) (len : Nat) : (spscPbufAlloc pb len).1.len = pb.len := by
  unfold spscPbufAlloc; dsimp only; split_ifs <;> rfl

@[simp] theorem spscPbufAlloc_rdIdx (pb : SpscPbuf) (len : Nat) :
    (spscPbufAlloc pb len).1.rdIdx = pb.rdIdx := by
  unfold spscPbufAlloc; dsimp only; split_ifs <;> rfl

-- spsc_pbuf_alloc of a length it accepts, by its three branches: room at the end (or
-- too little room anywhere), padding up to the end, or room before the reader.
theorem spscPbufAlloc_eq {len : Nat} (hpos : 0 < len) (hmax : len < spscPbufMaxLen) :
    spscPbufAlloc pb len =
      if pb.rdIdx ≤ pb.wrIdx then
        if len + lenSz ≤ pb.len - pb.wrIdx ∨ pb.rdIdx ≤ len + lenSz then
          (pb, min (len : Int) (max (((pb.len - pb.wrIdx : Nat) : Int) -
            (if pb.rdIdx > 0 then 0 else (freeSpaceDistance : Int)) - lenSz) 0), pb.wrIdx + lenSz)
        else
          ({ pb with data := Function.update pb.data pb.wrIdx paddingMark, wrIdx := 0 },
            min (len : Int) (max ((pb.rdIdx : Int) - freeSpaceDistance - lenSz) 0), lenSz)
      else
        (pb, min (len : Int) (max ((pb.rdIdx : Int) - pb.wrIdx - freeSpaceDistance - lenSz) 0),
          pb.wrIdx + lenSz) := by
  unfold spscPbufAlloc
  rw [if_neg (by omega)]
  dsimp only
  split_ifs <;> first | rfl | omega

-- Where the writer stands against the reader: W - R cells on from rd_idx, at most one wrap.
theorem Holds.wr_cases (h : Holds pb R W Q) :
    (R % pb.len + (W - R) < pb.len ∧ W % pb.len = R % pb.len + (W - R)) ∨
      (pb.len ≤ R % pb.len + (W - R) ∧ W % pb.len + pb.len = R % pb.len + (W - R)) := by
  have hle := h.lay.le
  have hgap := h.gap
  have hL : lenSz = 4 := rfl
  have hr := Nat.mod_lt R h.len_pos
  have hmod : W % pb.len = (R % pb.len + (W - R)) % pb.len := by
    rw [Nat.mod_add_mod, Nat.add_sub_cancel' hle]
  rw [hmod, add_mod_of_lt hr (by omega)]
  split_ifs with hlt
  · exact .inl ⟨hlt, rfl⟩
  · exact .inr ⟨by omega, by omega⟩

-- A write that only changes cells from W up to one turn past R keeps the packets.
theorem Lay.frame_ahead (hn : 0 < n) (h : Lay n d W R Q) {a b : Nat}
    (hab : W % n = a) (hb : a + b ≤ n) (hbW : W + b ≤ R + n) (hd : ∀ i, (i < a ∨ a + b ≤ i) → d' i = d i) :
    Lay n d' W R Q := by
  refine h.frame hn fun v hv hvW => hd _ ?_
  by_contra hin
  rw [not_or, not_lt, not_le] at hin
  have hj : W % n + (v % n - a) < n := by omega
  have hmod := mod_add_eq hj
  have hne := add_mod_ne_of_lt (a := v) (b := W + (v % n - a) - v) (L := n) (by omega) (by omega)
  rw [Nat.add_sub_cancel' (by omega), hmod] at hne
  exact hne (by omega)

@[simp] theorem spscPbufCommit_len (pb : SpscPbuf) (len : Nat) : (spscPbufCommit pb len).len = pb.len := by
  unfold spscPbufCommit; split_ifs <;> rfl

@[simp] theorem spscPbufCommit_rdIdx (pb : SpscPbuf) (len : Nat) :
    (spscPbufCommit pb len).rdIdx = pb.rdIdx := by
  unfold spscPbufCommit; split_ifs <;> rfl

-- The cells sys_put_be16 and the memcpy of the data leave alone.
theorem putBe16_memcpy_outside {d buf : Nat → UInt8} {w len i : Nat} (hi : i < w ∨ w + (len + lenSz) ≤ i) :
    sysPutBe16 (memcpy d (w + lenSz) buf len) w len i = d i := by
  have hL : lenSz = 4 := rfl
  unfold sysPutBe16 memcpy
  rw [Function.update_of_ne (by omega), Function.update_of_ne (by omega), if_neg (by omega)]

theorem stored_putBe16_memcpy {buf : Nat → UInt8} {len : Nat} (hpos : 0 < len) (hmax : len < spscPbufMaxLen)
    (hfit : W % n + len + lenSz ≤ n) :
    Stored n (sysPutBe16 (memcpy d (W % n + lenSz) buf len) (W % n) len) W ((List.range len).map buf) := by
  have hL : lenSz = 4 := rfl
  have hpl : ((List.range len).map buf).length = len := by simp
  refine ⟨?_, ?_, fun i hi => ?_, by omega, by omega, by omega⟩
  · rw [hpl]
    unfold sysPutBe16
    rw [Function.update_of_ne (by omega), Function.update_self]
  · rw [hpl]
    unfold sysPutBe16
    rw [Function.update_self]
  · rw [hpl] at hi
    unfold sysPutBe16 memcpy
    rw [Function.update_of_ne (by omega), Function.update_of_ne (by omega), if_pos (by omega)]
    simp

-- spsc_pbuf_commit after the packet's data was copied to the area spsc_pbuf_alloc
-- gave: the packet joins the end of the queue.
theorem spscPbufCommit_spec (h : Holds pb R W Q) (buf : Nat → UInt8) {len : Nat} (hpos : 0 < len)
    (hmax : len < spscPbufMaxLen) (hroom : W + roundUp4 (len + lenSz) + lenSz ≤ R + pb.len)
    (hfit : W % pb.len + len + lenSz ≤ pb.len) :
    Holds (spscPbufCommit { pb with data := memcpy pb.data (W % pb.len + lenSz) buf len } len) R
      (W + roundUp4 (len + lenSz)) (Q ++ [(List.range len).map buf]) := by
  have hL : lenSz = 4 := rfl
  have hn := h.len_pos
  have hn4 := h.len_dvd
  have hW4 := h.wr_dvd
  have hkb := roundUp4_bounds (len + lenSz)
  have hw4 : W % pb.len % 4 = 0 := by
    rw [Nat.mod_mod_of_dvd W (Nat.dvd_of_mod_eq_zero h.len_dvd), h.wr_dvd]
  have hround : roundUp4 (W % pb.len + len + lenSz) = W % pb.len + roundUp4 (len + lenSz) := by
    rw [Nat.add_assoc, roundUp4_add hw4]
  have hlay : Lay pb.len (sysPutBe16 (memcpy pb.data (W % pb.len + lenSz) buf len) (W % pb.len) len)
      (W + roundUp4 (len + lenSz)) R (Q ++ [(List.range len).map buf]) := by
    refine (h.lay.frame_ahead hn rfl (b := len + lenSz) (by omega) (by omega)
      fun i hi => putBe16_memcpy_outside hi).append ?_
    have hst : Stored pb.len (sysPutBe16 (memcpy pb.data (W % pb.len + lenSz) buf len) (W % pb.len) len) W
        ((List.range len).map buf) := stored_putBe16_memcpy hpos hmax hfit
    have hpl : ((List.range len).map buf).length = len := by simp
    exact .pkt (by omega) hst (by rw [hpl]; exact .nil)
  unfold spscPbufCommit
  rw [if_neg (by omega)]
  dsimp only
  rw [h.wr, hround]
  refine ⟨hn, h.len_dvd, h.len_lt, h.rd, ?_, h.rd_dvd, by omega, by omega, hlay⟩
  dsimp only
  split_ifs with hend
  · rw [← Nat.mod_add_mod, hend, Nat.mod_self]
  · exact (mod_add_eq (by omega)).symm

-- spsc_pbuf_alloc keeps the packets. The area it gives starts a word past the virtual
-- write index, and when it grants the whole length the packet fits before the end of
-- data[] and a word short of the reader's next turn.
theorem spscPbufAlloc_spec (h : Holds pb R W Q) {len : Nat} (hpos : 0 < len) (hmax : len < spscPbufMaxLen) :
    ∃ W', Holds (spscPbufAlloc pb len).1 R W' Q ∧ (spscPbufAlloc pb len).2.2 = W' % pb.len + lenSz ∧
      0 ≤ (spscPbufAlloc pb len).2.1 ∧
      ((spscPbufAlloc pb len).2.1 = len →
        W' + roundUp4 (len + lenSz) + lenSz ≤ R + pb.len ∧ W' % pb.len + len + lenSz ≤ pb.len) := by
  have hL : lenSz = 4 := rfl
  have hF : freeSpaceDistance = 4 := rfl
  have hn := h.len_pos
  have hn4 := h.len_dvd
  have hW4 := h.wr_dvd
  have hr4 := h.mod_dvd
  have hw4 : W % pb.len % 4 = 0 := by
    rw [Nat.mod_mod_of_dvd W (Nat.dvd_of_mod_eq_zero hn4), hW4]
  have hkb := roundUp4_bounds (len + lenSz)
  have hgap := h.gap
  have hwc := h.wr_cases
  have hrn := Nat.mod_lt R hn
  have hwn := Nat.mod_lt W hn
  have hr := h.rd
  have hw := h.wr
  rw [spscPbufAlloc_eq hpos hmax]
  split_ifs with hA hB hC <;> dsimp only
  · -- room at the end, with data before it
    exact ⟨W, h, by rw [hw], by omega, fun _ => by omega⟩
  · -- room at the end of an area the reader has not left
    exact ⟨W, h, by rw [hw], by omega, fun _ => by omega⟩
  · -- padding from wr_idx to the end, and the area at data[0]
    have hmod : (W + (pb.len - W % pb.len)) % pb.len = 0 := add_sub_mod_self hn
    have hold : Lay pb.len (Function.update pb.data pb.wrIdx paddingMark) W R Q :=
      h.lay.frame_ahead hn rfl (b := 1) (by omega) (by omega) fun i hi =>
        Function.update_of_ne (show i ≠ pb.wrIdx by omega) _ _
    have hlay : Lay pb.len (Function.update pb.data pb.wrIdx paddingMark) (W + (pb.len - W % pb.len)) R Q := by
      simpa using hold.append (.pad (by omega) (by omega) (by rw [hw]; exact Function.update_self _ _ _) .nil)
    refine ⟨W + (pb.len - W % pb.len), ⟨hn, hn4, h.len_lt, hr, hmod.symm, h.rd_dvd, pad_dvd hn hn4 hW4,
      by dsimp only; omega, hlay⟩, by rw [hmod, Nat.zero_add], by omega, fun _ => ?_⟩
    rw [hmod]
    omega
  · -- room between wr_idx and the reader
    exact ⟨W, h, by rw [hw], by omega, fun _ => by omega⟩

-- A call as its caller sees it: the status and, for a read into a buffer, the bytes
-- memcpy copies there from the packet spsc_pbuf_claim pointed at.
def SpscOp.call (pb : SpscPbuf) : SpscOp → SpscPbuf × Int × List UInt8
  | .write buf len => let r := spscPbufWrite pb buf len; (r.1, r.2, [])
  | .read hasBuf len =>
    let r := spscPbufRead pb hasBuf len
    (r.1, r.2.1,
      if hasBuf ∧ 0 < r.2.1 then (List.range r.2.1.toNat).map fun i => pb.data (r.2.2 + i) else [])

def callSpsc (pb : SpscPbuf) : List SpscOp → SpscPbuf × List (Int × List UInt8)
  | [] => (pb, [])
  | op :: ops =>
    let r := op.call pb
    let rest := callSpsc r.1 ops
    (rest.1, r.2 :: rest.2)

-- The queue of pending packets the buffer stands for, and what one call may answer.
-- A write appends its packet and returns its length, or fails with -EINVAL for a
-- length it never takes or -ENOMEM, and changes nothing. A read answers from the
-- oldest packet and removes it when it copies it out.
def fifoStep (Q : List (List UInt8)) : SpscOp → Int × List UInt8 → Option (List (List UInt8))
  | .write buf len, (s, _) =>
    if 0 < len ∧ len < spscPbufMaxLen ∧ s = len then some (Q ++ [(List.range len).map buf])
    else if s = (if len = 0 ∨ spscPbufMaxLen ≤ len then -eInval else -eNoMem) then some Q
    else none
  | .read hasBuf len, (s, b) =>
    match Q with
    | [] => if s = 0 then some [] else none
    | p :: rest =>
      if !hasBuf then (if s = p.length then some Q else none)
      else if len < p.length then (if s = -eNoMem then some Q else none)
      else if s = p.length ∧ b = p then some rest else none

def fifoAccepts : List (List UInt8) → List SpscOp → List (Int × List UInt8) → Bool
  | _, [], [] => true
  | Q, op :: ops, o :: outs =>
    match fifoStep Q op o with
    | some Q' => fifoAccepts Q' ops outs
    | none => false
  | _, _, _ => false

theorem spscPbufWrite_spec (h : Holds pb R W Q) (buf : Nat → UInt8) (len : Nat) :
    ∃ W' Q', Holds (spscPbufWrite pb buf len).1 R W' Q' ∧
      fifoStep Q (.write buf len) ((spscPbufWrite pb buf len).2, []) = some Q' := by
  have hI : eInval = 22 := rfl
  have hM : eNoMem = 12 := rfl
  by_cases hmax : spscPbufMaxLen ≤ len
  · -- a length spsc_pbuf_write refuses outright
    have hw : spscPbufWrite pb buf len = (pb, -eInval) := by simp only [spscPbufWrite, if_pos hmax]
    refine ⟨W, Q, hw ▸ h, ?_⟩
    rw [hw]
    simp only [fifoStep, hmax, or_true, if_true]
    rw [if_neg (by omega)]
  by_cases hpos : len = 0
  · -- spsc_pbuf_alloc refuses a zero length
    subst hpos
    have ha : spscPbufAlloc pb 0 = (pb, -eInval, 0) := by
      unfold spscPbufAlloc
      rw [if_pos (Or.inl rfl)]
    have hw : spscPbufWrite pb buf 0 = (pb, -eInval) := by
      unfold spscPbufWrite
      rw [if_neg hmax]
      dsimp only
      rw [ha]
      dsimp only
      rw [if_pos (by decide), if_pos (by decide)]
    refine ⟨W, Q, hw ▸ h, ?_⟩
    rw [hw]
    simp [fifoStep]
  obtain ⟨W1, h1, hoff, hg0, hgl⟩ := spscPbufAlloc_spec h (Nat.pos_of_ne_zero hpos) (by omega)
  have hlen := spscPbufAlloc_len pb len
  unfold spscPbufWrite
  rw [if_neg hmax]
  dsimp only
  generalize spscPbufAlloc pb len = a at *
  by_cases hg : a.2.1 = len
  · -- the whole length was granted: the packet is copied in and committed
    obtain ⟨hroom, hfit⟩ := hgl hg
    rw [← hlen] at hoff hroom hfit
    rw [if_neg (not_not_intro hg), hoff]
    refine ⟨_, _, spscPbufCommit_spec h1 buf (Nat.pos_of_ne_zero hpos) (by omega) hroom hfit, ?_⟩
    have hlt : len < spscPbufMaxLen := by omega
    simp [fifoStep, Nat.pos_of_ne_zero hpos, hlt]
  · -- too little room: -ENOMEM, with the padding alloc may have added
    rw [if_pos hg, if_neg (by omega)]
    refine ⟨W1, Q, h1, ?_⟩
    have hlt : ¬spscPbufMaxLen ≤ len := hmax
    simp [fifoStep, hpos, hlt, hM]

theorem spscPbufRead_spec (h : Holds pb R W Q) (hasBuf : Bool) (len : Nat) :
    ∃ R' Q', Holds ((SpscOp.read hasBuf len).call pb).1 R' W Q' ∧
      fifoStep Q (.read hasBuf len) ((SpscOp.read hasBuf len).call pb).2 = some Q' := by
  obtain ⟨R1, h1, hc⟩ := spscPbufClaim_spec h
  unfold SpscOp.call spscPbufRead
  dsimp only
  cases Q with
  | nil =>
    rw [if_pos hc]
    exact ⟨R1, [], h1, by simp [fifoStep]⟩
  | cons p Q' =>
    obtain ⟨hc, hp⟩ := hc
    have hpl := hp.pos
    rw [hc]
    dsimp only
    rw [if_neg (by omega)]
    cases hasBuf with
    | false => exact ⟨R1, p :: Q', h1, by simp [fifoStep]⟩
    | true =>
      by_cases hl : len < p.length
      · rw [if_neg (by decide), if_pos (by exact_mod_cast hl)]
        refine ⟨R1, p :: Q', h1, ?_⟩
        simp [fifoStep, hl]
      · rw [if_neg (by decide), if_neg (by exact_mod_cast hl)]
        have hp1 : Stored (spscPbufClaim pb).1.len (spscPbufClaim pb).1.data R1 p := by
          rw [spscPbufClaim_len, spscPbufClaim_data]
          exact hp
        obtain ⟨R2, h2⟩ := spscPbufFree_spec h1 hp1
        refine ⟨R2, Q', h2, ?_⟩
        have hbytes : ((List.range p.length).map fun i => pb.data (R1 % pb.len + lenSz + i)) = p := by
          apply List.ext_getElem (by simp)
          intro i h1 h2
          simp only [List.getElem_map, List.getElem_range]
          exact hp.body i h2
        simp only [fifoStep, Bool.not_true, hl, Int.toNat_natCast, hbytes]
        simp

theorem Holds.call (h : Holds pb R W Q) (op : SpscOp) :
    ∃ R' W' Q', Holds (op.call pb).1 R' W' Q' ∧ fifoStep Q op (op.call pb).2 = some Q' := by
  cases op with
  | write buf len =>
    obtain ⟨W', Q', h', hs⟩ := spscPbufWrite_spec h buf len
    exact ⟨R, W', Q', h', hs⟩
  | read hasBuf len =>
    obtain ⟨R', Q', h', hs⟩ := spscPbufRead_spec h hasBuf len
    exact ⟨R', W, Q', h', hs⟩

-- Every run of calls answers as the queue of pending packets does.
theorem Holds.fifoAccepts (h : Holds pb R W Q) (ops : List SpscOp) : fifoAccepts Q ops (callSpsc pb ops).2 = true := by
  induction ops generalizing pb R W Q with
  | nil => rfl
  | cons op ops ih =>
    obtain ⟨R', W', Q', h', hs⟩ := h.call op
    simp only [callSpsc, Zephyr.Spsc.fifoAccepts, hs]
    exact ih h'

-- spsc_pbuf_init with the size its assertion takes, a data area a multiple of four
-- and below 64 KiB: an empty queue.
theorem holds_spscPbufInit {blen : Nat} (mem : Nat → UInt8) (hb : 20 < blen) (h4 : blen % 4 = 0)
    (h16 : blen < 2 ^ 16 + 16) : Holds (spscPbufInit blen mem) 0 0 [] := by
  have hL : lenSz = 4 := rfl
  refine ⟨?_, ?_, ?_, ?_, ?_, rfl, rfl, ?_, .nil⟩ <;> simp only [spscPbufInit, getLen, Nat.zero_mod] <;> omega

theorem spsc_pbuf_refines_fifo {blen : Nat} (mem : Nat → UInt8) (hb : 20 < blen) (h4 : blen % 4 = 0)
    (h16 : blen < 2 ^ 16 + 16) (ops : List SpscOp) :
    fifoAccepts [] ops (callSpsc (spscPbufInit blen mem) ops).2 = true :=
  (holds_spscPbufInit mem hb h4 h16).fifoAccepts ops

theorem spsc_pbuf_refines_fifo_blen64 :
    20 < 64 ∧ 64 % 4 = 0 ∧ 64 < 2 ^ 16 + 16 ∧
      fifoAccepts [] [.write (fun i => i.toUInt8) 30, .read true 40, .write (fun _ => 7) 20, .read true 40]
        (callSpsc (spscPbufInit 64 fun _ => 0)
          [.write (fun i => i.toUInt8) 30, .read true 40, .write (fun _ => 7) 20, .read true 40]).2 = true :=
  ⟨by decide, by decide, by decide, spsc_pbuf_refines_fifo _ (by decide) (by decide) (by decide) _⟩

-- The second packet does not fit behind the first: it goes to data[0] after a padding mark.
example : (callSpsc (spscPbufInit 64 fun _ => 0)
    [.write (fun _ => 1) 30, .read true 40, .write (fun _ => 7) 20, .read true 40]).1.rdIdx = 24 := by
  decide

end Zephyr.Spsc
