import Zephyr.Cbprintf.Package
import Zephyr.Lib.Wp

namespace Zephyr.Cbprintf

open Zephyr.Lib

theorem leBytes_length (v n : Nat) : (leBytes v n).length = n := by
  induction n generalizing v with
  | zero => rfl
  | succ n ih => simp [leBytes, ih]

theorem Buf.mem_store_writes (b : Buf) (off : Nat) (bytes : List UInt8) (w : Nat) :
    w ∈ (b.store off bytes).writes ↔ w ∈ b.writes ∨ off ≤ w ∧ w < off + bytes.length := by
  induction bytes generalizing b off with
  | nil =>
    simp only [Buf.store, List.length_nil, Nat.add_zero]
    exact ⟨Or.inl, fun h => h.resolve_right (by omega)⟩
  | cons x xs ih =>
    simp only [Buf.store, ih, List.mem_cons, List.length_cons]
    grind

section Steps

variable (c : Cfg) {α : Type} {Q : α → Pkg → Prop} {E : Pkg → Prop} {p : Pkg}

@[simp] theorem wp_bufOffset {Q : Nat → Pkg → Prop} : Wp (bufOffset c) Q E p = Q (p.buf - c.base) p := rfl

@[simp] theorem wp_vaArg {Q : Nat → Pkg → Prop} :
    Wp vaArg Q E p = Q (p.args.headD 0) { p with args := p.args.tail } := by
  rcases p with ⟨_, _, _, _, _, _, _, _, _, _, _ | ⟨a, rest⟩⟩ <;> rfl

@[simp] theorem wp_storeHere (bytes : List UInt8) {Q : Unit → Pkg → Prop} :
    Wp (storeHere c bytes) Q E p =
      Q () (if c.packaged.isSome then { p with out := p.out.store (p.buf - c.base) bytes } else p) := by
  unfold storeHere
  split <;> simp_all

-- The scan's own effect is on argIdx only: what the argument stores keep, the
-- whole scan keeps.
theorem scan_triple {I J : Pkg → Prop}
    (hArg : ∀ align size isStr, (isStr = true → size = c.ptrSize) →
      Triple I (storeArg c align size isStr) (fun _ => I) J)
    (hFloat : ∀ ty, Triple I (storeFloat c ty) (fun _ => I) J)
    (hIdx : ∀ p a, I p → I { p with argIdx := a }) (fmt : List UInt8) :
    ∀ before parsing align size, Triple I (scan c fmt before parsing align size) (fun _ => I) J := by
  induction fmt with
  | nil => intro _ _ _ _ p hp; exact hp
  | cons ch rest ih =>
    intro before parsing align size p hp
    simp only [scan, wp_bind, wp_modify, wp_pure, wp_ite]
    -- every branch ends in the scan of the rest, after a bookkeeping step or an argument
    repeat' refine ite_prop_iff_and.mpr ⟨fun _ => ?_, fun _ => ?_⟩
    all_goals first
      | exact hp
      | exact ih _ _ _ _ _ hp
      | exact ih _ _ _ _ _ (hIdx _ _ hp)
      | exact (hArg _ _ _ (by simp)).wp hp (fun _ s hs => ih _ _ _ _ s hs) fun _ h => h
      | exact (hFloat _).wp hp (fun _ s hs => ih _ _ _ _ s hs) fun _ h => h

end Steps

-- Without a buffer (packaged NULL) the call only counts: the package is never written.
section SizeOnly

variable {c : Cfg} (hc : c.packaged = none) (o : Buf)
include hc

theorem processString_keeps_out (s : Nat) :
    Triple (fun p => p.out = o) (processString c s) (fun _ p => p.out = o) (fun p => p.out = o) := by
  intro p hp
  simp only [processString, wp_bind, wp_storeHere, hc, Option.isSome_none, Bool.false_eq_true, ↓reduceIte,
    wp_get, wp_set, wp_bufOffset, wp_ite, wp_throw, wp_modify, hp, ite_self]

theorem storeArg_keeps_out (align size : Nat) (isStr : Bool) :
    Triple (fun p => p.out = o) (storeArg c align size isStr) (fun _ p => p.out = o) (fun p => p.out = o) := by
  intro p hp
  simp only [storeArg, reserve, wp_bind, wp_storeHere, hc, Option.isSome_none, Bool.false_eq_true, ↓reduceIte,
    Bool.false_and, wp_get, wp_bufOffset, wp_vaArg, wp_ite, wp_throw, wp_modify, wp_pure, hp, ite_self]
  split
  · exact processString_keeps_out hc o _ _ rfl
  · trivial

theorem storeFloat_keeps_out (ty : ArgType) :
    Triple (fun p => p.out = o) (storeFloat c ty) (fun _ p => p.out = o) (fun p => p.out = o) := by
  intro p hp
  simp only [storeFloat, reserve, wp_bind, wp_storeHere, hc, Option.isSome_none, Bool.false_eq_true, ↓reduceIte,
    Bool.false_and, wp_get, wp_bufOffset, wp_vaArg, wp_modify, wp_pure, hp]

theorem finish_keeps_out :
    Triple (fun p => p.out = o) (finish c) (fun _ p => p.out = o) (fun p => p.out = o) := by
  intro p hp
  simp only [finish, wp_bind, hc, Option.isNone_none, ↓reduceIte, wp_bufOffset, wp_get, wp_ite, wp_throw,
    wp_pure, hp, ite_self]

end SizeOnly

theorem cbvprintf_package_size_only_writes_nothing (c : Cfg) (hc : c.packaged = none) (len fmt : Nat)
    (args : List Nat) : (cbvprintfPackage c len fmt args).2.writes = [] := by
  have hScan := scan_triple c (fun a s i _ => storeArg_keeps_out hc ⟨fun _ => 0, []⟩ a s i)
    (storeFloat_keeps_out hc _) (fun _ _ h => h) (c.str fmt) [] false (c.abi.align .ptr) c.ptrSize
  unfold cbvprintfPackage
  dsimp only
  -- the same run ends in the package whether it returns or fails
  split <;> rename_i hrun <;> refine Wp.run_snd (R := fun p => p.out.writes = []) ?_ hrun
  all_goals
    simp only [wp_bind, hc, Cfg.base, Option.getD_none, Nat.zero_mod, ne_eq, not_true_eq_false, ↓reduceIte,
      wp_modify, Option.isNone_none, Option.isSome_none, Bool.false_and, Bool.false_eq_true, wp_bufOffset]
    refine (processString_keeps_out hc _ fmt).wp rfl (fun _ s hs => ?_) fun _ h => congrArg Buf.writes h
    refine hScan.wp hs (fun _ s hs => ?_) fun _ h => congrArg Buf.writes h
    exact (finish_keeps_out hc _).wp hs (fun _ _ h => congrArg Buf.writes h) fun _ h => congrArg Buf.writes h

theorem strPtrIdx_mul_le (off k : Nat) : off / k % 256 * k ≤ off :=
  calc off / k % 256 * k ≤ off / k * k := Nat.mul_le_mul_right _ (Nat.mod_le _ _)
    _ ≤ off := Nat.div_mul_le_self _ _

theorem ro_bit_ne_zero (n : Nat) : (n ||| 128) &&& 128 ≠ 0 := by grind

-- With a buffer, what a call has stored so far: the length it was given, the
-- offsets written, and the string pointers recorded, each of which lies in the
-- buffer or is a read-only one that the read-write pass skips.
structure WritesBelow (c : Cfg) (len : Nat) (p : Pkg) : Prop where
  len_eq : p.len = len
  writes : ∀ w ∈ p.out.writes, w < len + if c.rwsPosEn then 1 else 0
  ptrs : ∀ pos ∈ p.strPtrPos, pos &&& 128 ≠ 0 ∧ p.sRoCnt ≠ 0 ∨ pos * c.intSize + c.ptrSize ≤ len

-- and, between two steps, the position in the buffer
def Fits (c : Cfg) (len : Nat) (p : Pkg) : Prop := WritesBelow c len p ∧ p.buf - c.base ≤ len

section Storing

variable {c : Cfg} {len : Nat} {p : Pkg}

-- The fields other than len, out, strPtrPos and sRoCnt do not matter.
theorem WritesBelow.frame (h : WritesBelow c len p) {q : Pkg} (hl : q.len = p.len) (ho : q.out = p.out)
    (hp : q.strPtrPos = p.strPtrPos) (hr : q.sRoCnt = p.sRoCnt) : WritesBelow c len q :=
  ⟨hl ▸ h.len_eq, ho ▸ h.writes, hp ▸ hr ▸ h.ptrs⟩

theorem WritesBelow.store (h : WritesBelow c len p) (off : Nat) (bytes : List UInt8)
    (hb : off + bytes.length ≤ len + if c.rwsPosEn then 1 else 0) :
    WritesBelow c len { p with out := p.out.store off bytes } := by
  refine ⟨h.len_eq, fun w hw => ?_, h.ptrs⟩
  rcases (Buf.mem_store_writes _ _ _ _).mp hw with hw | hw
  · exact h.writes w hw
  · omega

variable (hs : c.packaged.isSome)
include hs

theorem processString_fits (s : Nat) :
    Triple (fun p => WritesBelow c len p ∧ p.buf - c.base + c.ptrSize ≤ len) (processString c s)
      (fun _ => Fits c len) (WritesBelow c len) := by
  rintro p ⟨hw, hb⟩
  have hw' := hw.store (p.buf - c.base) (leBytes s c.ptrSize) (by rw [leBytes_length]; omega)
  have hbuf : p.buf + c.ptrSize - c.base ≤ len := by omega
  have hidx := strPtrIdx_mul_le (p.buf - c.base) c.intSize
  simp only [processString, wp_bind, wp_storeHere, hs, ↓reduceIte, wp_get, wp_set, wp_bufOffset, wp_ite, wp_throw,
    wp_modify]
  generalize (if p.frosCnt > 0 then true else c.inRodata s) = isRo
  repeat' refine ite_prop_iff_and.mpr ⟨fun _ => ?_, fun _ => ?_⟩
  -- the checks that fail, the string that is not recorded, and the one that is
  · exact hw'.frame rfl rfl rfl rfl
  · exact hw'.frame rfl rfl rfl rfl
  · refine ⟨⟨hw.len_eq, hw'.writes, fun pos hpos => ?_⟩, hbuf⟩
    rcases List.mem_append.mp hpos with hpos | hpos
    · refine (hw.ptrs pos hpos).imp (fun h => ⟨h.1, ?_⟩) id
      cases isRo <;> simp [h.2]
    · cases isRo
      · simp only [List.mem_singleton] at hpos
        subst hpos
        right
        simp only [Bool.false_eq_true, ↓reduceIte]
        omega
      · simp only [List.mem_singleton, ↓reduceIte] at hpos
        subst hpos
        exact Or.inl ⟨ro_bit_ne_zero _, by simp⟩
  · exact ⟨hw'.frame rfl rfl rfl rfl, hbuf⟩

theorem storeArg_fits (align size : Nat) (isStr : Bool) (hstr : isStr = true → size = c.ptrSize) :
    Triple (Fits c len) (storeArg c align size isStr) (fun _ => Fits c len) (WritesBelow c len) := by
  rintro p ⟨hw, hb⟩
  simp only [storeArg, reserve, wp_bind, wp_modify, wp_bufOffset, wp_get, hs, Bool.true_and, wp_ite, wp_throw,
    wp_vaArg, wp_storeHere, ↓reduceIte, wp_pure, decide_eq_true_eq]
  have hl := hw.len_eq
  -- no room; then a string, an integer, or a size the call does not take
  refine ite_prop_iff_and.mpr ⟨fun _ => hw.frame rfl rfl rfl rfl, fun hfit => ?_⟩
  refine ite_prop_iff_and.mpr ⟨fun hstr' => ?_, fun _ => ite_prop_iff_and.mpr ⟨fun _ => ?_, fun _ => ?_⟩⟩
  · refine processString_fits hs _ _ ⟨hw.frame rfl rfl rfl rfl, ?_⟩
    dsimp only
    rw [← hstr hstr']
    omega
  · refine ⟨(hw.store (roundUp p.buf align - c.base) (leBytes (p.args.headD 0) size) ?_).frame
      rfl rfl rfl rfl, ?_⟩
    · rw [leBytes_length]
      omega
    · dsimp only
      omega
  · exact hw.frame rfl rfl rfl rfl

theorem storeFloat_fits (ty : ArgType) :
    Triple (Fits c len) (storeFloat c ty) (fun _ => Fits c len) (WritesBelow c len) := by
  rintro p ⟨hw, hb⟩
  simp only [storeFloat, reserve, wp_bind, wp_modify, wp_bufOffset, wp_get, hs, Bool.true_and, wp_ite, wp_throw,
    wp_vaArg, wp_storeHere, ↓reduceIte, wp_pure, decide_eq_true_eq]
  have hl := hw.len_eq
  refine ite_prop_iff_and.mpr ⟨fun _ => hw.frame rfl rfl rfl rfl, fun hfit => ?_⟩
  refine ⟨(hw.store (roundUp p.buf (c.abi.align ty) - c.base) (leBytes (p.args.headD 0) (c.abi.size ty)) ?_).frame
    rfl rfl rfl rfl, ?_⟩
  · rw [leBytes_length]
    omega
  · dsimp only
    omega

theorem storeRoPositions_fits (r : Nat) (l : List Nat) :
    Triple (fun q => Fits c len q ∧ q.sRoCnt = r) (storeRoPositions c l) (fun _ q => Fits c len q ∧ q.sRoCnt = r)
      (WritesBelow c len) := by
  induction l with
  | nil => intro q hq; exact hq
  | cons pos rest ih =>
    rintro q ⟨⟨hw, hb⟩, hr⟩
    simp only [storeRoPositions, wp_bind, wp_bufOffset, wp_get, wp_ite, wp_throw, wp_storeHere, hs, ↓reduceIte,
      wp_modify]
    have hl := hw.len_eq
    refine ite_prop_iff_and.mpr ⟨fun _ => ite_prop_iff_and.mpr ⟨fun _ => hw, fun hfit => ?_⟩,
      fun _ => ih q ⟨⟨hw, hb⟩, hr⟩⟩
    refine ih _ ⟨⟨(hw.store (q.buf - c.base) [(pos &&& 127).toUInt8] ?_).frame
      rfl rfl rfl rfl, ?_⟩, hr⟩
    · simp only [List.length_singleton]
      omega
    · dsimp only
      omega

theorem storeRwStrings_fits (r : Nat) (l : List (Nat × Nat))
    (hl : ∀ e ∈ l, e.1 &&& 128 ≠ 0 ∧ r ≠ 0 ∨ e.1 * c.intSize + c.ptrSize ≤ len) :
    Triple (fun q => Fits c len q ∧ q.sRoCnt = r) (storeRwStrings c l) (fun _ => Fits c len)
      (WritesBelow c len) := by
  induction l with
  | nil => intro q hq; exact hq.1
  | cons e rest ih =>
    rintro q ⟨⟨hw, hb⟩, hr⟩
    obtain ⟨pos, arg⟩ := e
    simp only [storeRwStrings, wp_bind, wp_bufOffset, wp_get, wp_ite, wp_throw, wp_storeHere, hs, ↓reduceIte,
      wp_modify, wp_pure]
    have hl0 := hl (pos, arg) List.mem_cons_self
    have hrest : ∀ e ∈ rest, e.1 &&& 128 ≠ 0 ∧ r ≠ 0 ∨ e.1 * c.intSize + c.ptrSize ≤ len :=
      fun e he => hl e (List.mem_cons_of_mem _ he)
    have hlen := hw.len_eq
    refine ite_prop_iff_and.mpr ⟨fun _ => ih hrest q ⟨⟨hw, hb⟩, hr⟩, fun hkeep => ?_⟩
    refine ite_prop_iff_and.mpr ⟨fun hpos => ?_, fun _ => ?_⟩
    · -- the argument index goes in before the check, the position after it
      have hw1 := hw.store (q.buf - c.base) [arg.toUInt8]
        (by simp only [List.length_singleton, hpos, ↓reduceIte]; omega)
      refine ite_prop_iff_and.mpr ⟨fun _ => hw1.frame rfl rfl rfl rfl, fun hfit => ?_⟩
      refine ih hrest _ ⟨⟨((hw1.store (q.buf + 1 - c.base) [pos.toUInt8] ?_).store (q.buf + 1 + 1 - c.base) []
        ?_).frame rfl rfl rfl rfl, ?_⟩, hr⟩
      · simp only [List.length_singleton]
        omega
      · simp only [List.length_nil]
        omega
      · dsimp only
        omega
    · -- the string itself, once its pointer in the package is cleared
      have hptr : pos * c.intSize + c.ptrSize ≤ len := hl0.resolve_left fun h => hkeep ⟨hr ▸ h.2, h.1⟩
      have hw1 := hw.store (pos * c.intSize) (leBytes 0 c.ptrSize)
        (by rw [leBytes_length]; omega)
      refine ite_prop_iff_and.mpr ⟨fun _ => hw1.frame rfl rfl rfl rfl, fun hfit => ?_⟩
      refine ih hrest _ ⟨⟨((hw1.store (q.buf - c.base) [pos.toUInt8] ?_).store (q.buf + 1 - c.base)
        (c.str (leValue (q.out.load (pos * c.intSize) c.ptrSize)) ++ [0]) ?_).frame rfl rfl rfl rfl, ?_⟩, hr⟩
      · simp only [List.length_singleton]
        omega
      · simp only [List.length_append, List.length_singleton]
        omega
      · dsimp only
        omega

theorem finish_fits (hp : c.ptrSize ≤ len) (h4 : 4 ≤ len) :
    Triple (Fits c len) (finish c) (fun _ => WritesBelow c len) (WritesBelow c len) := by
  rintro p ⟨hw, hb⟩
  have hn : c.packaged.isNone = false := by
    cases h : c.packaged
    · simp [h] at hs
    · rfl
  simp only [finish, wp_bind, wp_bufOffset, wp_get, wp_ite, wp_throw, hn, Bool.false_eq_true, ↓reduceIte, wp_set,
    wp_pure]
  generalize hdesc : [((p.buf - c.base) / c.intSize).toUInt8, (if c.rwsPosEn = true then 0 else p.sRwCnt).toUInt8,
    p.sRoCnt.toUInt8, (if c.rwsPosEn = true then p.sRwCnt else 0).toUInt8] = desc
  have hd : desc.length = 4 := by rw [← hdesc]; rfl
  -- the header over the cleared first word
  have hq : Fits c len { p with out := (p.out.store 0 (leBytes 0 c.ptrSize)).store 0 desc } :=
    ⟨(hw.store 0 _ (by rw [leBytes_length]; omega)).store 0 desc (by omega), hb⟩
  have hzip : ∀ e ∈ p.strPtrPos.zip p.strPtrArg, e.1 &&& 128 ≠ 0 ∧ p.sRoCnt ≠ 0 ∨
      e.1 * c.intSize + c.ptrSize ≤ len :=
    fun e he => hw.ptrs e.1 (List.of_mem_zip he).1
  have hrw := storeRwStrings_fits hs p.sRoCnt _ hzip
  refine ite_prop_iff_and.mpr ⟨fun _ => hw, fun _ => ite_prop_iff_and.mpr ⟨fun _ => ?_, fun _ => ?_⟩⟩
  · exact (storeRoPositions_fits hs p.sRoCnt p.strPtrPos).wp ⟨hq, rfl⟩
      (fun _ s h => (hrw s h).mono (fun _ _ h => h.1) fun _ h => h) fun _ h => h
  · exact (hrw _ ⟨hq, rfl⟩).mono (fun _ _ h => h.1) fun _ h => h

end Storing

-- Every byte cbvprintf_package stores lies in the len bytes it was given, but for
-- the argument index of a read-write string with CBPRINTF_PACKAGE_ADD_RW_STR_POS,
-- which goes in before the room for it is checked and may land at packaged[len].
theorem cbvprintf_package_writes_below (c : Cfg) (h4 : 4 ≤ c.abi.hdrSize) (len fmt : Nat) (args : List Nat) :
    ∀ w ∈ (cbvprintfPackage c len fmt args).2.writes, w < len + if c.rwsPosEn then 1 else 0 := by
  cases hc : c.packaged with
  | none => simp [cbvprintf_package_size_only_writes_nothing c hc]
  | some b =>
    have hs : c.packaged.isSome := by simp [hc]
    have hScan : Triple (Fits c len) (scan c (c.str fmt) [] false (c.abi.align .ptr) c.ptrSize)
        (fun _ => Fits c len) (WritesBelow c len) :=
      scan_triple c (fun a s i h => storeArg_fits hs a s i h) (storeFloat_fits hs)
        (fun _ _ h => ⟨h.1.frame rfl rfl rfl rfl, h.2⟩) _ _ _ _ _
    have h0 : WritesBelow c len ⟨c.base, len, ⟨fun _ => 0, []⟩, [], [], 0, 0, 0, -1,
        1 + ((c.flags >>> 3) &&& 7 : Nat), args⟩ :=
      ⟨rfl, fun _ h => absurd h List.not_mem_nil, fun _ h => absurd h List.not_mem_nil⟩
    unfold cbvprintfPackage
    dsimp only
    split <;> rename_i hrun <;> refine (Wp.run_snd (R := WritesBelow c len) ?_ hrun).writes
    all_goals
      simp only [wp_bind, ne_eq, wp_ite, wp_throw, wp_modify, Option.isNone, hc, Bool.false_eq_true,
        ↓reduceIte, wp_bufOffset, Option.isSome_some, Bool.true_and, decide_eq_true_eq]
      refine ite_prop_iff_and.mpr ⟨fun _ => h0, fun _ => ite_prop_iff_and.mpr
        ⟨fun _ => h0.frame rfl rfl rfl rfl, fun hfit => ?_⟩⟩
      -- the header and the format string's pointer fit
      have hroom : c.abi.hdrSize + c.ptrSize ≤ len := by omega
      refine (processString_fits hs fmt).wp ⟨h0.frame rfl rfl rfl rfl, by dsimp only; omega⟩
        (fun _ s h => ?_) fun _ h => h
      exact hScan.wp h (fun _ s h => finish_fits hs (by omega) (by omega) s h) fun _ h => h


end Zephyr.Cbprintf
