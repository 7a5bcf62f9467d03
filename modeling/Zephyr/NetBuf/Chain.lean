import Zephyr.NetBuf.Buf

namespace Zephyr.NetBuf

open Zephyr.Lib

/-! net_buf_append_bytes -/

-- net_buf_add_mem on a fragment.
def Frag.addMem (frag : Frag) (mem : List UInt8) : Frag :=
  { frag with data := frag.data ++ mem, tailroom := frag.tailroom - mem.length }

-- The loop of net_buf_append_bytes. `frag` is the fragment being filled, always
-- the last one, and `chain` the fragments before it; `alloc k` is what the k-th
-- allocation returns, NULL or a new fragment. Each turn spends one unit of fuel.
-- count fits its uint16_t: a tailroom is at most a buffer's uint16_t size.
def appendBytesLoop (value : List UInt8) (alloc : Nat → Option Frag) :
    Nat → List Frag → Frag → Nat → Nat → Nat → Option (List Frag × Nat)
  | 0, _, _, _, _, _ => none
  | fuel + 1, chain, frag, len, addedLen, nAlloc =>
    let count := min len frag.tailroom
    let frag := frag.addMem ((value.drop addedLen).take count)
    let len := len - count
    let addedLen := addedLen + count
    if len = 0 then some (chain ++ [frag], addedLen)
    else
      match alloc nAlloc with
      | none => some (chain ++ [frag], addedLen)
      | some next => appendBytesLoop value alloc fuel (chain ++ [frag]) next len addedLen (nAlloc + 1)

-- net_buf_append_bytes; `none` for a chain with no fragment, which the code
-- assumes away, or for running out of fuel.
def netBufAppendBytes (fuel : Nat) (buf : List Frag) (len : Nat) (value : List UInt8)
    (alloc : Nat → Option Frag) : Option (List Frag × Nat) :=
  match buf.getLast? with
  | none => none
  | some frag => appendBytesLoop value alloc fuel buf.dropLast frag len 0 0

section Append

variable (value : List UInt8) (alloc : Nat → Option Frag)
  (halloc : ∀ k f, alloc k = some f → f.data = [] ∧ 0 < f.tailroom)
include halloc

-- From the fragment being filled: the bytes go into it and then into new
-- fragments in allocation order, each filled before the next is taken.
theorem appendBytesLoop_spec :
    ∀ fuel chain frag len added k, added + len ≤ value.length →
      (len < fuel ∨ (0 < frag.tailroom ∧ 0 < len ∧ len ≤ fuel)) →
      ∃ frag' news r, appendBytesLoop value alloc fuel chain frag len added k = some (chain ++ frag' :: news, r) ∧
        added ≤ r ∧ r ≤ added + len ∧
        chainData (frag' :: news) = frag.data ++ (value.drop added).take (r - added) ∧
        frag'.id = frag.id ∧ frag'.data = frag.data ++ (value.drop added).take (min len frag.tailroom) ∧
        (r = added + len ∨ alloc (k + news.length) = none) ∧
        (∀ j (hj : j < news.length), ∃ f, alloc (k + j) = some f ∧ (news.get ⟨j, hj⟩).id = f.id) ∧
        ∀ g ∈ (frag' :: news).dropLast, g.tailroom = 0 := by
  intro fuel
  induction fuel with
  | zero => intro chain frag len added k _ hf; omega
  | succ fuel ih =>
    intro chain frag len added k hv hf
    simp only [appendBytesLoop]
    generalize hc : min len frag.tailroom = c
    let frag₁ := frag.addMem ((value.drop added).take c)
    by_cases hlen : len - c = 0
    · refine ⟨frag₁, [], added + c, by simp [hlen, frag₁], by omega, by omega, ?_, rfl, rfl, .inl (by omega),
        by simp, by simp⟩
      simp [frag₁, Frag.addMem]
    · rw [if_neg hlen]
      cases hk : alloc k with
      | none =>
        exact ⟨frag₁, [], added + c, rfl, by omega, by omega, by simp [frag₁, Frag.addMem], rfl, rfl,
          .inr (by simpa using hk), by simp, by simp⟩
      | some next =>
        obtain ⟨hnd, hnt⟩ := halloc k next hk
        obtain ⟨frag'', news, r, hr, h1, h2, hdata, hid, -, hend, hnews, hfull⟩ :=
          ih (chain ++ [frag.addMem ((value.drop added).take c)]) next (len - c) (added + c) (k + 1) (by omega)
            (.inr ⟨hnt, by omega, by omega⟩)
        refine ⟨frag₁, frag'' :: news, r, by simpa using hr, by omega, by omega, ?_, rfl, rfl, ?_, ?_, ?_⟩
        · -- this fragment's bytes, then those of the rest
          have hsplit : r - added = c + (r - (added + c)) := by omega
          rw [chainData_cons, hdata, hnd, List.nil_append, hsplit, List.take_add, List.drop_drop,
            ← List.append_assoc]
          rfl
        · rcases hend with h | h
          · exact .inl (by omega)
          · exact .inr (by simpa [Nat.add_assoc, Nat.add_comm 1] using h)
        · intro j hj
          cases j with
          | zero => exact ⟨next, by simpa using hk, by simpa using hid⟩
          | succ j =>
            obtain ⟨f, hf, hfid⟩ := hnews j (by simpa using hj)
            exact ⟨f, by simpa [Nat.add_assoc, Nat.add_comm 1] using hf, by simpa using hfid⟩
        · intro g hg
          rw [List.dropLast_cons_cons, List.mem_cons] at hg
          rcases hg with rfl | hg
          · simp only [frag₁, Frag.addMem, List.length_take, List.length_drop]
            omega
          · exact hfull g hg

-- net_buf_append_bytes from the last fragment of a chain, with fuel for every turn.
theorem netBufAppendBytes_spec {buf : List Frag} (hbuf : buf ≠ []) {len fuel : Nat} (hv : len ≤ value.length)
    (hfuel : len < fuel) :
    ∃ last' news r, netBufAppendBytes fuel buf len value alloc = some (buf.dropLast ++ last' :: news, r) ∧
      r ≤ len ∧ chainData (buf.dropLast ++ last' :: news) = chainData buf ++ value.take r ∧
      last'.id = (buf.getLast hbuf).id ∧
      last'.data = (buf.getLast hbuf).data ++ value.take (min len (buf.getLast hbuf).tailroom) ∧
      (r = len ∨ alloc news.length = none) ∧
      (∀ j (hj : j < news.length), ∃ f, alloc j = some f ∧ (news.get ⟨j, hj⟩).id = f.id) ∧
      ∀ g ∈ (last' :: news).dropLast, g.tailroom = 0 := by
  obtain ⟨last', news, r, hr, -, h2, hdata, hid, hlast, hend, hnews, hfull⟩ :=
    appendBytesLoop_spec value alloc halloc fuel buf.dropLast (buf.getLast hbuf) len 0 0 (by simpa using hv)
      (.inl hfuel)
  refine ⟨last', news, r, ?_, by omega, ?_, hid, by simpa using hlast, by simpa using hend,
    by simpa using hnews, hfull⟩
  · rw [netBufAppendBytes, List.getLast?_eq_some_getLast hbuf]
    exact hr
  · conv_rhs => rw [← List.dropLast_concat_getLast hbuf]
    rw [chainData_append, chainData_append, hdata, chainData_cons, chainData_nil, List.append_nil,
      List.drop_zero, Nat.sub_zero, List.append_assoc]

end Append

/-! net_buf_unref -/

-- atomic_dec on an atomic_t of w bits.
def atomicDec (w x : Nat) : Nat := (x + 2 ^ w - 1) % 2 ^ w

-- The ref byte, the least significant byte of ref_word.
def Frag.ref (frag : Frag) : Nat := frag.refWord % 256

-- net_buf_unref: the chain left from the fragment it stopped at, and the ids of
-- the fragments it freed, in order.
def netBufUnref (w : Nat) : List Frag → List Frag × List Nat
  | [] => ([], [])
  | buf :: frags =>
    let oldRef := buf.refWord % 256
    let buf := { buf with refWord := atomicDec w buf.refWord }
    if oldRef = 0 then (buf :: frags, [])
    else if oldRef ≠ 1 then (buf :: frags, [])
    else
      let r := netBufUnref w frags
      (r.1, buf.id :: r.2)

theorem atomicDec_of_pos {w x : Nat} (h0 : 0 < x) (hx : x < 2 ^ w) : atomicDec w x = x - 1 := by
  unfold atomicDec
  rw [show x + 2 ^ w - 1 = x - 1 + 2 ^ w by omega, Nat.add_mod_right, Nat.mod_eq_of_lt (by omega)]

-- A drop of a ref byte that is not 0 leaves the other bytes of ref_word alone.
theorem ref_sub_one {x : Nat} (h : 0 < x % 256) : (x - 1) % 256 = x % 256 - 1 ∧ (x - 1) / 256 = x / 256 := by
  omega

-- Fragments whose count was 1 are freed one after the other.
theorem netBufUnref_append (w : Nat) {pre : List Frag} (hpre : ∀ g ∈ pre, g.ref = 1) (rest : List Frag) :
    netBufUnref w (pre ++ rest) = ((netBufUnref w rest).1, pre.map Frag.id ++ (netBufUnref w rest).2) := by
  induction pre with
  | nil => rfl
  | cons g pre ih =>
    have hg : g.refWord % 256 = 1 := hpre g (by simp)
    rw [List.cons_append, netBufUnref, ih fun g' hg' => hpre g' (by simp [hg'])]
    simp [hg]

-- The first fragment still referenced afterwards stops the walk with its count dropped.
theorem netBufUnref_stop (w : Nat) {f : Frag} (hf : 2 ≤ f.ref) (hw : f.refWord < 2 ^ w) (rest : List Frag) :
    netBufUnref w (f :: rest) = ({ f with refWord := f.refWord - 1 } :: rest, []) := by
  have h0 : f.refWord % 256 ≠ 0 := by unfold Frag.ref at hf; omega
  have h1 : f.refWord % 256 ≠ 1 := by unfold Frag.ref at hf; omega
  rw [netBufUnref, if_neg h0, if_pos h1, atomicDec_of_pos (by omega) hw]

-- The fragment routines of net_buf over every chain, as operations on the chain's bytes S.
theorem net_buf_chain_byte_sequence :
    (∀ (dst : Nat → UInt8) (dstLen : Nat) (src : List Frag) (offset len : Nat),
      (netBufLinearize dst dstLen src offset len).2 = min (min len dstLen) ((chainData src).length - offset) ∧
      (∀ i < (netBufLinearize dst dstLen src offset len).2,
        some ((netBufLinearize dst dstLen src offset len).1 i) = (chainData src)[offset + i]?) ∧
      ∀ i, (netBufLinearize dst dstLen src offset len).2 ≤ i →
        (netBufLinearize dst dstLen src offset len).1 i = dst i) ∧
    (∀ (offset : Nat) (data : Option (Nat → UInt8)) (len : Nat), netBufDataMatch [] offset data len = 0) ∧
    (∀ (buf : List Frag) (offset len : Nat), netBufDataMatch buf offset none len = 0) ∧
    (∀ (buf : List Frag) (offset : Nat) (dptr : Nat → UInt8) (len : Nat), buf ≠ [] →
      netBufDataMatch buf offset (some dptr) len = prefixLen (dataList dptr 0 len) ((chainData buf).drop offset)) ∧
    (∀ (value : List UInt8) (alloc : Nat → Option Frag), (∀ k f, alloc k = some f → f.data = [] ∧ 0 < f.tailroom) →
      ∀ (buf : List Frag) (hbuf : buf ≠ []) (len fuel : Nat), len ≤ value.length → len < fuel →
      ∃ last' news r, netBufAppendBytes fuel buf len value alloc = some (buf.dropLast ++ last' :: news, r) ∧
        r ≤ len ∧ chainData (buf.dropLast ++ last' :: news) = chainData buf ++ value.take r ∧
        last'.id = (buf.getLast hbuf).id ∧
        last'.data = (buf.getLast hbuf).data ++ value.take (min len (buf.getLast hbuf).tailroom) ∧
        (r = len ∨ alloc news.length = none) ∧
        (∀ j (hj : j < news.length), ∃ f, alloc j = some f ∧ (news.get ⟨j, hj⟩).id = f.id) ∧
        ∀ g ∈ (last' :: news).dropLast, g.tailroom = 0) ∧
    (∀ (w : Nat) (pre : List Frag), (∀ g ∈ pre, g.ref = 1) → netBufUnref w pre = ([], pre.map Frag.id)) ∧
    (∀ (w : Nat) (pre : List Frag) (f : Frag) (rest : List Frag), (∀ g ∈ pre, g.ref = 1) → 2 ≤ f.ref →
      f.refWord < 2 ^ w →
      netBufUnref w (pre ++ f :: rest) = ({ f with refWord := f.refWord - 1 } :: rest, pre.map Frag.id) ∧
        Frag.ref { f with refWord := f.refWord - 1 } = f.ref - 1 ∧ (f.refWord - 1) / 256 = f.refWord / 256) := by
  refine ⟨fun dst dstLen src offset len => ?_, fun _ _ _ => rfl, fun buf _ _ => ?_,
    fun buf offset dptr len hbuf => netBufDataMatch_eq buf offset dptr len hbuf,
    fun value alloc halloc buf hbuf _ _ hv hfuel => netBufAppendBytes_spec value alloc halloc hbuf hv hfuel,
    fun w pre hpre => by simpa [netBufUnref] using netBufUnref_append w hpre [], fun w pre f rest hpre hf hw => ?_⟩
  · obtain ⟨hin, hout⟩ := netBufLinearize_written dst dstLen src offset len
    exact ⟨by rw [netBufLinearize_eq], hin, hout⟩
  · cases buf <;> rfl
  · have hbyte := ref_sub_one (show 0 < f.refWord % 256 by unfold Frag.ref at hf; omega)
    refine ⟨?_, hbyte.1, hbyte.2⟩
    rw [netBufUnref_append w hpre, netBufUnref_stop w hf hw]
    simp

end Zephyr.NetBuf
